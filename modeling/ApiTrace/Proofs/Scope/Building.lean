import ApiTrace.Proofs.Scope.Descent
import ApiTrace.Proofs.Scope.Variables

/-!
# What stays while scopes are built

Every event is put down to the scope that is innermost when it comes: a mention is kept with its
number, and a definition stays with the variable that it was added to. When the whole program is
read, names that no scope knows are made known to the outermost scope. No answer of a look-up is
lost by that, since the outermost scope is asked last (`lookup?_addUndeclared`).
-/

namespace ApiTrace

/-! ## Definitions -/

namespace Scope

/-- Whether the variable of a name has a definition. -/
def Defines (s : Scope) (name : Text) (d : Definition) : Prop :=
  ∃ v, s.get? name = some v ∧ d ∈ v.definitions

variable {s : Scope} {name : Text} {d : Definition}

theorem get?_addName_of_some {v : Variable} (h : s.get? name = some v) (name' : Text) :
    (s.addName name').get? name = some v := by
  unfold addName
  split
  · exact h
  · rw [get?, List.find?_append]
    rw [get?] at h
    rw [h, Option.some_or]

theorem declares_addName_self (s : Scope) (name : Text) :
    (s.addName name).declares name = true := by
  unfold addName
  split
  · assumption
  · simp [declares_iff]

theorem declares_addName (h : s.declares name = true) (name' : Text) :
    (s.addName name').declares name = true := by
  obtain ⟨v, hv⟩ := Option.isSome_iff_exists.1 h
  exact Option.isSome_iff_exists.2 ⟨v, get?_addName_of_some hv name'⟩

theorem Defines.declares (h : s.Defines name d) : s.declares name = true := by
  obtain ⟨v, hv, _⟩ := h
  exact Option.isSome_iff_exists.2 ⟨v, hv⟩

theorem Defines.addName (h : s.Defines name d) (name' : Text) :
    (s.addName name').Defines name d := by
  obtain ⟨v, hv, hd⟩ := h
  exact ⟨v, get?_addName_of_some hv name', hd⟩

theorem get?_addDefinition (s : Scope) (name name' : Text) (d : Definition) :
    (s.addDefinition name' d).get? name = ((s.addName name').get? name).map fun v =>
      if v.name = name' then { v with definitions := v.definitions ++ [d] } else v := by
  simp only [addDefinition, get?, List.find?_map]
  congr 2
  funext v
  simp only [Function.comp]
  split <;> rfl

theorem Defines.addDefinition (h : s.Defines name d) (name' : Text) (d' : Definition) :
    (s.addDefinition name' d').Defines name d := by
  obtain ⟨v, hv, hd⟩ := h.addName name'
  refine ⟨_, by rw [get?_addDefinition, hv, Option.map_some], ?_⟩
  split
  · exact List.mem_append_left _ hd
  · exact hd

theorem defines_addDefinition (s : Scope) (name : Text) (d : Definition) :
    (s.addDefinition name d).Defines name d := by
  obtain ⟨v, hv⟩ := Option.isSome_iff_exists.1 (s.declares_addName_self name)
  have hname : v.name = name := by
    rw [get?] at hv
    simpa using List.find?_some hv
  refine ⟨_, by rw [get?_addDefinition, hv, Option.map_some], ?_⟩
  rw [if_pos hname]
  exact List.mem_append_right _ (List.mem_singleton.2 rfl)

end Scope

namespace ScopeBuilder

variable {b : ScopeBuilder} {events : List ScopeEvent} {j : Nat} {name : Text} {d : Definition}

/-- Whether scope `j` has a definition of a name. -/
def Defines (b : ScopeBuilder) (j : Nat) (name : Text) (d : Definition) : Prop :=
  ∃ s, b.scopes[j]? = some s ∧ s.Defines name d

theorem exists_modify {f : Scope → Scope} {P : Scope → Prop} (hf : ∀ s, P s → P (f s)) (i : Nat)
    {scopes : List Scope} (h : ∃ s, scopes[j]? = some s ∧ P s) :
    ∃ s, (scopes.modify i f)[j]? = some s ∧ P s := by
  obtain ⟨s, hs, hP⟩ := h
  by_cases hij : i = j
  · exact ⟨f s, by simp [hs, hij], hf s hP⟩
  · exact ⟨s, by simp [hs, hij], hP⟩

theorem Defines.step (h : b.Defines j name d) (e : ScopeEvent) : (b.step e).Defines j name d := by
  cases e with
  | enter kind block =>
    obtain ⟨s, hs, hd⟩ := h
    refine ⟨s, ?_, hd⟩
    show (b.scopes ++ [_])[j]? = some s
    rw [List.getElem?_append_left (List.getElem?_eq_some_iff.1 hs).1, hs]
  | leave | mention | fault => exact h
  | implicit name' => exact exists_modify (fun s hs => hs.addName name') _ h
  | define target d' =>
    simp only [ScopeBuilder.step]
    split
    · exact exists_modify (fun s hs => hs.addDefinition _ d') _ h
    · exact h

theorem Defines.after (h : b.Defines j name d) (events : List ScopeEvent) :
    (b.after events).Defines j name d := by
  induction events generalizing b with
  | nil => exact h
  | cons e events ih => exact ih (h.step e)

/-- The innermost scope is one of the scopes. -/
structure Known (b : ScopeBuilder) : Prop where
  nonempty : 0 < b.scopes.length
  opened : ∀ i ∈ b.openScopes, i < b.scopes.length

theorem Known.current_lt (h : b.Known) : b.current < b.scopes.length := by
  unfold current
  cases hhead : b.openScopes.head? with
  | none => exact h.nonempty
  | some i => exact h.opened i (List.mem_of_head? hhead)

theorem length_step_le (b : ScopeBuilder) (e : ScopeEvent) :
    b.scopes.length ≤ (b.step e).scopes.length := by
  cases e with
  | enter => simp [step]
  | leave | mention | fault => exact Nat.le_refl _
  | implicit => simp [step, modify]
  | define =>
    simp only [step]
    split
    · simp [modify]
    · exact Nat.le_refl _

theorem Known.step (h : b.Known) (e : ScopeEvent) : (b.step e).Known := by
  have hlength := b.length_step_le e
  refine ⟨Nat.lt_of_lt_of_le h.nonempty hlength, ?_⟩
  cases e with
  | enter kind block =>
    refine List.forall_mem_cons.2 ⟨by simp [ScopeBuilder.step], fun i hi => ?_⟩
    exact Nat.lt_of_lt_of_le (h.opened i hi) hlength
  | leave =>
    intro i hi
    exact h.opened i (List.mem_of_mem_tail hi)
  | implicit | mention | fault =>
    intro i hi
    exact Nat.lt_of_lt_of_le (h.opened i hi) hlength
  | define target d =>
    have hopen := (b.step_point (e := .define target d) rfl).1
    rw [hopen]
    exact fun i hi => Nat.lt_of_lt_of_le (h.opened i hi) hlength

/-- A definition that belongs to the scope it stands in is there in the end. -/
theorem defines_of_place (hb : b.Known) (h : (j, .define .here d) ∈ b.places events)
    (hname : d.name.name? = some name) : (b.after events).Defines j name d := by
  induction events generalizing b with
  | nil => cases h
  | cons e events ih =>
    rcases List.mem_cons.1 h with heq | h
    · obtain ⟨rfl, rfl⟩ := Prod.mk.inj heq
      refine Defines.after ?_ events
      obtain ⟨s, hs⟩ : ∃ s, b.scopes[b.current]? = some s :=
        ⟨_, List.getElem?_eq_getElem hb.current_lt⟩
      refine ⟨s.addDefinition name d, ?_, s.defines_addDefinition name d⟩
      simp [ScopeBuilder.step, hname, modify, targetScope, hs]
    · exact ih (hb.step e) h

theorem exists_place (b : ScopeBuilder) {e : ScopeEvent} (h : e ∈ events) :
    ∃ j, (j, e) ∈ b.places events := by
  induction events generalizing b with
  | nil => cases h
  | cons e' events ih =>
    rcases List.mem_cons.1 h with rfl | h
    · exact ⟨b.current, .head _⟩
    · obtain ⟨j, hj⟩ := ih (b.step e') h
      exact ⟨j, .tail _ hj⟩

/-- A mention is kept with the number of the scope that it stands in. -/
theorem place_of_mention {m : Mention} (h : (j, m) ∈ (b.after events).mentions) :
    (j, m) ∈ b.mentions ∨ (j, .mention m) ∈ b.places events := by
  induction events generalizing b with
  | nil => exact .inl h
  | cons e events ih =>
    rcases ih h with h | h
    · cases e with
      | mention m' =>
        rcases List.mem_cons.1 h with heq | h
        · cases heq
          exact .inr (.head _)
        · exact .inl h
      | define target d =>
        simp only [step] at h
        split at h <;> exact .inl h
      | _ => exact .inl h
    · exact .inr (.tail _ h)

end ScopeBuilder

/-! ## Undeclared names -/

section Undeclared

variable {scopes : List Scope} {references : List Reference} {name : Text}

/-- The outermost scope with the names that no scope knows. -/
def Scope.addUnresolved (s : Scope) (references : List Reference) : Scope :=
  references.foldl (fun s r => if r.resolved.scope = 0 then s.addName r.name else s) s

theorem addUndeclared_eq (scopes : List Scope) (references : List Reference) :
    addUndeclared scopes references = scopes.modify 0 (·.addUnresolved references) := rfl

/-- What adding a name does not change stays. -/
theorem Scope.addUnresolved_induction {P : Scope → Prop} (hP : ∀ s name, P s → P (s.addName name))
    (references : List Reference) {s : Scope} (hs : P s) : P (s.addUnresolved references) := by
  induction references generalizing s with
  | nil => exact hs
  | cons r references ih =>
    by_cases hscope : r.resolved.scope = 0
    · simp only [addUnresolved, List.foldl_cons, if_pos hscope]
      exact ih (hP s r.name hs)
    · simp only [addUnresolved, List.foldl_cons, if_neg hscope]
      exact ih hs

theorem Scope.declares_addUnresolved (s : Scope) {r : Reference} (hr : r ∈ references)
    (hscope : r.resolved.scope = 0) : (s.addUnresolved references).declares r.name = true := by
  induction references generalizing s with
  | nil => cases hr
  | cons r' references ih =>
    rcases List.mem_cons.1 hr with rfl | hr
    · have hrest : ((s.addName r.name).addUnresolved references).declares r.name = true :=
        addUnresolved_induction (P := (·.declares r.name = true))
          (fun s n hs => declares_addName hs n)
          references (s.declares_addName_self r.name)
      simp only [addUnresolved, List.foldl_cons, if_pos hscope]
      exact hrest
    · exact ih _ hr

theorem map_outline_addUndeclared (scopes : List Scope) (references : List Reference) :
    (addUndeclared scopes references).map Scope.outline = scopes.map Scope.outline := by
  refine map_outline_modify (fun s => ?_) 0 scopes
  exact Scope.addUnresolved_induction (P := (·.outline = s.outline))
    (fun s' n hs' => (s'.outline_addName n).trans hs') references rfl

theorem getElem?_addUndeclared {j : Nat} (hj : j ≠ 0) :
    (addUndeclared scopes references)[j]? = scopes[j]? := by
  rw [addUndeclared_eq, List.getElem?_modify]
  simp [hj.symm]

/-- Look-up among falling numbers that end in zero, where the answer may only be new at zero. -/
theorem find?_falling {p q : Nat → Bool} {l : List Nat} (hl : l.Pairwise (· > ·)) (hzero : 0 ∈ l)
    (hsame : ∀ j, j ≠ 0 → q j = p j) (hkept : p 0 = true → q 0 = true)
    (hnew : l.find? p = none → q 0 = true) : l.find? q = some ((l.find? p).getD 0) := by
  induction l with
  | nil => cases hzero
  | cons a l ih =>
    obtain ⟨hhead, htail⟩ := List.pairwise_cons.1 hl
    by_cases ha : a = 0
    · obtain rfl : l = [] := by
        cases l with
        | nil => rfl
        | cons b l =>
          have := hhead b (.head _)
          omega
      subst ha
      cases hp : p 0 with
      | true => simp [hp, hkept hp]
      | false => simp [hp, hnew (by simp [hp])]
    · have hzero : 0 ∈ l := (List.mem_cons.1 hzero).resolve_left (Ne.symm ha)
      cases hp : p a with
      | true => simp [hp, hsame a ha]
      | false =>
        have hq : q a = false := by rw [hsame a ha, hp]
        simp only [List.find?_cons, hp] at hnew
        simp only [List.find?_cons, hp, hq]
        exact ih htail hzero hnew

/-- After the undeclared names are made known, every reference finds its variable by its scope. -/
theorem lookup?_addUndeclared {i : Nat} {s : Scope} (hs : scopes[i]? = some s)
    (hfalling : (i :: s.outer).Pairwise (· > ·)) (hzero : 0 ∈ i :: s.outer)
    (hknown : 0 < scopes.length) {r : Reference} (hr : r ∈ references)
    (hresolved : r.resolved.scope = (lookup? scopes i r.name).getD 0) :
    lookup? (addUndeclared scopes references) i r.name =
      some ((lookup? scopes i r.name).getD 0) := by
  obtain ⟨s₀, hs₀⟩ : ∃ s₀, scopes[0]? = some s₀ := ⟨_, List.getElem?_eq_getElem hknown⟩
  have hs₀' : (addUndeclared scopes references)[0]? = some (s₀.addUnresolved references) := by
    rw [addUndeclared_eq, List.getElem?_modify]
    simp [hs₀]
  obtain ⟨s', hs', -, houter⟩ :=
    (Outlines.of_eq (map_outline_addUndeclared scopes references).symm).getElem? hs
  have hlookup : lookup? scopes i r.name =
      (i :: s.outer).find? fun j => scopes[j]?.any (·.declares r.name) := by
    simp only [lookup?, hs]
  rw [hlookup] at hresolved ⊢
  simp only [lookup?, hs', houter]
  refine find?_falling hfalling hzero (fun j hj => by rw [getElem?_addUndeclared hj]) ?_ ?_
  · intro hp
    simp only [hs₀, hs₀', Option.any_some] at hp ⊢
    exact Scope.addUnresolved_induction (P := (·.declares r.name = true))
      (fun s n hs => Scope.declares_addName hs n) references hp
  · intro hnone
    rw [hnone] at hresolved
    simp only [hs₀', Option.any_some]
    exact s₀.declares_addUnresolved hr hresolved

end Undeclared

end ApiTrace
