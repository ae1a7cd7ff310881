import ApiTrace.Proofs.Flow.DepthFirst
import ApiTrace.Proofs.Flow.Relation
import ApiTrace.Proofs.Scope.Variables

/-!
# Tracing enumerates the flow of a value

`Tracer.bind`, `Tracer.climb` and `Tracer.enter` look for a value with a stack of variables and stop
at a fault. `Tracer.Occurs` says what there is to find. The two agree: each function gives the
outcomes of the flows from its place, in depth-first order and up to the first fault
(`Tracer.bind_lists`, `Tracer.climb_lists`, `Tracer.enter_lists`).

For a pattern the induction is on the pattern, for an expression on the way up to the root, and for
a variable on the variables that are not entered yet. The variable stack of the functions is the
`via` of the states, so nothing has to be said about how it is left: a flow that goes another way
has another `via`.
-/

namespace ApiTrace

open Emission (Lists)

namespace Tracer

variable {ι : Type} {t : Tracer} {via : List VariableId}

/-! ## From the next states to a state -/

section NextStates

variable {s s₁ s₂ : FlowState ι} {e e₁ e₂ : Emission ConstantFault}

theorem lists_of_stuck (hstep : ∀ k s', ¬ t.Step s k s') (hends : ∀ a o, ¬ t.Ends s a o) :
    Lists (t.Occurs s) .empty := by
  apply Lists.empty
  intro a o h
  rcases occurs_iff.1 h with ⟨-, hend⟩ | ⟨k, b, s', -, hs, -⟩
  · exact hends a o hend
  · exact hstep k s' hs

theorem lists_of_fault {n : Nat} {fault : ConstantFault} (hvia : s.via.Nodup)
    (hstep : ∀ k s', ¬ t.Step s k s')
    (hends : ∀ a o, t.Ends s a o ↔ a = [n] ∧ o = .error fault) :
    Lists (t.Occurs s) (.fail fault) := by
  refine (Lists.fail [n] fault).congr fun a o => ?_
  rw [occurs_iff, hends]
  constructor
  · intro h
    exact .inl ⟨hvia, h⟩
  · rintro (⟨-, h⟩ | ⟨k, b, s', -, hs, -⟩)
    · exact h
    · exact absurd hs (hstep k s')

theorem lists_of_step {n : Nat} (hstep : ∀ k s', t.Step s k s' ↔ k = n ∧ s' = s₁)
    (hends : ∀ a o, ¬ t.Ends s a o) (h : Lists (t.Occurs s₁) e) : Lists (t.Occurs s) e := by
  refine (h.under n).congr fun a o => ?_
  rw [occurs_iff]
  constructor
  · rintro ⟨b, rfl, hb⟩
    exact .inr ⟨n, b, s₁, rfl, (hstep n s₁).2 ⟨rfl, rfl⟩, hb⟩
  · rintro (⟨-, hend⟩ | ⟨k, b, s', rfl, hs, hb⟩)
    · exact absurd hend (hends a o)
    · obtain ⟨rfl, rfl⟩ := (hstep k s').1 hs
      exact ⟨b, rfl, hb⟩

theorem lists_of_steps {n m : Nat} (hnm : n < m)
    (hstep : ∀ k s', t.Step s k s' ↔ k = n ∧ s' = s₁ ∨ k = m ∧ s' = s₂)
    (hends : ∀ a o, ¬ t.Ends s a o) (h₁ : Lists (t.Occurs s₁) e₁) (h₂ : Lists (t.Occurs s₂) e₂) :
    Lists (t.Occurs s) (e₁ ++ e₂) := by
  refine (Lists.branches hnm h₁ h₂).congr fun a o => ?_
  rw [occurs_iff]
  constructor
  · rintro (⟨b, rfl, hb⟩ | ⟨b, rfl, hb⟩)
    · exact .inr ⟨n, b, s₁, rfl, (hstep n s₁).2 (.inl ⟨rfl, rfl⟩), hb⟩
    · exact .inr ⟨m, b, s₂, rfl, (hstep m s₂).2 (.inr ⟨rfl, rfl⟩), hb⟩
  · rintro (⟨-, hend⟩ | ⟨k, b, s', rfl, hs, hb⟩)
    · exact absurd hend (hends a o)
    · rcases (hstep k s').1 hs with ⟨rfl, rfl⟩ | ⟨rfl, rfl⟩
      · exact .inl ⟨b, rfl, hb⟩
      · exact .inr ⟨b, rfl, hb⟩

/-- A state that goes on only under a condition. -/
theorem lists_of_guard {c : Prop} [Decidable c] {P : Nat → FlowState ι → Prop}
    (hstep : ∀ k s', t.Step s k s' ↔ c ∧ P k s') (hends : ∀ a o, ¬ t.Ends s a o)
    (h : (∀ k s', t.Step s k s' ↔ P k s') → Lists (t.Occurs s) e) :
    Lists (t.Occurs s) (if c then e else .empty) := by
  split
  · rename_i hc
    apply h
    intro k s'
    rw [hstep, and_iff_right hc]
  · rename_i hc
    exact lists_of_stuck (fun k s' hs => hc ((hstep k s').1 hs).1) hends

end NextStates

/-! ## Where a walk ends -/

section Ends

variable {s : Site} {v : Traced ι} {a : List Nat} {o : Except ConstantFault Match}

theorem ends_use_iff {use : Use} : t.Ends ⟨.use use s, v, via⟩ a o ↔
    ∃ entry, v.map.payload? use = some entry ∧ a = [] ∧ o = .ok ⟨s, v.path, use, entry, via⟩ := by
  constructor
  · intro h
    cases h with
    | found h => exact ⟨_, h, rfl, rfl⟩
    | fault h => cases h
  · rintro ⟨entry, h, rfl, rfl⟩
    exact .found h

theorem ends_expression_iff : t.Ends ⟨.expression s, v, via⟩ a o ↔
    ∃ n fault, t.Faults ⟨.expression s, v, via⟩ n fault ∧ a = [n] ∧ o = .error fault := by
  constructor
  · intro h
    cases h with
    | fault h => exact ⟨_, _, h, rfl, rfl⟩
  · rintro ⟨n, fault, h, rfl, rfl⟩
    exact .fault h

theorem ends_pattern_iff : t.Ends ⟨.pattern s, v, via⟩ a o ↔
    ∃ n fault, t.Faults ⟨.pattern s, v, via⟩ n fault ∧ a = [n] ∧ o = .error fault := by
  constructor
  · intro h
    cases h with
    | fault h => exact ⟨_, _, h, rfl, rfl⟩
  · rintro ⟨n, fault, h, rfl, rfl⟩
    exact .fault h

theorem not_ends_variable {x : VariableId} {announced : Bool} :
    ¬ t.Ends ⟨.variable x announced, v, via⟩ a o := by
  intro h
  cases h with
  | fault h => cases h

end Ends

theorem report_lists (hvia : via.Nodup) (use : Use) (s : Site) (v : Traced ι) :
    Lists (t.Occurs ⟨.use use s, v, via⟩) (v.report use s via) := by
  have hstep : ∀ k s', ¬ t.Step ⟨.use use s, v, via⟩ k s' := by
    intro k s' h
    cases h
  rw [Traced.report]
  split
  · rename_i entry hentry
    refine (Lists.one _).congr fun a o => ?_
    rw [occurs_iff, ends_use_iff, hentry]
    simp [hvia, hstep]
  · rename_i hnone
    refine lists_of_stuck hstep fun a o h => ?_
    rw [ends_use_iff, hnone] at h
    simp at h

/-! ## Patterns -/

section Pattern

variable {enter : VariableId → Traced ι → Emission ConstantFault}

theorem bindValue_eq (property : Site) (w : Traced ι) (form : Form) :
    bindValue t via enter property w form =
      match form.propertyValue? with
      | some value => bindOption t via enter property .value w value
      | none => .fail .missingPart := by
  cases form <;> simp [bindValue, Form.propertyValue?]

/-- What comes of the property number `j` of an object pattern. -/
def propertyOutcome (t : Tracer) (via : List VariableId)
    (enter : VariableId → Traced ι → Emission ConstantFault) (self : Site) (v : Traced ι) (j : Nat)
    (n : Node) : Emission ConstantFault :=
  .withValue (n.key? t.joins) fun key =>
    match v.child? key with
    | none => .empty
    | some w => w.report .read (self.down ⟨.properties, j⟩ n) via
        ++ bindValue t via enter (self.down ⟨.properties, j⟩ n) w n.form

theorem bindProperties_cons (self : Site) (v : Traced ι) (j : Nat) (n : Node) (ns : List Node) :
    bindProperties t via enter self v j (n :: ns) =
      propertyOutcome t via enter self v j n ++ bindProperties t via enter self v (j + 1) ns := by
  cases n
  rfl

/-- The outcomes that property number `j` of an object pattern has. -/
def PropertyOccurs (t : Tracer) (via : List VariableId) (self : Site) (v : Traced ι) (j : Nat)
    (a : List Nat) (o : Except ConstantFault Match) : Prop :=
  t.Occurs ⟨.pattern self, v, via⟩ a o ∧ ∃ k b, a = k :: b ∧ 2 * j ≤ k ∧ k ≤ 2 * j + 1

theorem propertyOccurs_iff {self : Site} {v : Traced ι} {properties : List Node}
    {j : Nat} {n : Node} (hf : self.node.form = .objectPattern properties)
    (hn : properties[j]? = some n) (a : List Nat) (o : Except ConstantFault Match) :
    PropertyOccurs t via self v j a o ↔
      (∃ fault, n.key? t.joins = .error fault ∧ via.Nodup ∧ a = [2 * j] ∧ o = .error fault) ∨
      ∃ key w, n.key? t.joins = .ok (some key) ∧ v.child? key = some w ∧
        ((∃ b, a = 2 * j :: b ∧ t.Occurs ⟨.use .read (self.down ⟨.properties, j⟩ n), w, via⟩ b o) ∨
          (∃ value, n.form.propertyValue? = some (some value) ∧ ∃ b, a = (2 * j + 1) :: b ∧
            t.Occurs ⟨.pattern ((self.down ⟨.properties, j⟩ n).down ⟨.value, 0⟩ value), w,
              via⟩ b o) ∨
          n.form.propertyValue? = none ∧ via.Nodup ∧ a = [2 * j + 1] ∧
            o = .error .missingPart) := by
  unfold PropertyOccurs
  rw [occurs_iff, ends_pattern_iff]
  simp only [step_pattern_iff, faults_pattern_iff, hf]
  constructor
  · rintro ⟨⟨hvia, k, fault, ⟨i, n', hn', h⟩, rfl, rfl⟩ |
      ⟨k, b, s', rfl, ⟨i, n', key, w, hn', hk, hw, h⟩, hb⟩, _, _, ⟨rfl, rfl⟩, hlo, hhi⟩
    · have hij : i = j := by omega
      subst hij
      obtain rfl : n' = n := Option.some.inj (hn'.symm.trans hn)
      rcases h with ⟨rfl, hk⟩ | ⟨rfl, rfl, hv, key, w, hk, hw⟩
      · exact .inl ⟨fault, hk, hvia, rfl, rfl⟩
      · exact .inr ⟨key, w, hk, hw, .inr (.inr ⟨hv, hvia, rfl, rfl⟩)⟩
    · have hij : i = j := by omega
      subst hij
      obtain rfl : n' = n := Option.some.inj (hn'.symm.trans hn)
      rcases h with ⟨rfl, rfl⟩ | ⟨rfl, value, hv, rfl⟩
      · exact .inr ⟨key, w, hk, hw, .inl ⟨b, rfl, hb⟩⟩
      · exact .inr ⟨key, w, hk, hw, .inr (.inl ⟨value, hv, b, rfl, hb⟩)⟩
  · rintro (⟨fault, hk, hvia, rfl, rfl⟩ |
      ⟨key, w, hk, hw, ⟨b, rfl, hb⟩ | ⟨value, hv, b, rfl, hb⟩ | ⟨hv, hvia, rfl, rfl⟩⟩)
    · exact ⟨.inl ⟨hvia, _, _, ⟨j, n, hn, .inl ⟨rfl, hk⟩⟩, rfl, rfl⟩, _, _, rfl, by omega, by omega⟩
    · exact ⟨.inr ⟨_, _, _, rfl, ⟨j, n, key, w, hn, hk, hw, .inl ⟨rfl, rfl⟩⟩, hb⟩, _, _, rfl,
        by omega, by omega⟩
    · exact ⟨.inr ⟨_, _, _, rfl, ⟨j, n, key, w, hn, hk, hw, .inr ⟨rfl, value, hv, rfl⟩⟩, hb⟩, _, _,
        rfl, by omega, by omega⟩
    · exact ⟨.inl ⟨hvia, _, _, ⟨j, n, hn, .inr ⟨rfl, rfl, hv, key, w, hk, hw⟩⟩, rfl, rfl⟩, _, _,
        rfl, by omega, by omega⟩

theorem property_lists (hvia : via.Nodup) {self : Site} {v : Traced ι}
    {properties : List Node} {j : Nat} {n : Node} (hf : self.node.form = .objectPattern properties)
    (hn : properties[j]? = some n)
    (ih : ∀ above w value, n.form.propertyValue? = some (some value) →
      Lists (t.Occurs ⟨.pattern ⟨value, above⟩, w, via⟩) (bind t via enter above w value)) :
    Lists (PropertyOccurs t via self v j) (propertyOutcome t via enter self v j n) := by
  unfold propertyOutcome Emission.withValue
  split
  · rename_i fault hk
    refine (Lists.fail [2 * j] fault).congr fun a o => ?_
    rw [propertyOccurs_iff hf hn, hk]
    simp [hvia]
  · rename_i hk
    refine Lists.empty fun a o => ?_
    rw [propertyOccurs_iff hf hn, hk]
    simp
  · rename_i key hk
    dsimp only
    cases hw : v.child? key with
    | none =>
      refine Lists.empty fun a o => ?_
      rw [propertyOccurs_iff hf hn, hk]
      simp [hw]
    | some w =>
      have read := report_lists (t := t) hvia .read (self.down ⟨.properties, j⟩ n) w
      dsimp only
      rw [bindValue_eq]
      cases hv : n.form.propertyValue? with
      | none =>
        refine ((read.under (2 * j)).append (Lists.fail [2 * j + 1] .missingPart) ?_).congr ?_
        · rintro _ o _ p ⟨b, rfl, -⟩ ⟨rfl, -⟩
          exact List.cons_lt_cons_iff.2 (.inl (by omega))
        · intro a o
          rw [propertyOccurs_iff hf hn, hk]
          simp [hw, hv, hvia]
      | some value =>
        cases value with
        | none =>
          simp only [bindOption, Emission.append_empty]
          refine (read.under (2 * j)).congr fun a o => ?_
          rw [propertyOccurs_iff hf hn, hk]
          simp [hw, hv]
        | some value =>
          simp only [bindOption]
          refine (Lists.branches (Nat.lt_succ_self (2 * j)) read (ih _ w value hv)).congr ?_
          intro a o
          rw [propertyOccurs_iff hf hn, hk]
          simp [hw, hv, Site.down]

theorem bindProperties_lists (hvia : via.Nodup) {self : Site} {v : Traced ι}
    {properties : List Node} (hf : self.node.form = .objectPattern properties)
    (ih : ∀ n ∈ properties, ∀ above w value, n.form.propertyValue? = some (some value) →
      Lists (t.Occurs ⟨.pattern ⟨value, above⟩, w, via⟩) (bind t via enter above w value)) :
    Lists (t.Occurs ⟨.pattern self, v, via⟩) (bindProperties t via enter self v 0 properties) := by
  have each := Lists.items (Q := fun j _ => PropertyOccurs t via self v j)
    (f := propertyOutcome t via enter self v) (fun j x a o h => h.2) properties 0
    (fun j ns => bindProperties t via enter self v j ns) (fun k => by rw [bindProperties])
    (fun k x ns => bindProperties_cons self v k x ns)
    (fun j n hn => by
      rw [Nat.zero_add]
      exact property_lists hvia hf hn (ih n (List.mem_of_getElem? hn)))
  refine each.congr fun a o => ?_
  constructor
  · rintro ⟨j, n, -, h, -⟩
    exact h
  · intro h
    -- Whatever occurs does so in the property that the first number of the address names.
    have hhead : ∃ k b i n, a = k :: b ∧ properties[i]? = some n ∧ 2 * i ≤ k ∧ k ≤ 2 * i + 1 := by
      rcases occurs_iff.1 h with ⟨-, hend⟩ | ⟨k, b, s', rfl, hs, -⟩
      · simp only [ends_pattern_iff, faults_pattern_iff, hf] at hend
        obtain ⟨k, fault, ⟨i, n, hn, hk⟩, rfl, -⟩ := hend
        exact ⟨k, [], i, n, rfl, hn, by omega, by omega⟩
      · simp only [step_pattern_iff, hf] at hs
        obtain ⟨i, n, key, w, hn, -, -, hk⟩ := hs
        exact ⟨k, b, i, n, rfl, hn, by omega, by omega⟩
    obtain ⟨k, b, i, n, rfl, hn, hlo, hhi⟩ := hhead
    exact ⟨i, n, hn, h, k, b, rfl, by omega, by omega⟩

theorem sizeOf_propertyValue_lt {n value : Node} (h : n.form.propertyValue? = some (some value)) :
    sizeOf value < sizeOf n := by
  obtain ⟨span, form⟩ := n
  cases form <;> simp_all [Form.propertyValue?, Node.form] <;> omega

/-- Binding gives everything that comes of a value before an optional pattern, if it does so before
the pattern. -/
theorem bindOption_lists {s : FlowState ι} (self : Site) (role : Role) (v : Traced ι)
    (pattern : Option Node)
    (hbind : ∀ n, pattern = some n → Lists (t.Occurs ⟨.pattern (self.down ⟨role, 0⟩ n), v, via⟩)
      (bind t via enter (self.frames ⟨role, 0⟩) v n))
    (hstep : ∀ k s', t.Step s k s' ↔ ∃ n, pattern = some n ∧ k = 0 ∧
      s' = ⟨.pattern (self.down ⟨role, 0⟩ n), v, via⟩) (hends : ∀ a o, ¬ t.Ends s a o) :
    Lists (t.Occurs s) (bindOption t via enter self role v pattern) := by
  cases pattern with
  | none =>
    rw [bindOption]
    refine lists_of_stuck (fun k s' h => ?_) hends
    obtain ⟨n, hn, -⟩ := (hstep k s').1 h
    cases hn
  | some n =>
    rw [bindOption]
    refine lists_of_step (n := 0) (fun k s' => ?_) hends (hbind n rfl)
    rw [hstep]
    simp

/-- Binding gives everything that comes of a value before the pattern. -/
theorem bind_lists (hvia : via.Nodup)
    (henter : ∀ y w, y ∈ t.graph.variableIds →
      Lists (t.Occurs ⟨.variable y false, w, via⟩) (enter y w)) (above : List Frame) (v : Traced ι)
    (n : Node) : Lists (t.Occurs ⟨.pattern ⟨n, above⟩, v, via⟩) (bind t via enter above v n) := by
  -- The patterns inside are smaller, those in the properties of an object pattern by two levels.
  induction hsize : sizeOf n using Nat.strongRecOn generalizing n above v with
  | _ size ih =>
    obtain ⟨span, form⟩ := n
    have hstep : ∀ k s', t.Step ⟨.pattern ⟨.mk span form, above⟩, v, via⟩ k s' ↔ _ :=
      fun k s' => step_pattern_iff
    have hends : ∀ a o, t.Ends ⟨.pattern ⟨.mk span form, above⟩, v, via⟩ a o ↔ _ :=
      fun a o => ends_pattern_iff
    simp only [faults_pattern_iff] at hends
    rw [bind]
    cases form with
    | identifier name =>
      rw [bindForm]
      have noend : ∀ a o, ¬ t.Ends ⟨.pattern ⟨.mk span (.identifier name), above⟩, v, via⟩ a o := by
        rintro a o h
        obtain ⟨k, fault, hfalse, -⟩ := (hends a o).1 h
        exact hfalse
      split
      · rename_i x hx
        refine lists_of_step (n := 0) (fun k s' => ?_) noend
          (henter x v (ScopeGraph.findVariable?_mem hx))
        rw [hstep]
        constructor
        · rintro ⟨y, hy, hk⟩
          obtain rfl : y = x := Option.some.inj (hy.symm.trans hx)
          exact hk
        · intro hk
          exact ⟨x, hx, hk⟩
      · rename_i hnone
        refine lists_of_stuck (fun k s' h => ?_) noend
        obtain ⟨y, hy, -⟩ := (hstep k s').1 h
        rw [hy] at hnone
        cases hnone
    | objectPattern properties =>
      rw [bindForm]
      refine bindProperties_lists hvia rfl fun n hn above w value hvalue => ?_
      refine ih (sizeOf value) ?_ above w value rfl
      have hlt := sizeOf_propertyValue_lt hvalue
      have hmem := List.sizeOf_lt_of_mem hn
      simp at hsize
      omega
    | assignmentPattern left right =>
      rw [bindForm]
      refine bindOption_lists _ .left v left (fun n hn => ?_) hstep fun a o h => ?_
      · subst hn
        exact ih (sizeOf n) (by simp at hsize; omega) _ v n rfl
      · obtain ⟨k, fault, hfalse, -⟩ := (hends a o).1 h
        exact hfalse
    | other name children =>
      rw [bindForm]
      split
      · rename_i hname
        refine lists_of_fault hvia (fun k s' h => (hstep k s').1 h) (n := 0) fun a o => ?_
        rw [hends]
        constructor
        · rintro ⟨k, fault, ⟨-, rfl, rfl⟩, h⟩
          exact h
        · intro h
          exact ⟨0, _, ⟨hname, rfl, rfl⟩, h⟩
      · rename_i hname
        refine lists_of_stuck (fun k s' h => (hstep k s').1 h) fun a o h => ?_
        obtain ⟨k, fault, ⟨hmem, -⟩, -⟩ := (hends a o).1 h
        exact hname hmem
    | _ =>
      refine lists_of_stuck (fun k s' h => (hstep k s').1 h) fun a o h => ?_
      obtain ⟨k, fault, hfalse, -⟩ := (hends a o).1 h
      exact hfalse

/-! ## Expressions -/

section Parents

variable {node : Node} {frame : Frame} {above : List Frame} {v : Traced ι}

/-- Climbing to a member access gives what comes of the property that its key names. -/
theorem climb_member_lists (hvia : via.Nodup) {object property : Option Node}
    {computed optional : Bool} (hf : frame.parent.form = .member object property computed optional)
    (ih : ∀ w, Lists (t.Occurs ⟨.expression ⟨frame.parent, above⟩, w, via⟩)
      (t.climb via enter above w)) :
    Lists (t.Occurs ⟨.expression ⟨node, frame :: above⟩, v, via⟩)
      (t.climb via enter (frame :: above) v) := by
  have hstep : ∀ k s', t.Step ⟨.expression ⟨node, frame :: above⟩, v, via⟩ k s' ↔ _ :=
    fun k s' => step_expression_iff
  have hends : ∀ a o, t.Ends ⟨.expression ⟨node, frame :: above⟩, v, via⟩ a o ↔ _ :=
    fun a o => ends_expression_iff
  simp only [faults_expression_iff, hf] at hstep hends
  simp only [climb, hf]
  split
  · rename_i hr
    unfold Emission.withValue
    split
    · rename_i fault hk
      refine lists_of_fault hvia (n := 0) (fun k s' h => ?_) fun a o => ?_
      · simp [hstep, hk] at h
      · rw [hends]
        constructor
        · rintro ⟨n, fault', ⟨-, rfl, hfault'⟩, ha, ho⟩
          cases hk.symm.trans hfault'
          exact ⟨ha, ho⟩
        · rintro ⟨ha, ho⟩
          exact ⟨0, fault, ⟨hr, rfl, hk⟩, ha, ho⟩
    · rename_i hk
      refine lists_of_stuck (fun k s' h => ?_) fun a o h => ?_
      · simp [hstep, hk] at h
      · simp [hends, hk] at h
    · rename_i key hk
      have noend : ∀ a o, ¬ t.Ends ⟨.expression ⟨node, frame :: above⟩, v, via⟩ a o := by
        intro a o h
        simp [hends, hk] at h
      dsimp only
      split
      · rename_i hw
        refine lists_of_stuck (fun k s' h => ?_) noend
        simp [hstep, hk, hw] at h
      · rename_i w hw
        refine lists_of_steps (n := 0) (m := 1) Nat.zero_lt_one (fun k s' => ?_) noend
          (report_lists hvia .read _ w) (ih w)
        simp [hstep, hr, hk, hw]
  · rename_i hr
    refine lists_of_stuck (fun k s' h => hr ((hstep k s').1 h).1) fun a o h => ?_
    obtain ⟨k, fault, h, -⟩ := (hends a o).1 h
    exact hr h.1

/-- A form that does not use a value passes it on, ends the climb, or lacks the parts to use it. -/
theorem climb_passing_lists (hvia : via.Nodup) (huser : frame.parent.form.isUser = false)
    (ih : Lists (t.Occurs ⟨.expression ⟨frame.parent, above⟩, v, via⟩)
      (t.climb via enter above v)) :
    Lists (t.Occurs ⟨.expression ⟨node, frame :: above⟩, v, via⟩)
      (t.climb via enter (frame :: above) v) := by
  have hclimb : t.climb via enter (frame :: above) v =
      if isBoundary frame.parent.form.name then
        if frame.parent.form.name ∈ userNames then .fail .missingPart else .empty
      else t.climb via enter above v := by
    rw [climb]
    split
    all_goals first
      | rfl
      | (rename_i hf; rw [hf] at huser; cases huser)
  rw [hclimb]
  split
  · rename_i hb
    have nostep : ∀ k s', ¬ t.Step ⟨.expression ⟨node, frame :: above⟩, v, via⟩ k s' := by
      intro k s' h
      rw [step_expression_iff_of_not_user huser, hb] at h
      cases h.1
    split
    · rename_i hn
      refine lists_of_fault hvia (n := 0) nostep fun a o => ?_
      simp [ends_expression_iff, faults_expression_iff_of_not_user huser, hn, and_assoc]
    · rename_i hn
      refine lists_of_stuck nostep fun a o h => ?_
      simp [ends_expression_iff, faults_expression_iff_of_not_user huser, hn] at h
  · rename_i hb
    have hname : frame.parent.form.name ∉ userNames := fun h => hb (isBoundary_of_mem_userNames h)
    refine lists_of_step (n := 0) (fun k s' => ?_) (fun a o h => ?_) ih
    · simp [step_expression_iff_of_not_user huser, hb]
    · simp [ends_expression_iff, faults_expression_iff_of_not_user huser, hname] at h

end Parents

/-- Climbing gives everything that comes of the value of an expression. -/
theorem climb_lists (hvia : via.Nodup)
    (henter : ∀ y w, y ∈ t.graph.variableIds →
      Lists (t.Occurs ⟨.variable y false, w, via⟩) (enter y w)) (node : Node) (above : List Frame)
    (v : Traced ι) :
    Lists (t.Occurs ⟨.expression ⟨node, above⟩, v, via⟩) (t.climb via enter above v) := by
  induction above generalizing node v with
  | nil =>
    rw [climb]
    have noparent : ∀ p, Site.parent? ⟨node, []⟩ ≠ some p := fun p h => by cases h
    refine lists_of_stuck (fun k s' h => ?_) fun a o h => ?_
    · cases h <;> exact absurd (by assumption) (noparent _)
    · obtain ⟨k, fault, h, -⟩ := ends_expression_iff.1 h
      cases h <;> exact absurd (by assumption) (noparent _)
  | cons frame above ih =>
    have hstep : ∀ k s', t.Step ⟨.expression ⟨node, frame :: above⟩, v, via⟩ k s' ↔ _ :=
      fun k s' => step_expression_iff
    -- A form that has the parts to use a value can only fault for want of a key.
    have noend : ∀ f, frame.parent.form = f → f.isUser = true →
        (∀ object property computed optional, f ≠ .member object property computed optional) →
        ∀ a o, ¬ t.Ends ⟨.expression ⟨node, frame :: above⟩, v, via⟩ a o := by
      rintro f hf huser hmember a o h
      obtain ⟨k, fault, h, -⟩ := ends_expression_iff.1 h
      rw [faults_expression_iff, hf] at h
      split at h
      · exact hmember _ _ _ _ rfl
      · rw [huser] at h
        cases h.1
    cases hf : frame.parent.form with
    | member => exact climb_member_lists hvia hf (ih frame.parent)
    | call =>
      have noend := noend _ hf rfl (by simp)
      simp only [climb, hf] at hstep ⊢
      exact lists_of_guard hstep noend fun hstep => lists_of_step hstep noend
        (report_lists hvia .call _ v)
    | construct =>
      have noend := noend _ hf rfl (by simp)
      simp only [climb, hf] at hstep ⊢
      exact lists_of_guard hstep noend fun hstep => lists_of_step hstep noend
        (report_lists hvia .construct _ v)
    | assignment operator left right =>
      have noend := noend _ hf rfl (by simp)
      simp only [climb, hf] at hstep ⊢
      refine lists_of_guard hstep noend fun hstep => ?_
      cases left with
      | none =>
        rw [bindOption, Emission.empty_append]
        refine lists_of_step (n := 1) (fun k s' => ?_) noend (ih frame.parent v)
        simp [hstep]
      | some left =>
        rw [bindOption]
        refine lists_of_steps (n := 0) (m := 1) Nat.zero_lt_one (fun k s' => ?_) noend
          (bind_lists hvia henter _ v left) (ih frame.parent v)
        simp [hstep, Site.down]
    | assignmentPattern left right =>
      have noend := noend _ hf rfl (by simp)
      simp only [climb, hf] at hstep ⊢
      exact lists_of_guard hstep noend fun hstep =>
        bindOption_lists _ .left v left (fun n _ => bind_lists hvia henter _ v n) hstep noend
    | variableDeclarator target init =>
      have noend := noend _ hf rfl (by simp)
      simp only [climb, hf] at hstep ⊢
      exact lists_of_guard hstep noend fun hstep =>
        bindOption_lists _ .name v target (fun n _ => bind_lists hvia henter _ v n) hstep noend
    | _ => exact climb_passing_lists hvia (by rw [hf]; rfl) (ih frame.parent v)

end Pattern

/-! ## Variables -/

/-- The outcomes of the read number `j` of a variable. -/
theorem readOccurs_iff {x : VariableId} {announced : Bool} {v : Traced ι} {j : Nat} {r : Reference}
    (hr : (t.graph.readsOf x)[j]? = some r) (a : List Nat) (o : Except ConstantFault Match) :
    (t.Occurs ⟨.variable x announced, v, via⟩ a o ∧
        ∃ k b, a = k :: b ∧ 2 * j ≤ k ∧ k ≤ 2 * j + 1) ↔
      (announced = true ∧ ∃ b, a = 2 * j :: b ∧
          t.Occurs ⟨.use .read r.mention.identifier, v, x :: via⟩ b o) ∨
        ∃ b, a = (2 * j + 1) :: b ∧
          t.Occurs ⟨.expression r.mention.identifier, v, x :: via⟩ b o := by
  rw [occurs_iff]
  simp only [step_variable_iff]
  constructor
  · rintro ⟨⟨-, hend⟩ | ⟨k, b, s', rfl, ⟨i, r', hr', h⟩, hb⟩, _, _, hcons, hlo, hhi⟩
    · exact absurd hend not_ends_variable
    · cases hcons
      have hij : i = j := by omega
      subst hij
      obtain rfl : r' = r := Option.some.inj (hr'.symm.trans hr)
      rcases h with ⟨rfl, rfl, rfl⟩ | ⟨rfl, rfl⟩
      · exact .inl ⟨rfl, b, rfl, hb⟩
      · exact .inr ⟨b, rfl, hb⟩
  · rintro (⟨rfl, b, rfl, hb⟩ | ⟨b, rfl, hb⟩)
    · exact ⟨.inr ⟨_, _, _, rfl, ⟨j, r, hr, .inl ⟨rfl, rfl, rfl⟩⟩, hb⟩, _, _, rfl,
        by omega, by omega⟩
    · exact ⟨.inr ⟨_, _, _, rfl, ⟨j, r, hr, .inr ⟨rfl, rfl⟩⟩, hb⟩, _, _, rfl, by omega, by omega⟩

/-- Entering a variable gives everything that comes of its value. -/
theorem enter_lists (hvia : via.Nodup) (announced : Bool) {x : VariableId}
    (hx : x ∈ t.graph.variableIds) (v : Traced ι) :
    Lists (t.Occurs ⟨.variable x announced, v, via⟩) (t.enter via announced x v) := by
  induction hsize : (t.closed via).length using Nat.strongRecOn
    generalizing via announced x v with
  | _ size ih =>
    rw [enter]
    by_cases hmem : x ∈ via
    · rw [dif_neg fun h => h.2 hmem]
      apply Lists.empty
      intro a o hocc
      rcases occurs_iff.1 hocc with ⟨-, hend⟩ | ⟨k, b, s', rfl, hs, hb⟩
      · exact not_ends_variable hend
      · -- The next state has the variable twice.
        obtain ⟨i, r, hr, ⟨-, -, rfl⟩ | ⟨-, rfl⟩⟩ := step_variable_iff.1 hs
        · exact (List.nodup_cons.1 hb.nodup).1 hmem
        · exact (List.nodup_cons.1 hb.nodup).1 hmem
    · rw [dif_pos ⟨hx, hmem⟩]
      have hvia' : (x :: via).Nodup := List.nodup_cons.2 ⟨hmem, hvia⟩
      have henter : ∀ (y : VariableId) (w : Traced ι), y ∈ t.graph.variableIds →
          Lists (t.Occurs ⟨.variable y false, w, x :: via⟩) (t.enter (x :: via) false y w) := by
        intro y w hy
        exact ih _ (hsize ▸ closed_length_lt hx hmem) hvia' false hy w rfl
      have each := Lists.concatMap
        (Q := fun j _ a o => t.Occurs ⟨.variable x announced, v, via⟩ a o ∧
          ∃ k b, a = k :: b ∧ 2 * j ≤ k ∧ k ≤ 2 * j + 1)
        (f := fun r =>
          (if announced then v.report .read r.mention.identifier (x :: via) else .empty)
            ++ t.climb (x :: via) (fun y w => t.enter (x :: via) false y w)
              r.mention.identifier.above v)
        (fun j r a o h => h.2) (t.graph.readsOf x) (fun j r hr => by
          have read := report_lists (t := t) hvia' .read r.mention.identifier v
          have rest := climb_lists hvia' henter r.mention.identifier.node
            r.mention.identifier.above v
          cases announced with
          | true =>
            refine (Lists.branches (Nat.lt_succ_self (2 * j)) read rest).congr fun a o => ?_
            rw [readOccurs_iff hr]
            simp
          | false =>
            simp only [Bool.false_eq_true, ↓reduceIte, Emission.empty_append]
            refine (rest.under (2 * j + 1)).congr fun a o => ?_
            rw [readOccurs_iff hr]
            simp)
      refine each.congr fun a o => ?_
      constructor
      · rintro ⟨j, r, -, h, -⟩
        exact h
      · intro h
        rcases occurs_iff.1 h with ⟨-, hend⟩ | ⟨k, b, s', rfl, hs, -⟩
        · exact absurd hend not_ends_variable
        · obtain ⟨i, r, hr, hk⟩ := step_variable_iff.1 hs
          exact ⟨i, r, hr, h, k, b, rfl, by omega, by omega⟩

/-- **Tracing is the depth-first enumeration of the flow of a value.** There is exactly one list of
all outcomes of the flows from a variable that enter no variable twice, ordered by reference and
property, and tracing gives it, up to the first fault. -/
theorem enter_enumerates_flows (t : Tracer) (via : List VariableId) (hvia : via.Nodup)
    (x : VariableId) (hx : x ∈ t.graph.variableIds) (announced : Bool) (v : Traced ι) :
    ∃ l, DepthFirst (t.Occurs ⟨.variable x announced, v, via⟩) l ∧
      (∀ l', DepthFirst (t.Occurs ⟨.variable x announced, v, via⟩) l' → l' = l) ∧
      t.enter via announced x v = .ofOutcomes (l.map Prod.snd) := by
  obtain ⟨l, hl, heq⟩ := enter_lists hvia announced hx v
  exact ⟨l, hl, fun l' hl' => hl'.unique hl, heq⟩

/-- The program `y = x; x = y.a`, in which a value goes round in a circle. -/
def aliasProgram : Node :=
  let name := fun start (text : String) => Node.mk ⟨start, start + 1, 1, start⟩ (.identifier text)
  let assign := fun (left right : Node) => Node.mk ⟨left.start, right.stop + 1, 1, left.start⟩
    (.expressionStatement (some (.mk ⟨left.start, right.stop, 1, left.start⟩
      (.assignment "=" (some left) (some right)))))
  let member :=
    Node.mk ⟨11, 14, 1, 11⟩ (.member (some (name 11 "y")) (some (name 13 "a")) false false)
  .mk ⟨0, 15, 1, 0⟩ (.program
    [assign (name 0 "y") (name 4 "x"), assign (name 7 "x") member] "script")

/-- The scopes of `aliasProgram`. -/
def aliasGraph : ScopeGraph :=
  match ScopeGraph.analyze aliasProgram with
  | .ok graph => graph
  | .error _ => ⟨aliasProgram, [], []⟩

/-- A map of one node, which is its own property `x` and `a` and is reported where it is read. -/
def loopMap : TraceMap Unit where
  node _ := { MapNode.ofChildren [("x", ()), ("a", ())] with onRead := some (.bool true) }
  root := ()

theorem enter_enumerates_flows_alias :
    (⟨0, "x"⟩ : VariableId) ∈ aliasGraph.variableIds ∧
      ∃ l, DepthFirst (Occurs ⟨aliasGraph, true⟩ ⟨.variable ⟨0, "x"⟩ true, ⟨["x"], loopMap⟩, []⟩)
        l ∧
        (∀ l', DepthFirst
          (Occurs ⟨aliasGraph, true⟩ ⟨.variable ⟨0, "x"⟩ true, ⟨["x"], loopMap⟩, []⟩) l' → l' = l) ∧
        enter ⟨aliasGraph, true⟩ [] true ⟨0, "x"⟩ ⟨["x"], loopMap⟩ = .ofOutcomes (l.map Prod.snd) :=
  ⟨by decide, enter_enumerates_flows ⟨aliasGraph, true⟩ [] .nil ⟨0, "x"⟩ (by decide) true _⟩

end Tracer

end ApiTrace
