import ApiTrace.Proofs.Scope.Building
import ApiTrace.Proofs.Scope.FaithfulForms

/-!
# Chains of scopes

The scopes around a place in the text are the scopes that are open when its events come. `chain`
gives where a scope and those around it stand, and a builder is `Within` some regions if these are
where its open scopes stand. Events that yield something in the scopes around them then tell it to
every builder that is within these scopes (`ScopeBuilder.tells_of_yields`): each event comes to the
scope whose chain is the one that the text gives.
-/

namespace ApiTrace

/-- Where some scopes stand, by their numbers. -/
def regionsOf (scopes : List Scope) (numbers : List Nat) : List Region :=
  numbers.filterMap fun i => scopes[i]?.map Scope.region

theorem regionsOf_cons {scopes : List Scope} {i : Nat} {r : Region}
    (h : scopes[i]?.map Scope.region = some r) (numbers : List Nat) :
    regionsOf scopes (i :: numbers) = r :: regionsOf scopes numbers := by
  simp only [regionsOf, List.filterMap_cons, h]

/-- Where a scope and the scopes around it stand. -/
def chain (scopes : List Scope) (i : Nat) : List Region :=
  match scopes[i]? with
  | none => []
  | some s => regionsOf scopes (i :: s.outer)

theorem chain_of_getElem? {scopes : List Scope} {i : Nat} {s : Scope} (hs : scopes[i]? = some s) :
    chain scopes i = regionsOf scopes (i :: s.outer) := by
  simp only [chain, hs]

theorem Scope.region_outline (s : Scope) : s.outline.region = s.region := rfl

namespace Outlines

variable {scopes scopes' : List Scope}

theorem region_eq (h : Outlines scopes scopes') {i : Nat} (hi : i < scopes.length) :
    scopes'[i]?.map Scope.region = scopes[i]?.map Scope.region := by
  obtain ⟨s, hs⟩ : ∃ s, scopes[i]? = some s := ⟨_, List.getElem?_eq_getElem hi⟩
  obtain ⟨s', hs', houtline⟩ := h.outline_eq hs
  rw [hs, hs', Option.map_some, Option.map_some, ← s.region_outline, ← houtline, s'.region_outline]

theorem regionsOf_eq (h : Outlines scopes scopes') {numbers : List Nat}
    (hnumbers : ∀ i ∈ numbers, i < scopes.length) :
    regionsOf scopes' numbers = regionsOf scopes numbers :=
  List.filterMap_congr fun i hi => h.region_eq (hnumbers i hi)

end Outlines

namespace ScopeBuilder

variable {b : ScopeBuilder} {around : List Region}

/-- A builder in a scope, with the scopes `around` open: the scopes around each scope are those of
the scope next around it. -/
structure Within (b : ScopeBuilder) (around : List Region) : Prop where
  chained : b.Chained
  base : b.scopes[0]?.any (·.kind.ownsVars) = true
  linked : ∀ (i : Nat) (s : Scope) (u : Nat) (rest : List Nat), b.scopes[i]? = some s →
    s.outer = u :: rest → ∃ s' : Scope, b.scopes[u]? = some s' ∧ s'.outer = rest
  innermost : ∃ s : Scope, b.scopes[b.current]? = some s ∧ b.openScopes = b.current :: s.outer
  around : regionsOf b.scopes b.openScopes = around

namespace Within

theorem current_lt (h : b.Within around) : b.current < b.scopes.length := by
  obtain ⟨s, hs, -⟩ := h.innermost
  exact (List.getElem?_eq_some_iff.1 hs).1

/-- The innermost scope has the scopes `around` around it. -/
theorem chain_current (h : b.Within around) : chain b.scopes b.current = around := by
  obtain ⟨s, hs, hopen⟩ := h.innermost
  rw [chain_of_getElem? hs, ← hopen, h.around]

/-- The scopes around a scope stay the same while more scopes open. -/
theorem chain_eq (h : b.Within around) {scopes : List Scope}
    (hgrows : Outlines b.scopes scopes) {i : Nat} (hi : i < b.scopes.length) :
    chain scopes i = chain b.scopes i := by
  obtain ⟨s, hs⟩ : ∃ s, b.scopes[i]? = some s := ⟨_, List.getElem?_eq_getElem hi⟩
  obtain ⟨s', hs', -, houter⟩ := hgrows.getElem? hs
  rw [chain_of_getElem? hs, chain_of_getElem? hs', houter]
  refine hgrows.regionsOf_eq ?_
  -- The scopes around scope `i` opened before it, so all of them are there already.
  obtain ⟨hfalling, -⟩ := h.chained.scopes i s hs
  intro j hj
  rcases List.mem_cons.1 hj with rfl | hj
  · exact hi
  · have hlt : i > j := (List.pairwise_cons.1 hfalling).1 j hj
    omega

/-- The outermost scope owns `var` declarations, whatever else opens. -/
theorem base_of_outlines (h : b.Within around) {scopes : List Scope}
    (hgrows : Outlines b.scopes scopes) :
    scopes[0]?.any (·.kind.ownsVars) = true := by
  obtain ⟨s, hs, howns⟩ := Option.any_eq_true _ _ |>.1 h.base
  have hregion := hgrows.region_eq (List.getElem?_eq_some_iff.1 hs).1
  rw [hs] at hregion
  obtain ⟨s', hs', heq⟩ := Option.map_eq_some_iff.1 hregion
  have hkind : s'.kind = s.kind := congrArg Region.kind heq
  rw [hs', Option.any_some, hkind, howns]

theorem of_outlines {b' : ScopeBuilder} (h : b.Within around) (hopen : b'.openScopes = b.openScopes)
    (hscopes : b'.scopes.map Scope.outline = b.scopes.map Scope.outline) : b'.Within around where
  chained := h.chained.of_outlines hopen hscopes
  base := h.base_of_outlines (.of_eq hscopes.symm)
  linked := by
    intro i s u rest hs houter
    obtain ⟨s₁, hs₁, -, houter₁⟩ := (Outlines.of_eq hscopes).getElem? hs
    obtain ⟨s₂, hs₂, hrest⟩ := h.linked i s₁ u rest hs₁ (houter₁.trans houter)
    obtain ⟨s₃, hs₃, -, houter₃⟩ := (Outlines.of_eq hscopes.symm).getElem? hs₂
    exact ⟨s₃, hs₃, houter₃.trans hrest⟩
  innermost := by
    obtain ⟨s, hs, hopen'⟩ := h.innermost
    have hcurrent : b'.current = b.current := by rw [current, hopen, current]
    obtain ⟨s', hs', -, houter⟩ := (Outlines.of_eq hscopes.symm).getElem? hs
    exact ⟨s', hcurrent ▸ hs', by rw [hopen, hcurrent, houter, hopen']⟩
  around := by
    rw [hopen, ← h.around]
    exact (Outlines.of_eq hscopes.symm).regionsOf_eq h.chained.known

theorem enter (h : b.Within around) (kind : ScopeKind) (block : Site) :
    (b.step (.enter kind block)).Within (⟨kind, block⟩ :: around) where
  chained := h.chained.enter kind block
  base := h.base_of_outlines (Outlines.snoc b.scopes _)
  linked := by
    intro i s u rest hs houter
    rcases Nat.lt_or_ge i b.scopes.length with hi | hi
    · rw [step, List.getElem?_append_left hi] at hs
      obtain ⟨s', hs', hrest⟩ := h.linked i s u rest hs houter
      refine ⟨s', ?_, hrest⟩
      rw [step, List.getElem?_append_left (List.getElem?_eq_some_iff.1 hs').1, hs']
    · have hbound := (List.getElem?_eq_some_iff.1 hs).1
      simp only [step, List.length_append, List.length_singleton] at hbound
      obtain rfl : i = b.scopes.length := by omega
      rw [step, List.getElem?_concat_length] at hs
      cases hs
      obtain ⟨s', hs', hopen⟩ := h.innermost
      obtain ⟨rfl, rfl⟩ := List.cons.inj (hopen.symm.trans houter)
      refine ⟨s', ?_, rfl⟩
      rw [step, List.getElem?_append_left h.current_lt, hs']
  innermost := ⟨_, List.getElem?_concat_length, rfl⟩
  around := by
    have hlast : (b.step (.enter kind block)).scopes[b.scopes.length]?.map Scope.region =
        some ⟨kind, block⟩ := by
      rw [step, List.getElem?_concat_length]
      rfl
    show regionsOf _ (b.scopes.length :: b.openScopes) = _
    rw [regionsOf_cons hlast, ← h.around]
    exact congrArg _ ((Outlines.snoc b.scopes _).regionsOf_eq h.chained.known)

theorem openScopes_leave {i : Nat} {outer : List Nat} (h : b.openScopes = i :: outer) :
    (b.step .leave).openScopes = outer := by
  rw [step, h]
  rfl

/-- A builder that comes back from a scope. -/
theorem leave {b' : ScopeBuilder} {around' : List Region} (h : b.Within around)
    (h' : b'.Within around') {i : Nat} (hopen : b'.openScopes = i :: b.openScopes)
    (hgrows : Outlines b.scopes b'.scopes) :
    (b'.step .leave).Within around where
  chained := h.chained.leave h'.chained hopen
  base := h'.base
  linked := h'.linked
  innermost := by
    obtain ⟨s, hs, hopen'⟩ := h.innermost
    obtain ⟨s', hs', -, houter⟩ := hgrows.getElem? hs
    have htail := openScopes_leave hopen
    have hcurrent : (b'.step .leave).current = b.current := by rw [current, htail, current]
    exact ⟨s', by rw [hcurrent]; exact hs', by rw [htail, hcurrent, houter, hopen']⟩
  around := by
    rw [openScopes_leave hopen, ← h.around]
    exact hgrows.regionsOf_eq h.chained.known

/-- A definition belongs to the scope that its place says. -/
theorem region_targetScope (h : b.Within around) (target : Target) :
    b.scopes[b.targetScope target]?.map Scope.region = target.region? around := by
  cases target with
  | here =>
    obtain ⟨s, hs, hopen⟩ := h.innermost
    rw [targetScope, Target.region?, ← h.around, hopen, regionsOf_cons (by rw [hs]; rfl), hs]
    rfl
  | varScope =>
    have hfind : around.find? (·.kind.ownsVars) =
        (b.openScopes.find? fun i => b.scopes[i]?.any (·.kind.ownsVars)).bind
          fun i => b.scopes[i]?.map Scope.region := by
      rw [← h.around, regionsOf, List.find?_filterMap]
      congr 2
      funext i
      cases b.scopes[i]? <;> rfl
    -- The outermost scope is always open, so one that owns the declaration is found.
    obtain ⟨i, hi⟩ : ∃ i, b.openScopes.find?
        (fun i => b.scopes[i]?.any (·.kind.ownsVars)) = some i :=
      Option.isSome_iff_exists.1 (List.find?_isSome.2 ⟨0, h.chained.outermost, h.base⟩)
    rw [targetScope, Target.region?, hfind, hi]
    rfl

end Within

/-! ## What is said where -/

/-- Whether the scopes are in order whenever an event comes. -/
def Steady (b : ScopeBuilder) : List ScopeEvent → Prop
  | [] => True
  | e :: events => (∃ around, b.Within around) ∧ (b.step e).Steady events

theorem Steady.append {first second : List ScopeEvent} (h : b.Steady first)
    (h' : (b.after first).Steady second) : b.Steady (first ++ second) := by
  induction first generalizing b with
  | nil => exact h'
  | cons e first ih => exact ⟨h.1, ih h.2 h'⟩

/-- What some events say, as they stand in some scopes. Closing a scope says nothing. -/
def said (scopes : List Scope) (places : List (Nat × ScopeEvent)) : List Saying :=
  places.filterMap fun (j, e) =>
    match e with
    | .leave => none
    | e => some (chain scopes j, e)

theorem said_append (scopes : List Scope) (places places' : List (Nat × ScopeEvent)) :
    said scopes (places ++ places') = said scopes places ++ said scopes places' :=
  List.filterMap_append

theorem said_congr {scopes scopes' : List Scope} {places : List (Nat × ScopeEvent)}
    (h : ∀ p ∈ places, chain scopes' p.1 = chain scopes p.1) :
    said scopes' places = said scopes places := by
  refine List.filterMap_congr fun p hp => ?_
  obtain ⟨j, e⟩ := p
  have hchain : chain scopes' j = chain scopes j := h _ hp
  cases e <;> simp only [hchain]

/-- What events do to a builder that is in the scopes around them: they come back to the same scopes
and are said where they stand. -/
structure Tells (b : ScopeBuilder) (events : List ScopeEvent) (around : List Region)
    (T : Multiset Saying) : Prop where
  within : (b.after events).Within around
  steady : b.Steady events
  opens : (b.after events).openScopes = b.openScopes
  grows : Outlines b.scopes (b.after events).scopes
  known : ∀ p ∈ b.places events, p.1 < (b.after events).scopes.length
  said : (↑(said (b.after events).scopes (b.places events)) : Multiset Saying) = T

theorem Tells.append {first second : List ScopeEvent} {A B : Multiset Saying}
    (h : b.Tells first around A) (h' : (b.after first).Tells second around B) :
    b.Tells (first ++ second) around (A + B) := by
  refine ⟨?_, h.steady.append h'.steady, ?_, ?_, ?_, ?_⟩
  · rw [after_append]
    exact h'.within
  · rw [after_append, h'.opens, h.opens]
  · rw [after_append]
    exact h.grows.trans h'.grows
  · intro p hp
    rw [after_append]
    rw [places_append] at hp
    rcases List.mem_append.1 hp with hp | hp
    · exact Nat.lt_of_lt_of_le (h.known p hp) h'.grows.length_le
    · exact h'.known p hp
  -- The scopes that open later change nothing of what was said before.
  · have hfirst : ScopeBuilder.said ((b.after first).after second).scopes (b.places first) =
        ScopeBuilder.said (b.after first).scopes (b.places first) :=
      said_congr fun p hp => h.within.chain_eq h'.grows (h.known p hp)
    rw [after_append, places_append, said_append, ← Multiset.coe_add, hfirst, h.said, h'.said]

theorem tells_point (hb : b.Within around) {e : ScopeEvent} (he : e.isBracket = false) :
    b.Tells [e] around {(around, e)} := by
  obtain ⟨hopen, hscopes⟩ := b.step_point he
  have hwithin : (b.step e).Within around := hb.of_outlines hopen hscopes
  have hgrows : Outlines b.scopes (b.step e).scopes := .of_eq hscopes.symm
  refine ⟨hwithin, ⟨⟨_, hb⟩, trivial⟩, hopen, hgrows, ?_, ?_⟩
  · intro p hp
    obtain rfl := List.mem_singleton.1 hp
    exact Nat.lt_of_lt_of_le hb.current_lt hgrows.length_le
  · have hchain : chain (b.step e).scopes b.current = around := by
      rw [hb.chain_eq hgrows hb.current_lt, hb.chain_current]
    have hsaid : ScopeBuilder.said (b.step e).scopes [(b.current, e)] = [(around, e)] := by
      rw [← hchain]
      cases e with
      | leave => cases he
      | _ => rfl
    exact congrArg _ hsaid

theorem Tells.scope {inside : List ScopeEvent} {kind : ScopeKind} {block : Site}
    {A : Multiset Saying} (hb : b.Within around)
    (h : (b.step (.enter kind block)).Tells inside (⟨kind, block⟩ :: around) A) :
    b.Tells (.enter kind block :: inside ++ [ScopeEvent.leave]) around
      ({(around, .enter kind block)} + A) := by
  have hgrows : Outlines b.scopes ((b.step (.enter kind block)).after inside).scopes :=
    (Outlines.snoc _ _).trans h.grows
  have hcurrent : chain ((b.step (.enter kind block)).after inside).scopes b.current = around := by
    rw [hb.chain_eq hgrows hb.current_lt, hb.chain_current]
  refine ⟨?_, ⟨⟨_, hb⟩, h.steady.append ⟨⟨_, h.within⟩, trivial⟩⟩, ?_, ?_, ?_, ?_⟩
  · rw [after_bracket]
    exact hb.leave h.within h.opens hgrows
  · rw [after_bracket]
    show ((b.step (.enter kind block)).after inside).openScopes.tail = b.openScopes
    rw [h.opens]
    rfl
  · rw [scopes_bracket]
    exact hgrows
  · rw [after_bracket, places_bracket]
    intro p hp
    show p.1 < ((b.step (.enter kind block)).after inside).scopes.length
    rcases List.mem_append.1 hp with hp | hp
    · rcases List.mem_cons.1 hp with rfl | hp
      · exact Nat.lt_of_lt_of_le hb.current_lt hgrows.length_le
      · exact h.known p hp
    · obtain rfl := List.mem_singleton.1 hp
      exact h.within.current_lt
  · rw [after_bracket, places_bracket, said_append, ← Multiset.coe_add, ← h.said, ← hcurrent]
    exact add_zero _

/-- Events that say something in the scopes around them say it to a builder that is in these
scopes. -/
theorem tells_of_yields {events : List ScopeEvent} {T : Multiset Saying}
    (h : Yields around events T) (hb : b.Within around) : b.Tells events around T := by
  induction h generalizing b with
  | nil => exact ⟨hb, trivial, rfl, .of_eq rfl, by simp [places], rfl⟩
  | point he => exact tells_point hb he
  | append _ _ ih₁ ih₂ =>
    have hfirst := ih₁ hb
    exact hfirst.append (ih₂ hfirst.within)
  | scope _ ih => exact .scope hb (ih (hb.enter _ _))

end ScopeBuilder

end ApiTrace
