import ApiTrace.Proofs.Scope.LexicalResolution

/-!
# What a graph keeps of undeclared names

A name that no scope declares becomes known to the outermost scope with the first reference to it.
From then on the name is found, so of all references of an undeclared global `ScopeGraph.through`
holds the first one and no other (`ScopeGraph.through_holds_first_references`). It holds all of them
only if no undeclared global is mentioned twice.
-/

namespace ApiTrace

theorem VariableId.eq_of_outermost {x y : VariableId} (hx : x.scope = 0) (hy : y.scope = 0)
    (hname : x.name = y.name) : x = y := by
  cases x
  cases y
  simp_all

namespace ScopeGraph

variable {g : ScopeGraph} {root : Site} {scopes : List Scope} {r : Reference} {x : VariableId}
  {name : Text}

/-! ## Undeclared globals -/

/-- Whether a variable is an undeclared global: one of the outermost scope without a definition. -/
def IsUndeclared (g : ScopeGraph) (x : VariableId) : Prop :=
  x.scope = 0 ∧ ∃ v, g.get? x = some v ∧ v.definitions = []

theorem undeclared?_eq_some_iff :
    g.undeclared? name = some x ↔ g.IsUndeclared x ∧ x.name = name := by
  unfold undeclared?
  constructor
  · intro h
    split at h
    · rename_i v hv
      split at h
      · rename_i hempty
        cases h
        exact ⟨⟨rfl, v, hv, List.isEmpty_iff.1 hempty⟩, rfl⟩
      · cases h
    · cases h
  · rintro ⟨⟨hscope, v, hv, hempty⟩, rfl⟩
    obtain ⟨scope, name⟩ := x
    obtain rfl : scope = 0 := hscope
    simp [hv, hempty]

/-- Whether a reference is one of an undeclared global. -/
def refersUndeclared (g : ScopeGraph) (r : Reference) : Bool :=
  (g.undeclared? r.name).any (· == r.resolved)

theorem refersUndeclared_iff :
    g.refersUndeclared r = true ↔ g.IsUndeclared r.resolved ∧ r.resolved.name = r.name := by
  rw [refersUndeclared, Option.any_eq_true]
  constructor
  · rintro ⟨x, hx, heq⟩
    rw [← eq_of_beq heq]
    exact undeclared?_eq_some_iff.1 hx
  · intro h
    exact ⟨r.resolved, undeclared?_eq_some_iff.2 h, beq_self_eq_true _⟩

/-! ## First references -/

/-- The first reference of each undeclared global whose name has not been seen. -/
def firstReferences (g : ScopeGraph) (seen : List Text) : List Reference → List Reference
  | [] => []
  | r :: rest =>
    if g.refersUndeclared r && !seen.contains r.name then r :: g.firstReferences
      (r.name :: seen) rest
    else g.firstReferences seen rest

theorem through_eq (g : ScopeGraph) : g.through = g.firstReferences [] g.references := by
  -- What has been found so far stands in front.
  suffices h : ∀ (references : List Reference) (seen : List Text) (found : List Reference),
      (references.foldl (fun p r =>
        if g.refersUndeclared r && !p.1.contains r.name then (r.name :: p.1, r :: p.2)
          else (p.1, p.2))
        (seen, found)).2.reverse = found.reverse ++ g.firstReferences seen references from
    h g.references [] []
  intro references
  induction references with
  | nil => simp [firstReferences]
  | cons r rest ih =>
    intro seen found
    by_cases hfirst : (g.refersUndeclared r && !seen.contains r.name) = true
    · simp only [List.foldl_cons, firstReferences, if_pos hfirst]
      rw [ih, List.reverse_cons, List.append_assoc, List.singleton_append]
    · simp only [List.foldl_cons, firstReferences, if_neg hfirst]
      exact ih seen found

theorem firstReferences_sublist (seen : List Text) (references : List Reference) :
    (g.firstReferences seen references).Sublist (references.filter g.refersUndeclared) := by
  induction references generalizing seen with
  | nil => exact .slnil
  | cons r rest ih =>
    rw [firstReferences, List.filter_cons]
    cases g.refersUndeclared r with
    | false => exact ih seen
    | true =>
      cases hseen : seen.contains r.name with
      | false => exact (ih _).cons_cons r
      | true => exact (ih seen).cons r

/-- Under each name there is the first reference of an undeclared global, unless the name has been
seen. -/
theorem filter_firstReferences (seen : List Text) (references : List Reference) :
    (g.firstReferences seen references).filter (·.name == name) =
      if seen.contains name then []
      else ((references.filter g.refersUndeclared).filter (·.name == name)).take 1 := by
  induction references generalizing seen with
  | nil => simp [firstReferences]
  | cons r rest ih =>
    rw [firstReferences, List.filter_cons]
    cases hr : g.refersUndeclared r with
    | false => simpa using ih seen
    | true =>
      by_cases hname : r.name = name
      · subst hname
        cases hseen : seen.contains r.name with
        | true =>
          rw [if_neg (by simp), ih, hseen]
          rfl
        | false => simp [ih]
      · cases hseen : seen.contains r.name with
        | true => simpa [hname] using ih seen
        | false => simp [hname, Ne.symm hname, ih]

theorem through_sublist (g : ScopeGraph) : g.through.Sublist g.references := by
  rw [through_eq]
  exact (firstReferences_sublist [] g.references).trans List.filter_sublist

theorem isUndeclared_of_mem_through (hr : r ∈ g.through) : g.IsUndeclared r.resolved := by
  rw [through_eq] at hr
  have hmem := (firstReferences_sublist [] g.references).subset hr
  exact (refersUndeclared_iff.1 (List.mem_filter.1 hmem).2).1

/-! ## Graphs of programs -/

namespace Built

theorem name_resolved (h : g.Built root scopes) (hr : r ∈ g.references) :
    r.resolved.name = r.name := by
  rw [(h.resolved r hr).2.2.2]

/-- Of an undeclared global the first reference is kept. -/
theorem filter_through (h : g.Built root scopes) (hx : g.IsUndeclared x) :
    g.through.filter (·.resolved == x) = (g.referencesOf x).take 1 := by
  have hsame : ∀ {y : VariableId}, g.IsUndeclared y → ((y == x) = true ↔ y.name = x.name) := by
    intro y hy
    rw [beq_iff_eq]
    exact ⟨congrArg VariableId.name, VariableId.eq_of_outermost hy.1 hx.1⟩
  have hkept : ∀ r ∈ g.through, (r.resolved == x) = (r.name == x.name) := by
    intro r hr
    have hmem := (through_sublist g).subset hr
    rw [Bool.eq_iff_iff, hsame (isUndeclared_of_mem_through hr), h.name_resolved hmem, beq_iff_eq]
  have hall : ∀ r ∈ g.references,
      (r.name == x.name && g.refersUndeclared r) = (r.resolved == x) := by
    intro r hr
    rw [Bool.eq_iff_iff, Bool.and_eq_true, refersUndeclared_iff, h.name_resolved hr, beq_iff_eq]
    constructor
    · rintro ⟨heq, hy, -⟩
      rw [hsame hy, h.name_resolved hr, heq]
    · intro heq
      obtain rfl : r.resolved = x := eq_of_beq heq
      exact ⟨(h.name_resolved hr).symm, hx, rfl⟩
  rw [List.filter_congr hkept, through_eq, filter_firstReferences, List.filter_filter]
  simp only [List.contains_nil, Bool.false_eq_true, if_false, referencesOf]
  rw [List.filter_congr hall]

theorem any_declares_addUndeclared (h : g.Built root scopes)
    (references : List Reference) (j : Nat) :
    (addUndeclared scopes references)[j]?.any (·.declares name) = true ↔
      scopes[j]?.any (·.declares name) = true ∨
        j = 0 ∧ ∃ r ∈ references, r.resolved.scope = 0 ∧ r.name = name := by
  by_cases hj : j = 0
  · subst hj
    obtain ⟨s, hs, -⟩ := Option.map_eq_some_iff.1 h.outermost
    rw [addUndeclared_eq, List.getElem?_modify, hs]
    show (s.addUnresolved references).declares name = true ↔ s.declares name = true ∨ _
    rw [Scope.declares, Scope.declares, Scope.get?_addUnresolved, Option.isSome_or, Bool.or_eq_true]
    apply or_congr_right
    simp
  · rw [getElem?_addUndeclared hj]
    simp [hj]

/-- A name is found once it has been looked for in vain. -/
theorem lookup?_addUndeclared_eq_none_iff (h : g.Built root scopes) (references : List Reference)
    {i : Nat} (hi : i < scopes.length) :
    lookup? (addUndeclared scopes references) i name = none ↔
      lookup? scopes i name = none ∧ ∀ r ∈ references, r.resolved.scope = 0 → r.name ≠ name := by
  obtain ⟨s, hs⟩ : ∃ s, scopes[i]? = some s := ⟨_, List.getElem?_eq_getElem hi⟩
  obtain ⟨s', hs', -, houter⟩ :=
    (Outlines.of_eq (map_outline_addUndeclared scopes references).symm).getElem? hs
  simp only [lookup?, hs, hs', houter, List.find?_eq_none, h.any_declares_addUndeclared references]
  constructor
  · intro hnone
    refine ⟨fun j hj hknown => hnone j hj (.inl hknown), fun r hr hscope hname => ?_⟩
    exact hnone 0 (h.falling i s hs).2 (.inr ⟨rfl, r, hr, hscope, hname⟩)
  · rintro ⟨hnone, hvain⟩ j hj (hknown | ⟨-, r, hr, hscope, hname⟩)
    · exact hnone j hj hknown
    · exact hvain r hr hscope hname

/-- An undeclared global is one because of a reference to it. -/
theorem referencesOf_ne_nil (h : g.Built root scopes) (hx : g.IsUndeclared x) :
    g.referencesOf x ≠ [] := by
  obtain ⟨scope, name⟩ := x
  obtain ⟨rfl, v, hv, hempty⟩ := hx
  rcases h.undefined_cases hv hempty with ⟨-, r, hr, hresolved, -⟩ | ⟨-, R, hR, hkind, -⟩
  · apply List.ne_nil_of_mem (a := r)
    exact List.mem_filter.2 ⟨hr, by simp [hresolved]⟩
  · rw [h.region_eq, h.outermost] at hR
    cases hR
    cases hkind

/-- A reference is one of an undeclared global exactly if no scope knows its name. -/
theorem isUndeclared_resolved_iff (h : g.Built root scopes) (hr : r ∈ g.references) :
    g.IsUndeclared r.resolved ↔ lookup? scopes r.scope r.name = none := by
  obtain ⟨hlt, -, -, hresolved⟩ := h.resolved r hr
  constructor
  · rintro ⟨hscope, v, hv, hempty⟩
    have hid : r.resolved = ⟨0, r.name⟩ := by rw [← hscope, hresolved]
    rw [hid] at hv
    exact h.lookup?_eq_none_of_not_declares hr hscope (h.not_declares_of_undefined hv hempty)
  · intro hnone
    obtain ⟨found, v, hfound, -, hv, -, hempty⟩ := h.resolved_nearest hr
    have hnearest := h.nearest_lookup? r.name hlt
    rw [hnone] at hnearest
    refine ⟨?_, v, hv, hempty (hfound.unique hnearest)⟩
    rw [hresolved, hnone]
    rfl

/-- A reference passes through if its name is not found among the names known by the time it is
read. -/
theorem mem_through_iff (h : g.Built root scopes) (honce : g.references.Nodup)
    {before after : List Reference} (hsplit : g.references = before ++ r :: after) :
    r ∈ g.through ↔ lookup? (addUndeclared scopes before) r.scope r.name = none := by
  have hr : r ∈ g.references := by simp [hsplit]
  have hbefore : ∀ r' ∈ before, r' ∈ g.references := by
    intro r' hr'
    rw [hsplit]
    exact List.mem_append_left _ hr'
  have hfirst : g.IsUndeclared r.resolved →
      (r ∈ g.through ↔ ∀ r' ∈ before, r'.resolved ≠ r.resolved) := by
    intro hx
    have hmem : r ∈ g.through ↔ r ∈ (g.referencesOf r.resolved).take 1 := by
      rw [← h.filter_through hx, List.mem_filter]
      simp
    rw [hmem, referencesOf, hsplit, List.filter_append, List.filter_cons_of_pos (by simp)]
    cases hpassed : before.filter (·.resolved == r.resolved) with
    | nil => simpa [List.filter_eq_nil_iff] using hpassed
    | cons r' rest =>
      have hmem : r' ∈ before.filter (·.resolved == r.resolved) := by simp [hpassed]
      obtain ⟨hr', hresolved⟩ := List.mem_filter.1 hmem
      rw [hsplit, List.nodup_append] at honce
      have hne : r' ≠ r := honce.2.2 r' hr' r List.mem_cons_self
      simp only [List.cons_append, List.take_succ_cons, List.take_zero, List.mem_singleton]
      exact ⟨fun heq => absurd heq.symm hne, fun hall => absurd (eq_of_beq hresolved) (hall r' hr')⟩
  rw [h.lookup?_addUndeclared_eq_none_iff before (h.resolved r hr).1,
    ← h.isUndeclared_resolved_iff hr]
  constructor
  · intro hthrough
    have hx : g.IsUndeclared r.resolved := isUndeclared_of_mem_through hthrough
    refine ⟨hx, fun r' hr' hscope hname => (hfirst hx).1 hthrough r' hr' ?_⟩
    apply VariableId.eq_of_outermost hscope hx.1
    rw [h.name_resolved hr, h.name_resolved (hbefore r' hr'), hname]
  · rintro ⟨hx, hvain⟩
    refine (hfirst hx).2 fun r' hr' heq => hvain r' hr' ?_ ?_
    · rw [heq, hx.1]
    · rw [← h.name_resolved hr, ← h.name_resolved (hbefore r' hr'), heq]

end Built

/-- **Of each undeclared global the first reference passes through, and no other.** A reference
passes through if its name is in no scope around it and has not been mentioned before it in vain. So
all references of undeclared globals pass through only if none of them is mentioned twice. -/
theorem through_holds_first_references {program : Node} {g : ScopeGraph}
    (h : analyze program = .ok g) :
    g.through.Sublist g.references ∧
    (∀ r ∈ g.through, g.IsUndeclared r.resolved) ∧
    (∀ x, g.IsUndeclared x → g.referencesOf x ≠ [] ∧
      g.through.filter (·.resolved == x) = (g.referencesOf x).take 1) ∧
    (∀ before r after, g.references = before ++ r :: after →
      (r ∈ g.through ↔
        lookup? (addUndeclared (ScopeBuilder.run program.scopeEvents).scopes before)
          r.scope r.name =
          none)) ∧
    ((∀ r ∈ g.references, g.IsUndeclared r.resolved → r ∈ g.through) ↔
      ∀ x, g.IsUndeclared x → (g.referencesOf x).length = 1) := by
  have hbuilt := built_of_analyze h
  have honce : g.references.Nodup := .of_map _ (resolves_lexically h).once
  refine ⟨through_sublist g, fun r hr => isUndeclared_of_mem_through hr, fun x hx => ?_,
    fun before r after hsplit => hbuilt.mem_through_iff honce hsplit, ?_, ?_⟩
  · exact ⟨hbuilt.referencesOf_ne_nil hx, hbuilt.filter_through hx⟩
  · intro hall x hx
    have hsubset : g.referencesOf x ⊆ (g.referencesOf x).take 1 := by
      intro r hr
      obtain ⟨hmem, hresolved⟩ := List.mem_filter.1 hr
      obtain rfl : r.resolved = x := eq_of_beq hresolved
      rw [← hbuilt.filter_through hx]
      exact List.mem_filter.2 ⟨hall r hmem hx, hresolved⟩
    -- No reference is listed twice, so there are no more of them than in the front part.
    have hnodup : (g.referencesOf x).Nodup := honce.filter _
    have hlength := (hnodup.subperm hsubset).length_le
    have hpos := List.length_pos_iff.2 (hbuilt.referencesOf_ne_nil hx)
    rw [List.length_take] at hlength
    omega
  · intro hone r hr hx
    have hmem : r ∈ g.referencesOf r.resolved := List.mem_filter.2 ⟨hr, beq_self_eq_true _⟩
    rw [← List.take_of_length_le (hone _ hx).le, ← hbuilt.filter_through hx] at hmem
    exact (List.mem_filter.1 hmem).1

/-- The program `a;a;b`. -/
def repeatingProgram : Node :=
  let read := fun (start : Nat) (text : String) => Node.mk ⟨start, start + 2, 1, start⟩
    (.expressionStatement (some (.mk ⟨start, start + 1, 1, start⟩ (.identifier text))))
  .mk ⟨0, 6, 1, 0⟩ (.program [read 0 "a", read 2 "a", read 4 "b"] "script")

theorem through_holds_first_references_repeating : ∃ g, analyze repeatingProgram = .ok g ∧
    g.IsUndeclared ⟨0, "a"⟩ ∧ g.references.map (·.resolved) = [⟨0, "a"⟩, ⟨0, "a"⟩, ⟨0, "b"⟩] ∧
    g.through.map (·.mention.identifier.node.start) = [0, 4] ∧
    g.through.filter (·.resolved == ⟨0, "a"⟩) = (g.referencesOf ⟨0, "a"⟩).take 1 := by
  obtain ⟨g, hg, ha, hreferences, hthrough⟩ : ∃ g, analyze repeatingProgram = .ok g ∧
      g.IsUndeclared ⟨0, "a"⟩ ∧ g.references.map (·.resolved) = [⟨0, "a"⟩, ⟨0, "a"⟩, ⟨0, "b"⟩] ∧
      g.through.map (·.mention.identifier.node.start) = [0, 4] :=
    ⟨_, rfl, ⟨rfl, _, rfl, rfl⟩, rfl, rfl⟩
  exact ⟨g, hg, ha, hreferences, hthrough, ((through_holds_first_references hg).2.2.1 _ ha).2⟩

end ScopeGraph

end ApiTrace
