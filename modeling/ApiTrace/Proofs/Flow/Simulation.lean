import ApiTrace.Proofs.Flow.Start
import ApiTrace.Proofs.TraceMap.Bisimulation

/-!
# Tracing with two maps

What a value does depends on its trace map only through the properties that are looked up and the
entries that are reported. A step keeps the value or leads to one of its properties, so it can be
made with any other value that has that property too (`Tracer.Step.transfer`). If all that one value
has another has as well (`Traced.IsSimulation`), all that comes of the one comes of the other
(`Tracer.Occurs.simulate`).

Values of the same path whose maps cannot be told apart (`Traced.Alike`) simulate each other, and
tracing gives exactly the same for them: from a state (`Tracer.follow_alike`) and from a declaration
of their module (`Tracer.declarationMatches_alike`).
-/

namespace ApiTrace

variable {ι κ : Type}

/-! ## Values -/

/-- A relation under which the second value has all that the first has, under whatever path. -/
structure Traced.Covers (P : Traced ι → Traced κ → Prop) : Prop where
  payload : ∀ {v w use entry}, P v w → v.map.payload? use = some entry →
    w.map.payload? use = some entry
  child : ∀ {v w key v'}, P v w → v.child? key = some v' → ∃ w', w.child? key = some w' ∧ P v' w'

/-- A relation under which the second value has all that the first has, under the same path. -/
structure Traced.IsSimulation (P : Traced ι → Traced κ → Prop) : Prop extends Traced.Covers P where
  path : ∀ {v w}, P v w → v.path = w.path

/-- Whether two values have the same path and maps that cannot be told apart. -/
def Traced.Alike (v : Traced ι) (w : Traced κ) : Prop := v.path = w.path ∧ v.map.Bisimilar w.map

namespace Traced.Alike

variable {v : Traced ι} {w : Traced κ}

theorem symm (h : v.Alike w) : w.Alike v := ⟨h.1.symm, h.2.symm⟩

theorem child? (h : v.Alike w) (key : Text) : (v.child? key = none ∧ w.child? key = none) ∨
    ∃ v' w', v.child? key = some v' ∧ w.child? key = some w' ∧ v'.Alike w' := by
  rcases h.2.child? key with ⟨hv, hw⟩ | ⟨c, d, hv, hw, hcd⟩
  · exact .inl ⟨Option.map_eq_none_iff.2 hv, Option.map_eq_none_iff.2 hw⟩
  · refine .inr ⟨⟨v.path ++ [key], c⟩, ⟨w.path ++ [key], d⟩, ?_, ?_, ?_, hcd⟩
    · exact Option.map_eq_some_iff.2 ⟨c, hv, rfl⟩
    · exact Option.map_eq_some_iff.2 ⟨d, hw, rfl⟩
    · rw [h.1]

theorem isSimulation : IsSimulation (Alike : Traced ι → Traced κ → Prop) where
  path h := h.1
  payload h hentry := by rwa [← h.2.payload?]
  child := by
    intro v w key v' h hv
    rcases h.child? key with ⟨hnone, -⟩ | ⟨c, d, hc, hd, hcd⟩
    · rw [hnone] at hv
      cases hv
    · rw [hc] at hv
      cases hv
      exact ⟨d, hd, hcd⟩

end Traced.Alike

/-- The state with another value. -/
def FlowState.withValue (s : FlowState ι) (w : Traced κ) : FlowState κ := ⟨s.place, w, s.via⟩

namespace Tracer

variable {t : Tracer} {P : Traced ι → Traced κ → Prop} {s s' : FlowState ι} {a : List Nat} {n : Nat}
  {w : Traced κ} {o : Except ConstantFault Match}

/-! ## Steps and flows -/

/-- A step can be made with another value, if it has the property to which the step leads. -/
theorem Step.transfer (h : t.Step s n s') (hw : P s.value w)
    (hchild : ∀ key, s.value.child? key = some s'.value →
      ∃ w', w.child? key = some w' ∧ P s'.value w') :
    ∃ w', P s'.value w' ∧ t.Step (s.withValue w) n (s'.withValue w') := by
  cases h with
  | announce hr => exact ⟨w, hw, .announce hr⟩
  | mention hr => exact ⟨w, hw, .mention hr⟩
  | pass hp hb => exact ⟨w, hw, .pass hp hb⟩
  | readMember hp hr hf hk hv =>
    obtain ⟨w', hw', hP⟩ := hchild _ hv
    exact ⟨w', hP, .readMember hp hr hf hk hw'⟩
  | member hp hr hf hk hv =>
    obtain ⟨w', hw', hP⟩ := hchild _ hv
    exact ⟨w', hP, .member hp hr hf hk hw'⟩
  | call hp hr hf => exact ⟨w, hw, .call hp hr hf⟩
  | construct hp hr hf => exact ⟨w, hw, .construct hp hr hf⟩
  | assign hp hr hf => exact ⟨w, hw, .assign hp hr hf⟩
  | assigned hp hr hf => exact ⟨w, hw, .assigned hp hr hf⟩
  | default hp hr hf => exact ⟨w, hw, .default hp hr hf⟩
  | declare hp hr hf => exact ⟨w, hw, .declare hp hr hf⟩
  | bind hf hx => exact ⟨w, hw, .bind hf hx⟩
  | readProperty hf hn hk hv =>
    obtain ⟨w', hw', hP⟩ := hchild _ hv
    exact ⟨w', hP, .readProperty hf hn hk hw'⟩
  | property hf hn hk hv hvalue =>
    obtain ⟨w', hw', hP⟩ := hchild _ hv
    exact ⟨w', hP, .property hf hn hk hw' hvalue⟩
  | left hf => exact ⟨w, hw, .left hf⟩

section Covers

variable (hP : Traced.Covers P)
include hP

theorem Faults.cover {fault : ConstantFault} (h : t.Faults s n fault) (hw : P s.value w) :
    t.Faults (s.withValue w) n fault := by
  cases h with
  | memberKey hp hr hf hk => exact .memberKey hp hr hf hk
  | user hp hf hn => exact .user hp hf hn
  | receiver hf hn => exact .receiver hf hn
  | propertyKey hf hn hk => exact .propertyKey hf hn hk
  | propertyValue hf hn hk hv hvalue =>
    obtain ⟨w', hw', -⟩ := hP.child hw hv
    exact .propertyValue hf hn hk hw' hvalue

/-- What a state comes to it comes to with another value, whose path is then the path of the
match. -/
theorem Ends.cover (h : t.Ends s a o) (hw : P s.value w) :
    t.Ends (s.withValue w) a (o.map fun found => { found with path := w.path }) := by
  cases h with
  | found hentry => exact .found (hP.payload hw hentry)
  | fault h => exact .fault (h.cover hP hw)

theorem Flow.cover (h : t.Flow s a s') (hw : P s.value w) :
    ∃ w', P s'.value w' ∧ t.Flow (s.withValue w) a (s'.withValue w') := by
  induction h generalizing w with
  | here s => exact ⟨w, hw, .here _⟩
  | step first _ ih =>
    obtain ⟨w₁, hw₁, hfirst⟩ := first.transfer hw fun key hchild => hP.child hw hchild
    obtain ⟨w', hw', hrest⟩ := ih hw₁
    exact ⟨w', hw', .step hfirst hrest⟩

end Covers

section Simulation

variable (hP : Traced.IsSimulation P)
include hP

theorem Ends.simulate (h : t.Ends s a o) (hw : P s.value w) : t.Ends (s.withValue w) a o := by
  have hcover := h.cover hP.toCovers hw
  cases h with
  | @found use site v via entry hentry =>
    have hpath : v.path = w.path := hP.path hw
    rw [hpath]
    exact hcover
  | fault => exact hcover

/-- What comes of a value comes of another value that has all that it has. -/
theorem Occurs.simulate (h : t.Occurs s a o) (hw : P s.value w) : t.Occurs (s.withValue w) a o := by
  obtain ⟨b, c, s', rfl, hflow, hnodup, hend⟩ := h
  obtain ⟨w', hw', hflow'⟩ := hflow.cover hP.toCovers hw
  exact ⟨b, c, s'.withValue w', rfl, hflow', hnodup, hend.simulate hP hw'⟩

end Simulation

/-! ## Tracing -/

/-- Tracing gives the same for values that cannot be told apart. -/
theorem follow_alike (hs : t.Knows s.place) (hvia : s.via.Nodup) (h : s.value.Alike w) :
    t.follow (s.withValue w) = t.follow s := by
  have hlists : Emission.Lists (t.Occurs s) (t.follow (s.withValue w)) := by
    apply (follow_lists (s := s.withValue w) hs hvia).congr
    intro a o
    constructor
    · intro ho
      have hback : t.Occurs ((s.withValue w).withValue s.value) a o :=
        ho.simulate Traced.Alike.isSimulation h.symm
      exact hback
    · intro ho
      exact ho.simulate Traced.Alike.isSimulation h
  exact hlists.unique (follow_lists hs hvia)

variable {v : Traced ι}

theorem report_alike (h : v.Alike w) (use : Use) (site : Site) :
    (w.report use site [] : Emission ConstantFault) = v.report use site [] := by
  unfold Traced.report
  rw [h.1, h.2.payload?]

theorem enter_alike (h : v.Alike w) {x : VariableId} (hx : x ∈ t.graph.variableIds)
    (announced : Bool) : t.enter [] announced x w = t.enter [] announced x v :=
  follow_alike (s := ⟨.variable x announced, v, []⟩) hx .nil h

theorem climb_alike (h : v.Alike w) (s : Site) :
    t.climb [] (t.enter [] false) s.above w = t.climb [] (t.enter [] false) s.above v :=
  follow_alike (s := ⟨.expression s, v, []⟩) trivial .nil h

/-! ## Declarations -/

theorem importBinding_alike (h : v.Alike w) (binding : Node) :
    t.importBinding binding w = t.importBinding binding v := by
  unfold importBinding
  split
  · rfl
  · split
    · rename_i x hx
      exact enter_alike h (ScopeGraph.findVariable?_mem hx) false
    · rfl

/-- What is made of a property is the same if it is the same for properties that are alike. -/
theorem withChild_alike (h : v.Alike w) (key : Text) {f : Traced ι → Emission ConstantFault}
    {g : Traced κ → Emission ConstantFault} (hfg : ∀ {v' w'}, v'.Alike w' → g w' = f v') :
    (match w.child? key with | none => (.empty : Emission ConstantFault) | some w' => g w') =
      match v.child? key with | none => .empty | some v' => f v' := by
  rcases h.child? key with ⟨hv, hw⟩ | ⟨v', w', hv, hw, h'⟩
  · rw [hv, hw]
  · rw [hv, hw]
    exact hfg h'

theorem specifierMatches_alike (h : v.Alike w) (specifier : Site) :
    t.specifierMatches specifier w = t.specifierMatches specifier v := by
  have named : ∀ (key : Text) (binding : Node),
      (match w.child? key with
        | none => (.empty : Emission ConstantFault)
        | some w' => w'.report .read specifier [] ++ t.importBinding binding w') =
      match v.child? key with
        | none => .empty
        | some v' => v'.report .read specifier [] ++ t.importBinding binding v' := by
    intro key binding
    apply withChild_alike h key
    intro v' w' h'
    rw [report_alike h', importBinding_alike h']
  unfold specifierMatches
  dsimp only
  split
  · congr 1
    funext key
    exact named key _
  · exact named _ _
  · exact importBinding_alike h _
  · congr 1
    funext key
    exact withChild_alike h key fun h' => report_alike h' .read specifier
  · rfl

theorem specifiersMatches_alike (h : v.Alike w) (declaration : Site) :
    t.specifiersMatches declaration w = t.specifiersMatches declaration v := by
  unfold specifiersMatches
  congr 1
  funext p
  exact specifierMatches_alike h _

theorem declarationMatches_alike (h : v.Alike w) (mode : Mode) (declaration : Site) :
    t.declarationMatches mode declaration w = t.declarationMatches mode declaration v := by
  have hwrapped : Traced.Alike ⟨v.path, v.map.asDefaultExport (mode = .legacy)⟩
      ⟨w.path, w.map.asDefaultExport (mode = .legacy)⟩ := ⟨h.1, h.2.asDefaultExport _⟩
  unfold declarationMatches
  rw [report_alike h]
  congr 1
  split
  · -- Both maps have the same names, and alike children under each of them.
    rw [TraceMap.children, TraceMap.children, Emission.concatMap_filterMap,
      Emission.concatMap_filterMap, h.2.keys]
    congr 1
    funext key
    rcases h.2.child? key with ⟨hv, hw⟩ | ⟨c, d, hv, hw, hcd⟩
    · rw [hv, hw]
      rfl
    · rw [hv, hw]
      exact report_alike ⟨by rw [h.1], hcd⟩ .read declaration
  · rw [h.2.isEsm, specifiersMatches_alike h, specifiersMatches_alike hwrapped]

end Tracer

end ApiTrace
