import Mathlib.Data.List.Sort
import ApiTrace.Proofs.Constant.Joining
import ApiTrace.Proofs.Flow.Sharing
import ApiTrace.Proofs.TraceMap.Below

/-!
# A map that says more finds more

If a trace map is below another one, tracing with the other one finds all that tracing with it
finds, in the same order and with the same reports, unless it ends in a fault
(`Tracer.strategyMatches_below`). A richer map opens more ways for a value, also through variables.
But a variable is closed to a value only while the value itself is in it, and then it came there in
the same way with both maps: every flow with the poorer map is a flow with the richer one, with the
same address (`Tracer.Occurs.simulate`). So the matches of the one are among those of the other, and
both are in the order of their addresses.

The same holds of a tracer that joins texts and so knows the keys of more properties
(`Tracer.Occurs.mono`). The lemmas are about both at once: a tracer with a map, and another one,
which joins texts if the first does, with a map that says as much (`Tracer.strategyMatches_within`).
-/

namespace ApiTrace

variable {ι κ ε α : Type}

/-! ## Searches that find more -/

/-- A search whose outcomes are among those of another gives a part of its list. -/
theorem DepthFirst.sublist {R S : List Nat → α → Prop} {l m : List (List Nat × α)}
    (h : DepthFirst R l) (h' : DepthFirst S m) (hRS : ∀ a o, R a o → S a o) : l.Sublist m := by
  have antisymm : Std.Antisymm fun p q : List Nat × α => p.1 < q.1 :=
    ⟨fun p q hpq hqp => absurd hqp (List.lt_asymm hpq)⟩
  have hnodup : l.Nodup := by
    apply h.sorted.imp
    rintro p q hpq rfl
    exact List.lt_irrefl p.1 hpq
  have hsubset : l ⊆ m := by
    rintro ⟨a, o⟩ hmem
    exact (h'.mem_iff a o).2 (hRS a o ((h.mem_iff a o).1 hmem))
  exact List.sublist_of_subperm_of_pairwise (List.subperm_of_subset hnodup hsubset)
    h.sorted h'.sorted

namespace Emission

/-- Whether a search that ends without a fault finds all that another search finds, which then ends
without a fault too. -/
def Within (e e' : Emission ε) : Prop := e'.fault = none → e.fault = none ∧ e.found.Sublist e'.found

theorem ofOutcomes_map_ok (found : List Match) :
    ofOutcomes (found.map (.ok : Match → Except ε Match)) = ⟨found, none⟩ := by
  induction found with
  | nil => rfl
  | cons first rest ih =>
    show .one first ++ ofOutcomes (rest.map .ok) = _
    rw [ih]
    rfl

theorem Lists.within {R S : List Nat → Except ε Match → Prop} {e e' : Emission ε} (h : Lists R e)
    (h' : Lists S e') (hRS : ∀ a o, R a o → S a o) : e.Within e' := by
  obtain ⟨l, hl, rfl⟩ := h
  obtain ⟨m, hm, rfl⟩ := h'
  intro hnone
  have hsublist := (hl.sublist hm hRS).map Prod.snd
  rw [eq_map_ok_of_fault_eq_none hnone] at hsublist
  obtain ⟨found, hfound, heq⟩ := List.sublist_map_iff.1 hsublist
  rw [heq, ofOutcomes_map_ok]
  exact ⟨rfl, hfound⟩

namespace Within

variable {e e' e₁ e₁' : Emission ε}

theorem refl (e : Emission ε) : e.Within e := fun h => ⟨h, .refl _⟩

theorem empty (e : Emission ε) : Emission.empty.Within e := fun _ => ⟨rfl, List.nil_sublist _⟩

theorem append (h : e.Within e') (h₁ : e₁.Within e₁') : (e ++ e₁).Within (e' ++ e₁') := by
  intro hnone
  obtain ⟨hnone', hnone₁'⟩ := fault_append_eq_none_iff.1 hnone
  obtain ⟨hfault, hfound⟩ := h hnone'
  obtain ⟨hfault₁, hfound₁⟩ := h₁ hnone₁'
  refine ⟨fault_append_eq_none_iff.2 ⟨hfault, hfault₁⟩, ?_⟩
  rw [found_append hfault, found_append hnone']
  exact hfound.append hfound₁

theorem concatMap {f g : α → Emission ε} {l m : List α} (hlm : l.Sublist m)
    (h : ∀ a ∈ m, (f a).Within (g a)) : (Emission.concatMap f l).Within (.concatMap g m) := by
  induction hlm with
  | slnil => exact refl _
  | @cons l m a _ ih =>
    obtain ⟨ha, hm⟩ := List.forall_mem_cons.1 h
    -- What is searched for with `a` comes on top of the rest.
    rw [← empty_append (Emission.concatMap f l)]
    exact append (empty (g a)) (ih hm)
  | @cons_cons l m a _ ih =>
    obtain ⟨ha, hm⟩ := List.forall_mem_cons.1 h
    exact append ha (ih hm)

theorem withValue {value value' : Except ε (Option α)} (hvalue : UpTo value value')
    {f g : α → Emission ε} (h : ∀ a, (f a).Within (g a)) :
    (Emission.withValue value f).Within (.withValue value' g) := by
  rcases hvalue with rfl | rfl
  · exact empty _
  · unfold Emission.withValue
    split
    · exact refl _
    · exact refl _
    · exact h _

theorem filterMap (h : e.Within e') (f : Match → Option Match) :
    (e.filterMap f).Within (e'.filterMap f) := by
  intro hnone
  obtain ⟨hfault, hfound⟩ := h hnone
  exact ⟨hfault, hfound.filterMap f⟩

end Within

end Emission

open Emission (Within)

/-! ## Values of the two maps -/

/-- Whether two values have the same path and the map of the second says all that the map of the
first says. -/
def Traced.Below (v : Traced ι) (w : Traced κ) : Prop := v.path = w.path ∧ v.map.Below w.map

namespace Traced.Below

variable {v v' : Traced ι} {w : Traced κ}

theorem child? (h : v.Below w) {key : Text} (hv : v.child? key = some v') :
    ∃ w', w.child? key = some w' ∧ v'.Below w' := by
  obtain ⟨c, hc, rfl⟩ := Option.map_eq_some_iff.1 hv
  obtain ⟨d, hd, hcd⟩ := h.2.child? hc
  refine ⟨⟨w.path ++ [key], d⟩, Option.map_eq_some_iff.2 ⟨d, hd, rfl⟩, ?_, hcd⟩
  rw [h.1]

theorem isSimulation : IsSimulation (Below : Traced ι → Traced κ → Prop) where
  path h := h.1
  payload h hentry := h.2.payload? hentry
  child h hv := h.child? hv

end Traced.Below

namespace Tracer

variable {t t' : Tracer} {v : Traced ι} {w : Traced κ}

/-! ## Tracers of which one joins texts -/

/-- Whether two tracers look at the same program and the second joins texts if the first does. -/
structure Below (t t' : Tracer) : Prop where
  graph : t'.graph = t.graph
  joins : t.joins = true → t'.joins = true

theorem Below.refl (t : Tracer) : t.Below t := ⟨rfl, id⟩

theorem Below.key? (ht : t.Below t') (n : Node) : UpTo (n.key? t.joins) (n.key? t'.joins) :=
  UpTo.of_joins (n.key? ·) n.key?_upTo ht.joins

theorem Below.firstArgument? (ht : t.Below t') (arguments : List Node) :
    UpTo (t.firstArgument? arguments) (t'.firstArgument? arguments) :=
  UpTo.of_joins (optionConstantText? · arguments.head?) (optionConstantText?_upTo _) ht.joins

section Below

variable {s s' : FlowState ι} {a : List Nat} {n : Nat} {o : Except ConstantFault Match}

/-- A tracer that joins texts knows all keys that the other one knows, and nothing else of a step
depends on that. -/
theorem Step.mono (h : t.Step s n s') (ht : t.Below t') : t'.Step s n s' := by
  have hgraph := ht.graph.symm
  cases h with
  | announce hr => exact .announce (hgraph ▸ hr)
  | mention hr => exact .mention (hgraph ▸ hr)
  | pass hp hb => exact .pass hp hb
  | readMember hp hr hf hk hw => exact .readMember hp hr hf ((ht.key? _).eq_some hk) hw
  | member hp hr hf hk hw => exact .member hp hr hf ((ht.key? _).eq_some hk) hw
  | call hp hr hf => exact .call hp hr hf
  | construct hp hr hf => exact .construct hp hr hf
  | assign hp hr hf => exact .assign hp hr hf
  | assigned hp hr hf => exact .assigned hp hr hf
  | default hp hr hf => exact .default hp hr hf
  | declare hp hr hf => exact .declare hp hr hf
  | bind hf hx => exact .bind hf (hgraph ▸ hx)
  | readProperty hf hn hk hw => exact .readProperty hf hn ((ht.key? _).eq_some hk) hw
  | property hf hn hk hw hv => exact .property hf hn ((ht.key? _).eq_some hk) hw hv
  | left hf => exact .left hf

theorem Faults.mono {fault : ConstantFault} (h : t.Faults s n fault) (ht : t.Below t') :
    t'.Faults s n fault := by
  cases h with
  | memberKey hp hr hf hk => exact .memberKey hp hr hf ((ht.key? _).eq_error hk)
  | user hp hf hn => exact .user hp hf hn
  | receiver hf hn => exact .receiver hf hn
  | propertyKey hf hn hk => exact .propertyKey hf hn ((ht.key? _).eq_error hk)
  | propertyValue hf hn hk hw hv => exact .propertyValue hf hn ((ht.key? _).eq_some hk) hw hv

theorem Flow.mono (h : t.Flow s a s') (ht : t.Below t') : t'.Flow s a s' := by
  induction h with
  | here s => exact .here s
  | step first _ ih => exact .step (first.mono ht) ih

/-- What comes of a value comes of it at the same address if texts are joined. -/
theorem Occurs.mono (h : t.Occurs s a o) (ht : t.Below t') : t'.Occurs s a o := by
  obtain ⟨b, c, s', rfl, hflow, hnodup, hend⟩ := h
  refine ⟨b, c, s', rfl, hflow.mono ht, hnodup, ?_⟩
  cases hend with
  | found hentry => exact .found hentry
  | fault hfault => exact .fault (hfault.mono ht)

end Below

/-! ## Tracing -/

/-- From the same place a value whose map says more comes to all that the other comes to. -/
theorem follow_within (ht : t.Below t') {s : FlowState ι} (hs : t.Knows s.place)
    (hvia : s.via.Nodup) (h : s.value.Below w) :
    (t.follow s).Within (t'.follow (s.withValue w)) := by
  have hs' : t'.Knows s.place := by
    unfold Knows at hs ⊢
    rw [ht.graph]
    exact hs
  apply (follow_lists hs hvia).within (follow_lists (s := s.withValue w) hs' hvia)
  intro a o ho
  exact (ho.simulate Traced.Below.isSimulation h).mono ht

theorem report_below (h : v.Below w) (use : Use) (site : Site) :
    (v.report use site [] : Emission ConstantFault).Within (w.report use site []) := by
  unfold Traced.report
  cases hv : v.map.payload? use with
  | none => exact .empty _
  | some entry =>
    rw [h.2.payload? hv, h.1]
    exact .refl _

theorem enter_within (ht : t.Below t') (h : v.Below w) {x : VariableId}
    (hx : x ∈ t.graph.variableIds) (announced : Bool) :
    (t.enter [] announced x v).Within (t'.enter [] announced x w) :=
  follow_within ht (s := ⟨.variable x announced, v, []⟩) hx .nil h

theorem climb_within (ht : t.Below t') (h : v.Below w) (s : Site) :
    (t.climb [] (t.enter [] false) s.above v).Within (t'.climb [] (t'.enter [] false) s.above w) :=
  follow_within ht (s := ⟨.expression s, v, []⟩) trivial .nil h

/-- What is made of a property is within what is made of it with the other map. -/
theorem withChild_below (h : v.Below w) (key : Text) {f : Traced ι → Emission ConstantFault}
    {g : Traced κ → Emission ConstantFault}
    (hfg : ∀ {v' w'}, v.child? key = some v' → w.child? key = some w' → v'.Below w' →
      (f v').Within (g w')) :
    (match v.child? key with | none => (.empty : Emission ConstantFault) | some v' => f v').Within
      (match w.child? key with | none => .empty | some w' => g w') := by
  cases hv : v.child? key with
  | none => exact .empty _
  | some v' =>
    obtain ⟨w', hw, hvw⟩ := h.child? hv
    rw [hw]
    exact hfg hv hw hvw

/-! ## Declarations -/

theorem importBinding_within (ht : t.Below t') (h : v.Below w) (binding : Node) :
    (t.importBinding binding v).Within (t'.importBinding binding w) := by
  unfold importBinding
  rw [ht.graph]
  split
  · exact .refl _
  · split
    · rename_i x hx
      exact enter_within ht h (ScopeGraph.findVariable?_mem hx) false
    · exact .refl _

theorem specifierMatches_within (ht : t.Below t') (h : v.Below w) (specifier : Site) :
    (t.specifierMatches specifier v).Within (t'.specifierMatches specifier w) := by
  have named : ∀ (key : Text) (binding : Node),
      (match v.child? key with
        | none => (.empty : Emission ConstantFault)
        | some v' => v'.report .read specifier [] ++ t.importBinding binding v').Within
      (match w.child? key with
        | none => .empty
        | some w' => w'.report .read specifier [] ++ t'.importBinding binding w') := by
    intro key binding
    apply withChild_below h key
    intro v' w' _ _ h'
    exact (report_below h' .read specifier).append (importBinding_within ht h' binding)
  unfold specifierMatches
  dsimp only
  split
  · apply Within.withValue (.refl _)
    intro key
    exact named key _
  · exact named _ _
  · exact importBinding_within ht h _
  · apply Within.withValue (.refl _)
    intro key
    apply withChild_below h key
    intro v' w' _ _ h'
    exact report_below h' .read specifier
  · exact .refl _

theorem specifiersMatches_within (ht : t.Below t') (h : v.Below w) (declaration : Site) :
    (t.specifiersMatches declaration v).Within (t'.specifiersMatches declaration w) := by
  apply Within.concatMap (.refl _)
  intro p _
  exact specifierMatches_within ht h _

/-- The names that a module exports as a whole. -/
theorem exportAll_below (h : v.Below w) (declaration : Site) :
    (Emission.concatMap
        (fun (key, child) => Traced.report ⟨v.path ++ [key], child⟩ .read declaration [])
        v.map.children : Emission ConstantFault).Within
      (.concatMap (fun (key, child) => Traced.report ⟨w.path ++ [key], child⟩ .read declaration [])
        w.map.children) := by
  rw [TraceMap.children, TraceMap.children, Emission.concatMap_filterMap,
    Emission.concatMap_filterMap]
  apply Within.concatMap h.2.keys
  intro key _
  cases hc : v.map.child? key with
  | none => exact .empty _
  | some c =>
    obtain ⟨d, hd, hcd⟩ := h.2.child? hc
    rw [hd]
    exact report_below ⟨by rw [h.1], hcd⟩ .read declaration

theorem declarationMatches_within (ht : t.Below t') (h : v.Below w) {mode : Mode}
    (declaration : Site) (hdefault : mode = .legacy → w.map.isEsm = false →
      v.map.KeepsDefault w.map) :
    (t.declarationMatches mode declaration v).Within
      (t'.declarationMatches mode declaration w) := by
  unfold declarationMatches
  apply (report_below h .read declaration).append
  split
  · exact exportAll_below h declaration
  · rw [h.2.isEsm]
    split
    · exact specifiersMatches_within ht h declaration
    · rename_i hesm
      apply Within.filterMap
      apply specifiersMatches_within ht
      refine ⟨h.1, h.2.asDefaultExport ?_⟩
      intro hlegacy
      exact hdefault (of_decide_eq_true hlegacy) (Bool.eq_false_iff.2 hesm)

/-! ## Strategies -/

variable {m : TraceMap ι} {n : TraceMap κ}

theorem globalMatches_within (ht : t.Below t') (h : m.Below n) (names : List Text) :
    (t.globalMatches names m).Within (t'.globalMatches names n) := by
  have hroots : Traced.Below ⟨[], m⟩ ⟨[], n⟩ := ⟨rfl, h⟩
  apply Within.append
  · rw [concatMap_globalRoots, concatMap_globalRoots, ht.graph]
    apply Within.concatMap h.keys
    intro name _
    cases hv : Traced.child? ⟨[], m⟩ name with
    | none => exact .empty _
    | some v =>
      obtain ⟨w, hw, hvw⟩ := hroots.child? hv
      rw [hw]
      show Within ((t.graph.undeclared? name).elim _ _) ((t.graph.undeclared? name).elim _ _)
      cases hx : t.graph.undeclared? name with
      | none => exact .refl _
      | some x => exact enter_within ht hvw (ScopeGraph.undeclared?_mem hx) true
  · rw [globalObjectRoots, globalObjectRoots, ht.graph]
    apply Within.concatMap (.refl _)
    rintro ⟨name, x⟩ hroot
    obtain ⟨_, -, hx⟩ := List.mem_filterMap.1 hroot
    obtain ⟨_, hx, heq⟩ := Option.map_eq_some_iff.1 hx
    cases heq
    exact enter_within ht hroots (ScopeGraph.undeclared?_mem hx) false

theorem requireMatches_within (ht : t.Below t') (h : m.Below n) (r : Reference) :
    (t.requireMatches m r).Within (t'.requireMatches n r) := by
  have hroots : Traced.Below ⟨[], m⟩ ⟨[], n⟩ := ⟨rfl, h⟩
  unfold requireMatches
  split
  · exact .refl _
  · rename_i frame above _
    split
    · exact .refl _
    · split
      · split
        · apply Within.withValue (ht.firstArgument? _)
          intro key
          apply withChild_below hroots key
          intro v w _ _ hvw
          exact (report_below hvw .read ⟨frame.parent, above⟩).append
            (climb_within ht hvw ⟨frame.parent, above⟩)
        · exact .refl _
      · exact .refl _

theorem cjsMatches_within (ht : t.Below t') (h : m.Below n) :
    (t.cjsMatches m).Within (t'.cjsMatches n) := by
  unfold cjsMatches
  rw [ht.graph]
  split
  · exact .refl _
  · apply Within.concatMap (.refl _)
    intro r _
    exact requireMatches_within ht h r

theorem esmMatches_within (ht : t.Below t') (h : m.Below n) {mode : Mode}
    (hdefault : mode = .legacy → m.MembersKeepDefault n) :
    (t.esmMatches mode m).Within (t'.esmMatches mode n) := by
  have hroots : Traced.Below ⟨[], m⟩ ⟨[], n⟩ := ⟨rfl, h⟩
  unfold esmMatches statements
  rw [ht.graph]
  apply Within.concatMap (.refl _)
  intro declaration _
  rw [withValue_moduleRoot?, withValue_moduleRoot?]
  apply Within.withValue (.refl _)
  intro name
  apply withChild_below hroots name
  intro v w hv hw hvw
  apply declarationMatches_within ht hvw declaration
  intro hlegacy hesm
  obtain ⟨c, hc, rfl⟩ := Option.map_eq_some_iff.1 hv
  obtain ⟨d, hd, rfl⟩ := Option.map_eq_some_iff.1 hw
  exact hdefault hlegacy name c d hc hd hesm

theorem strategyMatches_within (ht : t.Below t') (h : m.Below n) {mode : Mode} (names : List Text)
    {strategy : Strategy} (hdefault : strategy = .esm → mode = .legacy → m.MembersKeepDefault n) :
    (t.strategyMatches mode names m strategy).Within
      (t'.strategyMatches mode names n strategy) := by
  cases strategy with
  | globals => exact globalMatches_within ht h names
  | cjs => exact cjsMatches_within ht h
  | esm => exact esmMatches_within ht h (hdefault rfl)

/-- With a map that says more a strategy finds all that it finds with the other. -/
theorem strategyMatches_below (h : m.Below n) {mode : Mode} (names : List Text)
    {strategy : Strategy} (hdefault : strategy = .esm → mode = .legacy → m.MembersKeepDefault n) :
    (t.strategyMatches mode names m strategy).Within (t.strategyMatches mode names n strategy) :=
  strategyMatches_within (.refl t) h names hdefault

end Tracer

/-! ## Requests -/

namespace TraceRequest

open Tracer

variable {r : TraceRequest} {m : TraceMap ι} {n : TraceMap κ}

theorem runStrategy_within {t t' : Tracer} {mode : Mode} {names : List Text} {strategy : Strategy}
    (hwithin : (t.strategyMatches mode names m strategy).Within
      (t'.strategyMatches mode names n strategy))
    {run : List Match × List LogLine} (hrun : r.runStrategy t' mode names n strategy = .ok run) :
    ∃ run', r.runStrategy t mode names m strategy = .ok run' ∧ run'.1.Sublist run.1 := by
  unfold runStrategy Emission.rest at hrun ⊢
  cases hfault : (t'.strategyMatches mode names n strategy).fault with
  | some fault =>
    rw [hfault] at hrun
    cases hrun
  | none =>
    obtain ⟨hfault', hfound⟩ := hwithin hfault
    rw [hfault] at hrun
    cases hrun
    rw [hfault']
    exact ⟨_, rfl, hfound⟩

theorem sublist_flatMap {runs runs' : List (List Match × List LogLine)}
    (h : List.Forall₂ (fun run run' => run'.1.Sublist run.1) runs runs') :
    (runs'.flatMap (·.1)).Sublist (runs.flatMap (·.1)) := by
  induction h with
  | nil => exact .slnil
  | cons hrun _ ih => exact hrun.append ih

/-- With a map that says more a request finds all that it finds with the other. -/
theorem trace_below (h : m.Below n) {settings : Settings} {outcome : TraceOutcome}
    (hdefault : (∃ s ∈ r.strategies, Strategy.ofJson s = .ok .esm) →
      (r.chooseMode settings).value = .ok .legacy → m.MembersKeepDefault n)
    (htrace : r.trace (.ok n) settings = .ok outcome) :
    ∃ outcome', r.trace (.ok m) settings = .ok outcome' ∧
      outcome'.result.found.Sublist outcome.result.found := by
  simp only [trace, bind_eq_ok, pure_eq_ok, mapError_eq_ok] at htrace ⊢
  obtain ⟨selected, hselected, _, hn, analyzed, hanalyzed, mode, hmode, runs, hruns, rfl⟩ := htrace
  cases hn
  have hesm : Strategy.esm ∈ selected → ∃ s ∈ r.strategies, Strategy.ofJson s = .ok .esm := by
    intro hmem
    obtain ⟨s, hs, hof⟩ := exists_of_mem_mapM hselected hmem
    exact ⟨s, hs, mapError_eq_ok.1 hof⟩
  have hall : ∀ strategy ∈ Strategy.all.filter (· ∈ selected), strategy = .esm → mode = .legacy →
      m.MembersKeepDefault n := by
    rintro strategy hmem rfl rfl
    exact hdefault (hesm (of_decide_eq_true (List.mem_filter.1 hmem).2)) hmode
  obtain ⟨runs', hruns', hfound⟩ := exists_mapM_of_forall hruns fun strategy hmem run hrun =>
    runStrategy_within (strategyMatches_below h _ (hall strategy hmem)) hrun
  exact ⟨_, ⟨selected, hselected, m, rfl, analyzed, hanalyzed, mode, hmode, runs', hruns', rfl⟩,
    sublist_flatMap hfound⟩

/-- **A map that says more finds more.** If one map is below another and a strategy, or a whole
request, ends without a fault with the other, it does so with the one, and the matches are found
among those of the other, in the same order. In the legacy mode the modules of the other map must
not have got a property `default`. -/
theorem richer_map_finds_more {m : TraceMap ι} {n : TraceMap κ} (h : m.Below n) :
    (∀ (t : Tracer) (mode : Mode) (names : List Text) (strategy : Strategy),
      (strategy = .esm → mode = .legacy → m.MembersKeepDefault n) →
        (t.strategyMatches mode names n strategy).fault = none →
          (t.strategyMatches mode names m strategy).fault = none ∧
            (t.strategyMatches mode names m strategy).found.Sublist
              (t.strategyMatches mode names n strategy).found) ∧
      ∀ (r : TraceRequest) (settings : Settings) (outcome : TraceOutcome),
        ((∃ s ∈ r.strategies, Strategy.ofJson s = .ok .esm) →
          (r.chooseMode settings).value = .ok .legacy → m.MembersKeepDefault n) →
        r.trace (.ok n) settings = .ok outcome →
          ∃ outcome', r.trace (.ok m) settings = .ok outcome' ∧
            outcome'.result.found.Sublist outcome.result.found := by
  constructor
  · intro t mode names strategy hdefault hfault
    exact strategyMatches_below h names hdefault hfault
  · intro r settings outcome hdefault htrace
    exact trace_below h hdefault htrace

/-- The map `functionMap` without the global `x`. -/
def moduleMap : TraceMap (Fin 3) where
  node
    | 0 => .ofChildren (functionMap.rootNode.children.filter (·.1 ≠ "x"))
    | i => functionMap.node i
  root := functionMap.root

theorem richer_map_finds_more_module :
    moduleMap.Below functionMap ∧ moduleMap.MembersKeepDefault functionMap ∧
      ((moduleTracer.strategyMatches .legacy [] functionMap .esm).fault = none ∧
        (moduleTracer.strategyMatches .legacy [] moduleMap .esm).fault = none ∧
        (moduleTracer.strategyMatches .legacy [] moduleMap .esm).found.Sublist
          (moduleTracer.strategyMatches .legacy [] functionMap .esm).found) ∧
      ∃ outcome outcome', moduleRequest.trace (.ok functionMap) plainSettings = .ok outcome ∧
        moduleRequest.trace (.ok moduleMap) plainSettings = .ok outcome' ∧
        outcome.result.found.length = 2 ∧
        outcome'.result.found.Sublist outcome.result.found := by
  have hbelow : moduleMap.Below functionMap := by
    refine ⟨Eq, ⟨?_, ?_, ?_⟩, rfl⟩
    · rintro i _ rfl use entry hentry
      match i with
      | 0 | 1 | 2 => exact hentry
    · rintro i _ rfl
      match i with
      | 0 | 1 | 2 => rfl
    · rintro i _ rfl
      have grows : ∀ l extra : List (Text × Fin 3), Among Eq l (l ++ extra) := by
        intro l extra
        refine ⟨(List.sublist_append_left l extra).map _, ?_⟩
        intro name c hc
        exact ⟨c, by rw [List.lookup_append, hc]; rfl, rfl⟩
      match i with
      | 0 => exact grows [("m", 1)] [("x", 1)]
      | 1 | 2 => exact grows _ []
  have hdefault : moduleMap.MembersKeepDefault functionMap := by
    intro name c d hc hd _ _
    obtain ⟨i, hi, rfl⟩ := Option.map_eq_some_iff.1 hd
    simp only [TraceMap.rootNode, functionMap, MapNode.ofChildren, List.lookup_cons] at hi
    split at hi
    · cases hi
      rfl
    · split at hi
      · cases hi
        rfl
      · cases hi
  have hrun : (moduleRequest.trace (.ok functionMap) plainSettings).toOption.any
      (·.result.found.length == 2) = true := by
    decide +kernel
  obtain ⟨hstrategies, hrequests⟩ := richer_map_finds_more hbelow
  have hfault : (moduleTracer.strategyMatches .legacy [] functionMap .esm).fault = none := by
    decide +kernel
  refine ⟨hbelow, hdefault,
    ⟨hfault, hstrategies moduleTracer .legacy [] .esm (fun _ _ => hdefault) hfault⟩, ?_⟩
  cases htrace : moduleRequest.trace (.ok functionMap) plainSettings with
  | error fault =>
    rw [htrace] at hrun
    cases hrun
  | ok outcome =>
    rw [htrace] at hrun
    obtain ⟨outcome', htrace', hfound⟩ :=
      hrequests moduleRequest plainSettings outcome (fun _ _ => hdefault) htrace
    exact ⟨outcome, outcome', rfl, htrace', beq_iff_eq.1 hrun, hfound⟩

end TraceRequest

end ApiTrace
