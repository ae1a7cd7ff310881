import ApiTrace.Proofs.Flow.Consistency
import ApiTrace.Proofs.Flow.Simulation
import ApiTrace.Proofs.Outcome
import ApiTrace.Trace.Result

/-!
# The members of a trace map are traced independently

Tracing with a whole trace map gives, of the matches below one of its members, exactly those that
tracing with this member alone gives, and in the same order (`Tracer.strategyMatches_only`). The two
runs differ in the value of the global object, which has more properties in the one than in the
other. A flow that comes to one of the other properties never leaves it (`Traced.Leads.head?`), so
all other flows are flows of both runs (`Tracer.follow_restricts`), and what begins at another
member gives no match below this one.
-/

namespace ApiTrace

variable {ι κ ε α : Type}

/-- Whether the path of a match begins with a name. -/
def Match.begins (key : Text) (found : Match) : Bool := found.path.head? = some key

/-! ## Comparing two searches -/

namespace Emission

/-- Whether a search without a fault leaves another one without a fault and with the same matches
below a member. -/
def SameBelow (key : Text) (e e' : Emission ε) : Prop :=
  e.fault = none → e'.fault = none ∧ e'.found.filter (·.begins key) = e.found.filter (·.begins key)

namespace SameBelow

variable {key : Text} {e e' e₁ e₁' : Emission ε}

theorem refl (e : Emission ε) : SameBelow key e e := fun h => ⟨h, rfl⟩

theorem append (h : SameBelow key e e') (h₁ : SameBelow key e₁ e₁') :
    SameBelow key (e ++ e₁) (e' ++ e₁') := by
  intro hnone
  obtain ⟨hfault, hfault₁⟩ := fault_append_eq_none_iff.1 hnone
  obtain ⟨hfault', hfound⟩ := h hfault
  obtain ⟨hfault₁', hfound₁⟩ := h₁ hfault₁
  refine ⟨fault_append_eq_none_iff.2 ⟨hfault', hfault₁'⟩, ?_⟩
  rw [found_append hfault, found_append hfault', List.filter_append, List.filter_append, hfound,
    hfound₁]

theorem concatMap {f g : α → Emission ε} {l : List α} (h : ∀ a ∈ l, SameBelow key (f a) (g a)) :
    SameBelow key (.concatMap f l) (.concatMap g l) := by
  induction l with
  | nil => exact refl _
  | cons a rest ih =>
    apply append (h a List.mem_cons_self)
    exact ih fun b hb => h b (List.mem_cons_of_mem a hb)

theorem withValue {value : Except ε (Option α)} {f g : α → Emission ε}
    (h : ∀ a, SameBelow key (f a) (g a)) :
    SameBelow key (.withValue value f) (.withValue value g) := by
  unfold Emission.withValue
  split
  · exact refl _
  · exact refl _
  · exact h _

/-- Matches below another member can be left out. -/
theorem of_other {name : Text} (hne : name ≠ key)
    (h : ∀ found ∈ e.found, found.path.head? = some name) : SameBelow key e .empty := by
  intro _
  refine ⟨rfl, ?_⟩
  have hnone : e.found.filter (·.begins key) = [] := by
    apply List.filter_eq_nil_iff.2
    intro found hfound
    rw [Match.begins, h found hfound]
    simpa using hne
  rw [hnone]
  rfl

end SameBelow

end Emission

open Emission (SameBelow)

/-! ## Values of the two maps -/

theorem Traced.Leads.head? {u v : Traced ι} (h : u.Leads v) (hu : u.path ≠ []) :
    v.path.head? = u.path.head? := by
  obtain ⟨path, hpath, -⟩ := h
  rw [hpath, List.head?_append_of_ne_nil _ hu]

/-- The whole map beside its one member, or values below that member that are alike. -/
def Traced.Restricts (m : TraceMap ι) (key : Text) (v : Traced ι) (w : Traced (Option ι)) : Prop :=
  (v = ⟨[], m⟩ ∧ w = ⟨[], m.only key⟩) ∨ (v.path.head? = some key ∧ v.Alike w)

variable {m : TraceMap ι} {key : Text}

namespace Traced

/-- The property of a whole map beside that of its one member: they are alike, or the whole map
alone has it. -/
theorem child?_only_cases (m : TraceMap ι) (key name : Text) :
    (Traced.child? ⟨[], m⟩ name = none ∧ Traced.child? ⟨[], m.only key⟩ name = none) ∨
      (∃ v w, Traced.child? ⟨[], m⟩ name = some v ∧ Traced.child? ⟨[], m.only key⟩ name = some w ∧
        v.Alike w ∧ name = key) ∨
      ∃ v, Traced.child? ⟨[], m⟩ name = some v ∧ Traced.child? ⟨[], m.only key⟩ name = none ∧
        name ≠ key := by
  unfold Traced.child?
  rw [TraceMap.child?_only]
  cases h : m.child? name with
  | none =>
    refine .inl ⟨rfl, ?_⟩
    split
    · rename_i hname
      rw [← hname, h]
      rfl
    · rfl
  | some c =>
    obtain ⟨i, -, rfl⟩ := Option.map_eq_some_iff.1 h
    by_cases hname : name = key
    · rw [if_pos hname, ← hname, h]
      exact .inr (.inl ⟨_, _, rfl, rfl, ⟨rfl, m.bisimilar_only name i⟩, rfl⟩)
    · rw [if_neg hname]
      exact .inr (.inr ⟨_, rfl, rfl, hname⟩)

namespace Restricts

variable {v v' : Traced ι} {w w' : Traced (Option ι)} {name : Text}

theorem alike (h : v.Restricts m key w) (hv : v.path.head? = some key) : v.Alike w := by
  rcases h with ⟨rfl, -⟩ | ⟨-, h⟩
  · cases hv
  · exact h

/-- A property of the one is a property of the other, if it is below the member. -/
theorem child? (h : v.Restricts m key w) (hv : v.child? name = some v')
    (hv' : v'.path.head? = some key) : ∃ w', w.child? name = some w' ∧ v'.Restricts m key w' := by
  rcases h with ⟨rfl, rfl⟩ | ⟨-, h⟩
  · obtain ⟨c, -, rfl⟩ := Tracer.child?_nil hv
    have hname : name = key := Option.some.inj hv'
    rcases child?_only_cases m key name with ⟨hnone, -⟩ | ⟨v, w, hv₁, hw, hvw, -⟩ | ⟨_, -, -, hne⟩
    · rw [hnone] at hv
      cases hv
    · rw [hv₁] at hv
      cases hv
      exact ⟨w, hw, .inr ⟨hv', hvw⟩⟩
    · exact absurd hname hne
  · obtain ⟨w', hw', hvw⟩ := Alike.isSimulation.child h hv
    exact ⟨w', hw', .inr ⟨hv', hvw⟩⟩

/-- The whole map has all that its one member has. -/
theorem isSimulation (m : TraceMap ι) (key : Text) :
    IsSimulation fun (w : Traced (Option ι)) (v : Traced ι) => v.Restricts m key w where
  path := by
    rintro w v (⟨rfl, rfl⟩ | ⟨-, h⟩)
    · rfl
    · exact h.1.symm
  payload := by
    rintro w v use entry (⟨rfl, rfl⟩ | ⟨-, h⟩) hentry
    · rw [← hentry]
      cases use <;> rfl
    · exact Alike.isSimulation.payload h.symm hentry
  child := by
    rintro w v name w' (⟨rfl, rfl⟩ | ⟨hhead, h⟩) hw
    · rcases child?_only_cases m key name with ⟨-, hnone⟩ | ⟨v, w, hv, hw₁, hvw, rfl⟩ |
        ⟨_, -, hnone, -⟩
      · rw [hnone] at hw
        cases hw
      · rw [hw₁] at hw
        cases hw
        obtain ⟨c, -, rfl⟩ := Tracer.child?_nil hv
        exact ⟨_, hv, .inr ⟨rfl, hvw⟩⟩
      · rw [hnone] at hw
        cases hw
    · obtain ⟨v', hv', hvw⟩ := Alike.isSimulation.child h.symm hw
      have hne : v.path ≠ [] := by
        intro hnil
        rw [hnil] at hhead
        cases hhead
      exact ⟨v', hv', .inr ⟨((Leads.of_child? hv').head? hne).trans hhead, hvw.symm⟩⟩

end Restricts

end Traced

/-! ## Flows of the two runs -/

namespace Tracer

variable {t : Tracer} {s s' : FlowState ι} {a : List Nat} {w : Traced (Option ι)} {found : Match}

/-- A flow that ends below the member is a flow of both runs. -/
theorem Flow.restrict (h : t.Flow s a s') (hw : s.value.Restricts m key w)
    (hs' : s'.value.path.head? = some key) :
    ∃ w', s'.value.Restricts m key w' ∧ t.Flow (s.withValue w) a (s'.withValue w') := by
  induction h generalizing w with
  | here s => exact ⟨w, hw, .here _⟩
  | @step s s₁ s' n a first rest ih =>
    have hchild : ∀ name, s.value.child? name = some s₁.value →
        ∃ w', w.child? name = some w' ∧ s₁.value.Restricts m key w' := by
      intro name hname
      apply hw.child? hname
      -- The property has a name in its path, and the flow stays below it.
      obtain ⟨c, -, hc⟩ := Option.map_eq_some_iff.1 hname
      have hne : s₁.value.path ≠ [] := by
        rw [← hc]
        exact List.append_ne_nil_of_right_ne_nil _ (List.cons_ne_nil _ _)
      rw [← rest.leads.head? hne]
      exact hs'
    obtain ⟨w₁, hw₁, hfirst⟩ := first.transfer hw hchild
    obtain ⟨w', hw', hrest⟩ := ih hw₁ hs'
    exact ⟨w', hw', .step hfirst hrest⟩

theorem Occurs.restrict (h : t.Occurs s a (.ok found)) (hw : s.value.Restricts m key w)
    (hfound : found.begins key = true) : t.Occurs (s.withValue w) a (.ok found) := by
  obtain ⟨b, c, s', rfl, hflow, hnodup, hend⟩ := h
  have hs' : s'.value.path.head? = some key := by
    cases hend with
    | found hentry => simpa [Match.begins] using hfound
  obtain ⟨w', hw', hflow'⟩ := hflow.restrict hw hs'
  exact ⟨b, c, _, rfl, hflow', hnodup, hend.simulate Traced.Alike.isSimulation (hw'.alike hs')⟩

/-- From the same state both runs give the same matches below the member. -/
theorem follow_restricts (hs : t.Knows s.place) (hvia : s.via.Nodup)
    (hw : s.value.Restricts m key w) :
    SameBelow key (t.follow s) (t.follow (s.withValue w)) := by
  have back : ∀ a o, t.Occurs (s.withValue w) a o → t.Occurs s a o := by
    intro a o h
    have hback : t.Occurs ((s.withValue w).withValue s.value) a o :=
      h.simulate (Traced.Restricts.isSimulation m key) hw
    exact hback
  refine (follow_lists hs hvia).filter_found_eq (follow_lists (s := s.withValue w) hs hvia) _
    (fun a fault h => back a _ h) fun a found hfound => ?_
  exact ⟨back a _, fun h => h.restrict hw hfound⟩

/-- All that comes of a value is below the first name of its path. -/
theorem Finds.head? (h : t.Finds s found) (hs : s.value.path ≠ []) :
    found.path.head? = s.value.path.head? := by
  obtain ⟨a, b, c, s', -, hflow, -, hend⟩ := h
  cases hend with
  | found hentry => exact hflow.leads.head? hs

theorem Finds.head?_of_leads (h : t.Finds s found) {v : Traced ι} (hv : v.Leads s.value)
    (hne : v.path ≠ []) : found.path.head? = v.path.head? := by
  have hs : s.value.path ≠ [] := by
    obtain ⟨path, hpath, -⟩ := hv
    rw [hpath]
    exact List.append_ne_nil_of_left_ne_nil hne _
  rw [h.head? hs, hv.head? hne]

/-! ## Strategies -/

theorem head?_of_exceptDefault {old : Match} (h : exceptDefault old = some found) :
    found.path.head? = old.path.head? := by
  simp only [exceptDefault] at h
  split at h
  · cases h
  · cases h
    cases hpath : old.path with
    | nil => rfl
    | cons id path =>
      rw [withoutDefault_cons]
      rfl

/-- The matches of undeclared globals, by the names of the members. -/
theorem concatMap_globalRoots (t : Tracer) (n : TraceMap κ) :
    .concatMap (fun (name, x, child) => t.enter [] true x ⟨[name], child⟩) (t.globalRoots n) =
      Emission.concatMap (fun name => (Traced.child? ⟨[], n⟩ name).elim .empty fun v =>
        (t.graph.undeclared? name).elim .empty fun x => t.enter [] true x v) n.keys := by
  rw [globalRoots, TraceMap.children, Emission.concatMap_filterMap, Emission.concatMap_filterMap]
  congr 1
  funext name
  unfold Traced.child?
  cases n.child? name with
  | none => rfl
  | some child => cases hx : t.graph.undeclared? name <;> simp [hx]

theorem globalMatches_only (names : List Text) :
    SameBelow key (t.globalMatches names m) (t.globalMatches names (m.only key)) := by
  apply SameBelow.append
  · rw [concatMap_globalRoots, concatMap_globalRoots, TraceMap.keys_only, Emission.concatMap_filter]
    apply SameBelow.concatMap
    intro name _
    rcases Traced.child?_only_cases m key name with ⟨hv, hw⟩ | ⟨v, w, hv, hw, hvw, rfl⟩ |
      ⟨v, hv, hw, hne⟩
    · rw [hv, hw]
      simpa using .refl _
    · rw [hv, hw, if_pos (by simp)]
      cases hx : t.graph.undeclared? name with
      | none => exact .refl _
      | some x =>
        show SameBelow name (t.enter [] true x v) (t.enter [] true x w)
        rw [enter_alike hvw (ScopeGraph.undeclared?_mem hx)]
        exact .refl _
    · rw [hv, if_neg (by simpa using hne)]
      obtain ⟨c, -, rfl⟩ := child?_nil hv
      cases hx : t.graph.undeclared? name with
      | none => exact .refl _
      | some x =>
        apply SameBelow.of_other hne
        intro found hfound
        exact (finds_of_mem_enter (ScopeGraph.undeclared?_mem hx) hfound).head?
          (List.cons_ne_nil _ _)
  · apply SameBelow.concatMap
    rintro ⟨name, x⟩ hroot
    obtain ⟨_, -, hx⟩ := List.mem_filterMap.1 hroot
    obtain ⟨_, hx, heq⟩ := Option.map_eq_some_iff.1 hx
    cases heq
    exact follow_restricts (s := ⟨.variable x false, ⟨[], m⟩, []⟩)
      (ScopeGraph.undeclared?_mem hx) .nil
      (.inl ⟨rfl, rfl⟩)

theorem requireMatches_only (r : Reference) :
    SameBelow key (t.requireMatches m r) (t.requireMatches (m.only key) r) := by
  unfold requireMatches
  split
  · exact .refl _
  · rename_i frame above _
    split
    · exact .refl _
    · split
      · split
        · apply SameBelow.withValue
          intro name
          rcases Traced.child?_only_cases m key name with
            ⟨hv, hw⟩ | ⟨v, w, hv, hw, hvw, -⟩ | ⟨v, hv, hw, hne⟩
          · rw [hv, hw]
            exact .refl _
          · rw [hv, hw]
            dsimp only
            rw [report_alike hvw, climb_alike hvw ⟨frame.parent, above⟩]
            exact .refl _
          · rw [hv, hw]
            obtain ⟨c, -, rfl⟩ := child?_nil hv
            apply SameBelow.of_other hne
            intro found hfound
            rcases Emission.mem_found_append hfound with hfound | hfound
            · exact (finds_of_mem_report (t := t) hfound).head? (List.cons_ne_nil _ _)
            · exact (finds_of_mem_climb (s := ⟨frame.parent, above⟩) hfound).head?
                (List.cons_ne_nil _ _)
        · exact .refl _
      · exact .refl _

theorem cjsMatches_only : SameBelow key (t.cjsMatches m) (t.cjsMatches (m.only key)) := by
  unfold cjsMatches
  split
  · exact .refl _
  · apply SameBelow.concatMap
    intro r _
    exact requireMatches_only r

/-- All matches of a declaration are below the name of its module. -/
theorem head?_of_mem_declarationMatches {mode : Mode} {declaration : Site} {v : Traced ι}
    (hv : v.path ≠ []) (h : found ∈ (t.declarationMatches mode declaration v).found) :
    found.path.head? = v.path.head? := by
  obtain ⟨κ, s, edit, old, hs, hfinds, hedit⟩ := start_of_mem_declarationMatches h
  cases hs with
  | read =>
    cases hedit
    exact hfinds.head? hv
  | exportAll _ hw =>
    cases hedit
    exact hfinds.head?_of_leads (.of_child? hw) hv
  | esm _ hs =>
    cases hedit
    exact hfinds.head?_of_leads hs.leads hv
  | wrapped _ _ hs =>
    rw [head?_of_exceptDefault hedit]
    exact hfinds.head?_of_leads hs.leads hv

theorem esmMatches_only (mode : Mode) :
    SameBelow key (t.esmMatches mode m) (t.esmMatches mode (m.only key)) := by
  apply SameBelow.concatMap
  intro declaration _
  unfold moduleRoot?
  split
  · exact .refl _
  · rename_i source _
    cases moduleId? source with
    | error fault => exact .refl _
    | ok id =>
      cases id with
      | none => exact .refl _
      | some name =>
        show SameBelow key (.withValue (.ok (Traced.child? ⟨[], m⟩ name)) _)
          (.withValue (.ok (Traced.child? ⟨[], m.only key⟩ name)) _)
        rcases Traced.child?_only_cases m key name with
          ⟨hv, hw⟩ | ⟨v, w, hv, hw, hvw, -⟩ | ⟨v, hv, hw, hne⟩
        · rw [hv, hw]
          exact .refl _
        · rw [hv, hw]
          show SameBelow key (t.declarationMatches mode declaration v) _
          rw [← declarationMatches_alike hvw]
          exact .refl _
        · rw [hv, hw]
          obtain ⟨c, -, rfl⟩ := child?_nil hv
          apply SameBelow.of_other hne
          intro found hfound
          exact head?_of_mem_declarationMatches (List.cons_ne_nil _ _) hfound

/-- With one member of the map alone, a strategy gives the same matches below that member. -/
theorem strategyMatches_only (mode : Mode) (names : List Text) (strategy : Strategy) :
    SameBelow key (t.strategyMatches mode names m strategy)
      (t.strategyMatches mode names (m.only key) strategy) := by
  cases strategy with
  | globals => exact globalMatches_only names
  | cjs => exact cjsMatches_only
  | esm => exact esmMatches_only mode

end Tracer

/-! ## Whole requests -/

namespace TraceRequest

open Tracer

variable {r : TraceRequest} {t : Tracer} {mode : Mode} {names : List Text}

theorem runStrategy_only (key : Text) {strategy : Strategy} {run : List Match × List LogLine}
    (h : r.runStrategy t mode names m strategy = .ok run) :
    ∃ run', r.runStrategy t mode names (m.only key) strategy = .ok run' ∧
      run'.1.filter (·.begins key) = run.1.filter (·.begins key) := by
  have hsame : (t.strategyMatches mode names m strategy).SameBelow key
      (t.strategyMatches mode names (m.only key) strategy) :=
        strategyMatches_only mode names strategy
  unfold runStrategy Emission.rest at h ⊢
  cases hfault : (t.strategyMatches mode names m strategy).fault with
  | some fault =>
    rw [hfault] at h
    cases h
  | none =>
    obtain ⟨hfault', hfound⟩ := hsame hfault
    rw [hfault] at h
    cases h
    rw [hfault']
    exact ⟨_, rfl, hfound⟩

theorem mapM_runStrategy_only (key : Text) {strategies : List Strategy}
    {runs : List (List Match × List LogLine)}
    (h : strategies.mapM (r.runStrategy t mode names m) = .ok runs) :
    ∃ runs', strategies.mapM (r.runStrategy t mode names (m.only key)) = .ok runs' ∧
      (runs'.flatMap (·.1)).filter (·.begins key) = (runs.flatMap (·.1)).filter (·.begins key) := by
  induction strategies generalizing runs with
  | nil =>
    cases h
    exact ⟨[], rfl, rfl⟩
  | cons strategy rest ih =>
    simp only [List.mapM_cons, bind_eq_ok, pure_eq_ok] at h ⊢
    obtain ⟨run, hrun, runs, hruns, rfl⟩ := h
    obtain ⟨run', hrun', hfound⟩ := runStrategy_only key hrun
    obtain ⟨runs', hruns', hrest⟩ := ih hruns
    refine ⟨run' :: runs', ⟨run', hrun', runs', hruns', rfl⟩, ?_⟩
    rw [List.flatMap_cons, List.flatMap_cons, List.filter_append, List.filter_append, hfound, hrest]

theorem trace_only {settings : Settings} {outcome : TraceOutcome}
    (h : r.trace (.ok m) settings = .ok outcome) :
    ∃ outcome', r.trace (.ok (m.only key)) settings = .ok outcome' ∧
      outcome'.result.found.filter (·.begins key) = outcome.result.found.filter (·.begins key) := by
  simp only [trace, bind_eq_ok, pure_eq_ok, mapError_eq_ok] at h ⊢
  obtain ⟨selected, hselected, n, hn, analyzed, hanalyzed, mode, hmode, runs, hruns, rfl⟩ := h
  cases hn
  obtain ⟨runs', hruns', hfound⟩ := mapM_runStrategy_only key hruns
  exact ⟨_, ⟨selected, hselected, _, rfl, analyzed, hanalyzed, mode, hmode, runs', hruns', rfl⟩,
    hfound⟩

/-- **The members of a trace map are traced independently.** If a strategy, or a whole request, ends
without a fault, it does so with any member of the map alone, and the matches below this member are
the same, in the same order. -/
theorem members_independent (m : TraceMap ι) (key : Text) :
    (∀ (t : Tracer) (mode : Mode) (names : List Text) (strategy : Strategy),
      (t.strategyMatches mode names m strategy).fault = none →
        (t.strategyMatches mode names (m.only key) strategy).fault = none ∧
          (t.strategyMatches mode names (m.only key) strategy).found.filter (·.begins key) =
            (t.strategyMatches mode names m strategy).found.filter (·.begins key)) ∧
      ∀ (r : TraceRequest) (settings : Settings) (outcome : TraceOutcome),
        r.trace (.ok m) settings = .ok outcome →
          ∃ outcome', r.trace (.ok (m.only key)) settings = .ok outcome' ∧
            outcome'.result.found.filter (·.begins key) =
              outcome.result.found.filter (·.begins key) := by
  constructor
  · intro t mode names strategy hfault
    exact strategyMatches_only mode names strategy hfault
  · intro r settings outcome h
    exact trace_only h

/-- A request for the modules of `require("m").a();require("x").a()`. -/
def moduleRequest : TraceRequest :=
  let node := fun kind field start stop children =>
    Concrete.mk ⟨kind, true, ⟨start, stop, 1, start⟩, field⟩ children
  let statement := fun start =>
    node "expression_statement" none start (start + 17) [
      node "call_expression" none start (start + 16) [
        node "member_expression" (some "function") start (start + 14) [
          node "call_expression" (some "object") start (start + 12) [
            node "identifier" (some "function") start (start + 7) [],
            node "arguments" (some "arguments") (start + 7) (start + 12) [
              node "string" none (start + 8) (start + 11) [
                node "string_fragment" none (start + 9) (start + 10) []]]],
          node "property_identifier" (some "property") (start + 13) (start + 14) []],
        node "arguments" (some "arguments") (start + 14) (start + 16) []]]
  { source := "require(\"m\").a();require(\"x\").a();"
    tree := ⟨node "program" none 0 34 [statement 0, statement 17], false⟩
    strategies := [.string "cjs"] }

/-- Settings that nothing has been said about. -/
def plainSettings : Settings := { environment := {} }

theorem members_independent_modules :
    ((moduleTracer.strategyMatches .strict [] functionMap .cjs).fault = none ∧
      (moduleTracer.strategyMatches .strict [] (functionMap.only "m") .cjs).fault = none ∧
      (moduleTracer.strategyMatches .strict [] (functionMap.only "m") .cjs).found.filter
        (·.begins "m") =
        (moduleTracer.strategyMatches .strict [] functionMap .cjs).found.filter (·.begins "m")) ∧
    ∃ outcome outcome', moduleRequest.trace (.ok functionMap) plainSettings = .ok outcome ∧
      moduleRequest.trace (.ok (functionMap.only "m")) plainSettings = .ok outcome' ∧
      outcome.result.found.length = 2 ∧ (outcome.result.found.filter (·.begins "m")).length = 1 ∧
      outcome'.result.found.filter (·.begins "m") = outcome.result.found.filter (·.begins "m") := by
  obtain ⟨hstrategies, hrequests⟩ := members_independent functionMap "m"
  have hfault : (moduleTracer.strategyMatches .strict [] functionMap .cjs).fault = none := rfl
  refine ⟨⟨hfault, hstrategies moduleTracer .strict [] .cjs hfault⟩, ?_⟩
  have hrun : (moduleRequest.trace (.ok functionMap) plainSettings).toOption.any (fun outcome =>
      outcome.result.found.length == 2 &&
        (outcome.result.found.filter (·.begins "m")).length == 1) = true := by
    decide +kernel
  cases htrace : moduleRequest.trace (.ok functionMap) plainSettings with
  | error fault =>
    rw [htrace] at hrun
    cases hrun
  | ok outcome =>
    rw [htrace] at hrun
    obtain ⟨hall, hone⟩ := Bool.and_eq_true_iff.1 hrun
    obtain ⟨outcome', htrace', hfound⟩ := hrequests moduleRequest plainSettings outcome htrace
    exact ⟨outcome, outcome', rfl, htrace', beq_iff_eq.1 hall, beq_iff_eq.1 hone, hfound⟩

end TraceRequest

end ApiTrace
