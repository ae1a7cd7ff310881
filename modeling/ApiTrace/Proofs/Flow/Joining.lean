import ApiTrace.Proofs.Flow.Monotonicity

/-!
# Joining texts only adds

A tracer that joins texts knows the keys of more properties and the names of more modules, and it
knows those that it knows without joining as well. It follows a value on more ways, through more
variables, and none of these ways closes another: what is found without joining is found with it, in
the same order (`Tracer.joining_only_adds`).
-/

namespace ApiTrace

variable {ι : Type}

theorem Tracer.Below.joins_true (graph : ScopeGraph) (joins : Bool) :
    Tracer.Below ⟨graph, joins⟩ ⟨graph, true⟩ :=
  ⟨rfl, fun _ => rfl⟩

/-- A strategy finds with joining all that it finds without. -/
theorem Tracer.strategyMatches_joins (graph : ScopeGraph) (mode : Mode) (names : List Text)
    (m : TraceMap ι) (strategy : Strategy) :
    (strategyMatches ⟨graph, false⟩ mode names m strategy).Within
      (strategyMatches ⟨graph, true⟩ mode names m strategy) :=
  strategyMatches_within (.joins_true graph false) (.refl m) names fun _ _ => .refl m

/-! ## Settings -/

/-- The settings with an answer to the question whether texts are joined. -/
def Settings.withJoins (s : Settings) (joins : Bool) : Settings := { s with joins := some joins }

namespace TraceRequest

variable {r : TraceRequest} {settings : Settings}

theorem chooseMode_withJoins (joins : Bool) : r.chooseMode (settings.withJoins joins) =
    { r.chooseMode settings with
      settings := (r.chooseMode settings).settings.withJoins joins } := by
  unfold chooseMode
  split
  · unfold Settings.getMode
    cases hmode : settings.mode <;> simp [Settings.withJoins, hmode]
  · rfl

theorem chooseNames_withJoins (joins : Bool) : r.chooseNames (settings.withJoins joins) =
    { r.chooseNames settings with
      settings := (r.chooseNames settings).settings.withJoins joins } := by
  unfold chooseNames
  split
  · unfold Settings.getNames
    cases hnames : settings.names <;> simp [Settings.withJoins, hnames]
  · rfl

/-! ## Requests -/

/-- A request whose texts are joined finds all that it finds when they are not. -/
theorem trace_withJoins {map : Except Outline.Fault (TraceMap ι)} {outcome : TraceOutcome}
    (h : r.trace map (settings.withJoins true) = .ok outcome) :
    ∃ outcome', r.trace map (settings.withJoins false) = .ok outcome' ∧
      outcome'.result.found.Sublist outcome.result.found := by
  simp only [trace, bind_eq_ok, pure_eq_ok, mapError_eq_ok, chooseMode_withJoins,
    chooseNames_withJoins]
    at h ⊢
  obtain ⟨selected, hselected, m, hm, analyzed, hanalyzed, mode, hmode, runs, hruns, rfl⟩ := h
  obtain ⟨runs', hruns', hfound⟩ := exists_mapM_of_forall hruns fun strategy _ run hrun =>
    runStrategy_within (Tracer.strategyMatches_joins analyzed.2.1 mode _ m strategy) hrun
  exact ⟨_, ⟨selected, hselected, m, hm, analyzed, hanalyzed, mode, hmode, runs', hruns', rfl⟩,
    sublist_flatMap hfound⟩

end TraceRequest

namespace Tracer

/-- **Joining texts only adds.** A text that an expression has without joining it has with joining
too. If a strategy, or a whole request, ends without a fault when texts are joined, it does so when
they are not, and its matches are then found among those with joining, in the same order. -/
theorem joining_only_adds :
    (∀ (n : Option Node) (t : Text),
      optionConstantText? false n = .ok (some t) → optionConstantText? true n = .ok (some t)) ∧
    (∀ (graph : ScopeGraph) (mode : Mode) (names : List Text) (m : TraceMap ι)
      (strategy : Strategy),
      (strategyMatches ⟨graph, true⟩ mode names m strategy).fault = none →
        (strategyMatches ⟨graph, false⟩ mode names m strategy).fault = none ∧
          (strategyMatches ⟨graph, false⟩ mode names m strategy).found.Sublist
            (strategyMatches ⟨graph, true⟩ mode names m strategy).found) ∧
    ∀ (r : TraceRequest) (map : Except Outline.Fault (TraceMap ι)) (settings : Settings)
      (outcome : TraceOutcome), r.trace map (settings.withJoins true) = .ok outcome →
        ∃ outcome', r.trace map (settings.withJoins false) = .ok outcome' ∧
          outcome'.result.found.Sublist outcome.result.found := by
  refine ⟨?_, ?_, ?_⟩
  · intro n t h
    exact (optionConstantText?_upTo n).eq_some h
  · intro graph mode names m strategy hfault
    exact strategyMatches_joins graph mode names m strategy hfault
  · intro r map settings outcome h
    exact TraceRequest.trace_withJoins h

/-- A request for the globals of `x.a();x[""+"a"]()`. -/
def joinedRequest : TraceRequest :=
  let node := fun kind field start stop children =>
    Concrete.mk ⟨kind, true, ⟨start, stop, 1, start⟩, field⟩ children
  let arguments := fun start => node "arguments" (some "arguments") start (start + 2) []
  let statement := fun callee start stop =>
    node "expression_statement" none start stop [
      node "call_expression" none start stop [callee, arguments (stop - 2)]]
  { source := "x.a();x[\"\"+\"a\"]()"
    tree := ⟨node "program" none 0 17 [
      statement (node "member_expression" (some "function") 0 3 [
        node "identifier" (some "object") 0 1 [],
        node "property_identifier" (some "property") 2 3 []]) 0 5,
      statement (node "subscript_expression" (some "function") 6 15 [
        node "identifier" (some "object") 6 7 [],
        node "binary_expression" (some "index") 8 14 [
          node "string" (some "left") 8 10 [],
          .mk ⟨"+", false, ⟨10, 11, 1, 10⟩, some "operator"⟩ [],
          node "string" (some "right") 11 14 [
            node "string_fragment" none 12 13 []]]]) 6 17], false⟩
    strategies := [.string "global"] }

/-- The number of matches of `joinedRequest`. -/
def joinedCount (joins : Bool) : Option Nat :=
  (joinedRequest.trace (.ok functionMap) (TraceRequest.plainSettings.withJoins joins)).toOption.map
    (·.result.found.length)

/-- Of the two calls one is found without joining texts. -/
theorem joining_only_adds_call :
    joinedCount false = some 1 ∧ joinedCount true = some 2 ∧
      ∃ outcome outcome',
        joinedRequest.trace (.ok functionMap) (TraceRequest.plainSettings.withJoins true) =
          .ok outcome ∧
        joinedRequest.trace (.ok functionMap) (TraceRequest.plainSettings.withJoins false) =
          .ok outcome' ∧
        outcome'.result.found.Sublist outcome.result.found := by
  have hcount : joinedCount false = some 1 ∧ joinedCount true = some 2 := by decide +kernel
  refine ⟨hcount.1, hcount.2, ?_⟩
  have htrue := hcount.2
  unfold joinedCount at htrue
  cases htrace : joinedRequest.trace (.ok functionMap)
    (TraceRequest.plainSettings.withJoins true) with
  | error fault =>
    rw [htrace] at htrue
    cases htrue
  | ok outcome =>
    obtain ⟨outcome', htrace', hfound⟩ := joining_only_adds.2.2 _ _ _ outcome htrace
    exact ⟨outcome, outcome', rfl, htrace', hfound⟩

end Tracer

end ApiTrace
