import ApiTrace.Proofs.Flow.RootIndependence
import ApiTrace.Proofs.TraceMap.Build
import ApiTrace.Proofs.TraceMap.Copying

/-!
# Sharing in a trace map is not observable

Whether the nodes of a trace map are shared, copied or lie on a cycle makes no difference: two maps
that cannot be told apart by walking give the same matches and the same log, with every strategy
(`Tracer.strategyMatches_bisimilar`) and for every request (`TraceRequest.trace_bisimilar`). In
particular the cells of an outline may be written out for each place where they are used.
-/

namespace ApiTrace

variable {ι κ : Type}

namespace Tracer

/-! ## Modules by name -/

/-- The name of the module of a declaration. -/
def moduleName? (declaration : Site) : Except ConstantFault (Option Text) :=
  match moduleSource? declaration.node.form with
  | none => .ok none
  | some source => moduleId? source

theorem moduleRoot?_eq (m : TraceMap ι) (declaration : Site) :
    moduleRoot? m declaration =
      (moduleName? declaration).map (·.bind (Traced.child? ⟨[], m⟩ ·)) := by
  unfold moduleRoot? moduleName?
  cases moduleSource? declaration.node.form with
  | none => rfl
  | some source =>
    show (moduleId? source >>= _) = (moduleId? source).map _
    cases moduleId? source <;> rfl

/-- A search below the module of a declaration first looks up the name of the module. -/
theorem withValue_moduleRoot? (m : TraceMap ι) (declaration : Site)
    (f : Traced ι → Emission ConstantFault) :
    .withValue (moduleRoot? m declaration) f = Emission.withValue
      (moduleName? declaration) fun name =>
      match Traced.child? ⟨[], m⟩ name with
      | none => .empty
      | some v => f v := by
  rw [moduleRoot?_eq]
  cases moduleName? declaration with
  | error fault => rfl
  | ok name =>
    cases name with
    | none => rfl
    | some name =>
      show Emission.withValue (.ok (Traced.child? ⟨[], m⟩ name)) f =
        match Traced.child? ⟨[], m⟩ name with | none => .empty | some v => f v
      cases Traced.child? ⟨[], m⟩ name <;> rfl

/-! ## Strategies -/

variable {t : Tracer} {m : TraceMap ι} {n : TraceMap κ}

theorem globalMatches_bisimilar (h : m.Bisimilar n) (names : List Text) :
    t.globalMatches names n = t.globalMatches names m := by
  have hroots : Traced.Alike ⟨[], m⟩ ⟨[], n⟩ := ⟨rfl, h⟩
  unfold globalMatches
  congr 1
  · rw [concatMap_globalRoots, concatMap_globalRoots, h.keys]
    congr 1
    funext name
    rcases hroots.child? name with ⟨hv, hw⟩ | ⟨v, w, hv, hw, hvw⟩
    · rw [hv, hw]
      rfl
    · rw [hv, hw]
      show (t.graph.undeclared? name).elim _ _ = (t.graph.undeclared? name).elim _ _
      cases hx : t.graph.undeclared? name with
      | none => rfl
      | some x => exact enter_alike hvw (ScopeGraph.undeclared?_mem hx) true
  · apply Emission.concatMap_congr
    rintro ⟨name, x⟩ hroot
    obtain ⟨_, -, hx⟩ := List.mem_filterMap.1 hroot
    obtain ⟨_, hx, heq⟩ := Option.map_eq_some_iff.1 hx
    cases heq
    exact enter_alike hroots (ScopeGraph.undeclared?_mem hx) false

theorem requireMatches_bisimilar (h : m.Bisimilar n) (r : Reference) :
    t.requireMatches n r = t.requireMatches m r := by
  have hroots : Traced.Alike ⟨[], m⟩ ⟨[], n⟩ := ⟨rfl, h⟩
  unfold requireMatches
  split
  · rfl
  · rename_i frame above _
    split
    · rfl
    · split
      · split
        · congr 1
          funext key
          apply withChild_alike hroots key
          intro v w hvw
          rw [report_alike hvw, climb_alike hvw ⟨frame.parent, above⟩]
        · rfl
      · rfl

theorem cjsMatches_bisimilar (h : m.Bisimilar n) : t.cjsMatches n = t.cjsMatches m := by
  unfold cjsMatches
  split
  · rfl
  · congr 1
    funext r
    exact requireMatches_bisimilar h r

theorem esmMatches_bisimilar (h : m.Bisimilar n) (mode : Mode) :
    t.esmMatches mode n = t.esmMatches mode m := by
  have hroots : Traced.Alike ⟨[], m⟩ ⟨[], n⟩ := ⟨rfl, h⟩
  unfold esmMatches
  congr 1
  funext declaration
  rw [withValue_moduleRoot?, withValue_moduleRoot?]
  congr 1
  funext name
  apply withChild_alike hroots name
  intro v w hvw
  exact declarationMatches_alike hvw mode declaration

/-- A strategy finds the same with maps that cannot be told apart. -/
theorem strategyMatches_bisimilar (h : m.Bisimilar n) (mode : Mode) (names : List Text)
    (strategy : Strategy) :
    t.strategyMatches mode names n strategy = t.strategyMatches mode names m strategy := by
  cases strategy with
  | globals => exact globalMatches_bisimilar h names
  | cjs => exact cjsMatches_bisimilar h
  | esm => exact esmMatches_bisimilar h mode

/-! ## Logs -/

theorem globalRoots_bisimilar (h : m.Bisimilar n) :
    (t.globalRoots n).map Prod.fst = (t.globalRoots m).map Prod.fst := by
  unfold globalRoots TraceMap.children
  rw [List.map_filterMap, List.map_filterMap, List.filterMap_filterMap, List.filterMap_filterMap,
    h.keys]
  congr 1
  funext name
  rcases h.child? name with ⟨hm, hn⟩ | ⟨c, d, hm, hn, -⟩
  · rw [hm, hn]
    rfl
  · rw [hm, hn]
    cases hx : t.graph.undeclared? name <;> simp [hx]

theorem esmLog_bisimilar (h : m.Bisimilar n) : t.esmLog n = t.esmLog m := by
  have hroots : Traced.Alike ⟨[], m⟩ ⟨[], n⟩ := ⟨rfl, h⟩
  unfold esmLog
  congr 1
  funext declaration
  rw [moduleRoot?_eq, moduleRoot?_eq]
  cases moduleName? declaration with
  | error fault => rfl
  | ok name =>
    cases name with
    | none => rfl
    | some name =>
      rcases hroots.child? name with ⟨hv, hw⟩ | ⟨v, w, hv, hw, hvw⟩
      · simp [Except.map, hv, hw]
      · simp [Except.map, hv, hw, hvw.1]

theorem globalLog_bisimilar (h : m.Bisimilar n) (names : List Text) :
    t.globalLog names n = t.globalLog names m := by
  have hlines : ∀ {κ : Type} (n : TraceMap κ),
      (t.globalRoots n).map (fun root => LogLine.debug ("Tracing global " ++ Text.quoted root.1)) =
        ((t.globalRoots n).map Prod.fst).map fun key =>
          .debug ("Tracing global " ++ Text.quoted key) := by
    intro κ n
    rw [List.map_map]
    rfl
  unfold globalLog
  rw [hlines n, hlines m, globalRoots_bisimilar h]

theorem strategyLog_bisimilar (h : m.Bisimilar n) (names : List Text) (strategy : Strategy) :
    t.strategyLog names n strategy = t.strategyLog names m strategy := by
  cases strategy with
  | globals => exact globalLog_bisimilar h names
  | cjs => rfl
  | esm => exact esmLog_bisimilar h

end Tracer

/-! ## Requests -/

namespace TraceRequest

open Tracer

variable {r : TraceRequest} {m : TraceMap ι} {n : TraceMap κ}

theorem runStrategy_bisimilar (h : m.Bisimilar n) (t : Tracer) (mode : Mode) (names : List Text) :
    r.runStrategy t mode names n = r.runStrategy t mode names m := by
  funext strategy
  unfold runStrategy
  rw [strategyMatches_bisimilar h, strategyLog_bisimilar h]

/-- A request has the same outcome with maps that cannot be told apart. -/
theorem trace_bisimilar (h : m.Bisimilar n) (settings : Settings) :
    r.trace (.ok n) settings = r.trace (.ok m) settings := by
  unfold trace
  congr 1
  funext selected
  show (analyzeSource r.source r.filepath r.sourceType r.tree >>= _) =
    (analyzeSource r.source r.filepath r.sourceType r.tree >>= _)
  congr 1
  funext analyzed
  simp only [runStrategy_bisimilar h]

/-- **Sharing in a trace map is not observable.** Maps that cannot be told apart give the same
matches, with every strategy and for every request. A map whose outline is written out, with copies
of the cells that are used in several places, is such a map, and so is a map that is built of it: if
a map can be built of an outline, a map can be built of its copy, and the two give the same. -/
theorem sharing_unobservable :
    (∀ {ι κ : Type} {m : TraceMap ι} {n : TraceMap κ}, m.Bisimilar n →
      (∀ (t : Tracer) (mode : Mode) (names : List Text) (strategy : Strategy),
        t.strategyMatches mode names n strategy = t.strategyMatches mode names m strategy) ∧
      ∀ (r : TraceRequest) (settings : Settings),
        r.trace (.ok n) settings = r.trace (.ok m) settings) ∧
    (∀ {o copy : Outline} {original : Nat → Nat} {root : Nat} {m : TraceMap Nat},
      copy.IsCopy o original → o.toMap (.cell (original root)) = .ok m →
        ∃ n, copy.toMap (.cell root) = .ok n ∧
          (∀ (t : Tracer) (mode : Mode) (names : List Text) (strategy : Strategy),
            t.strategyMatches mode names n strategy = t.strategyMatches mode names m strategy) ∧
          ∀ (r : TraceRequest) (settings : Settings),
            r.trace (copy.toMap (.cell root)) settings =
              r.trace (o.toMap (.cell (original root))) settings) ∧
    ∀ {o copy : Outline} {original : Nat → Nat} {root : Nat} {m : TraceMap Outline.BuiltNode},
      o.WellFormed → copy.WellFormed → copy.IsCopy o original →
      o.build (.cell (original root)) = .ok m →
        ∃ n, copy.build (.cell root) = .ok n ∧
          (∀ (t : Tracer) (mode : Mode) (names : List Text) (strategy : Strategy),
            t.strategyMatches mode names n strategy = t.strategyMatches mode names m strategy) ∧
          ∀ (r : TraceRequest) (settings : Settings),
            r.trace (copy.build (.cell root)) settings =
              r.trace (o.build (.cell (original root))) settings := by
  refine ⟨?_, ?_, ?_⟩
  · intro ι κ m n h
    exact ⟨fun t mode names strategy => strategyMatches_bisimilar h mode names strategy,
      fun r settings => trace_bisimilar h settings⟩
  · intro o copy original root m hcopy hm
    obtain ⟨n, hn, h⟩ := hcopy.toMap hm
    refine ⟨n, hn, fun t mode names strategy => strategyMatches_bisimilar h mode names strategy, ?_⟩
    intro r settings
    rw [hn, hm]
    exact trace_bisimilar h settings
  · intro o copy original root m ho hcopying hcopy hm
    -- The built maps are compared by way of the maps of all cells.
    obtain ⟨m', hm', hbuilt⟩ := Outline.build_bisimilar_toMap ho hm
    obtain ⟨n', hn', h⟩ := hcopy.toMap hm'
    obtain ⟨n, hn, hcopied⟩ := Outline.exists_build_of_toMap hcopying hn'
    refine ⟨n, hn, ?_, ?_⟩
    · intro t mode names strategy
      rw [strategyMatches_bisimilar hcopied, strategyMatches_bisimilar h,
        strategyMatches_bisimilar hbuilt]
    · intro r settings
      rw [hn, hm, trace_bisimilar hcopied, trace_bisimilar h, trace_bisimilar hbuilt]

/-- The map `loopMap` with two nodes that lead to each other in the place of one that leads to
itself. -/
def twinMap : TraceMap Bool where
  node i := { MapNode.ofChildren [("x", !i), ("a", i)] with onRead := some (.bool true) }
  root := false

/-- An outline in which the module `m` and the global `x` are one cell. -/
def sharingOutline : Outline where
  cells := [.draft [.child "m" (.cell 1), .child "x" (.cell 1)], .draft [.child "a" (.cell 2)],
    .draft [.payload .call (.bool true)]]

/-- The same outline with a cell for each place. -/
def copyingOutline : Outline where
  cells := [.draft [.child "m" (.cell 1), .child "x" (.cell 3)], .draft [.child "a" (.cell 2)],
    .draft [.payload .call (.bool true)], .draft [.child "a" (.cell 4)],
    .draft [.payload .call (.bool true)]]

/-- The cell of `sharingOutline` of which a cell of `copyingOutline` is a copy. -/
def originalCell : Nat → Nat
  | 3 => 1
  | 4 => 2
  | i => i

theorem wellFormed_sharingOutline : sharingOutline.WellFormed :=
  Outline.wellFormed_drafts [[.child "m" (.cell 1), .child "x" (.cell 1)], [.child "a" (.cell 2)],
    [.payload .call (.bool true)]] (by decide) (by decide)

theorem wellFormed_copyingOutline : copyingOutline.WellFormed :=
  Outline.wellFormed_drafts [[.child "m" (.cell 1), .child "x" (.cell 3)], [.child "a" (.cell 2)],
    [.payload .call (.bool true)], [.child "a" (.cell 4)], [.payload .call (.bool true)]]
    (by decide) (by decide)

theorem sharing_unobservable_loop :
    loopMap.Bisimilar twinMap ∧
      (∀ strategy, strategyMatches ⟨aliasGraph, true⟩ .strict [] twinMap strategy =
        strategyMatches ⟨aliasGraph, true⟩ .strict [] loopMap strategy) ∧
      copyingOutline.IsCopy sharingOutline originalCell ∧
      (∃ m n, sharingOutline.toMap (.cell 0) = .ok m ∧ copyingOutline.toMap (.cell 0) = .ok n ∧
        (moduleTracer.strategyMatches .strict [] n .cjs).found =
          (moduleTracer.strategyMatches .strict [] m .cjs).found ∧
        (moduleTracer.strategyMatches .strict [] m .cjs).found.length = 1) ∧
      ∃ m n, sharingOutline.build (.cell 0) = .ok m ∧ copyingOutline.build (.cell 0) = .ok n ∧
        (moduleTracer.strategyMatches .strict [] n .cjs).found =
          (moduleTracer.strategyMatches .strict [] m .cjs).found := by
  have hloop : loopMap.Bisimilar twinMap := by
    refine ⟨fun _ _ => True, ⟨?_, ?_, ?_⟩, trivial⟩
    · intro i j _ use
      cases use <;> rfl
    · intro i j _
      rfl
    · intro i j _
      exact .cons ⟨rfl, trivial⟩ (.cons ⟨rfl, trivial⟩ .nil)
  have hcopy : copyingOutline.IsCopy sharingOutline originalCell := by
    intro i
    match i with
    | 0 | 1 | 2 | 3 | 4 => rfl
    | i + 5 => rfl
  have hm : sharingOutline.toMap (.cell (originalCell 0)) = .ok (sharingOutline.mapAt 0) := by
    simp [Outline.toMap, Outline.firstFault?, sharingOutline, originalCell]
  obtain ⟨m, hbuild, -⟩ := Outline.exists_build_of_toMap wellFormed_sharingOutline hm
  obtain ⟨hmaps, houtlines, hbuilt⟩ := sharing_unobservable
  obtain ⟨n, hn, hfound, -⟩ := houtlines hcopy hm
  obtain ⟨n', hn', hfound', -⟩ :=
    hbuilt wellFormed_sharingOutline wellFormed_copyingOutline hcopy hbuild
  refine ⟨hloop, ?_, hcopy, ⟨_, n, hm, hn, ?_, ?_⟩, m, n', hbuild, hn', ?_⟩
  · intro strategy
    exact (hmaps hloop).1 ⟨aliasGraph, true⟩ .strict [] strategy
  · rw [hfound]
  · rfl
  · rw [hfound']

end TraceRequest

end ApiTrace
