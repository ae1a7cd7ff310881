import ApiTrace.Proofs.Flow.Start

/-!
# Matches fit the trace map

A step of a value keeps the value or leads to one of its properties, so wherever a value gets to,
its path leads to it from where it began (`Tracer.Flow.leads`). Matches therefore have a path that
can be walked in the trace map, and the node at its end reports just what the match does
(`Tracer.matches_fit_map`). A module that is seen through its default export has another map; there
the path of a match is shortened, and it is the short path that can be walked.
-/

namespace ApiTrace

variable {ι κ : Type}

/-- Whether a match is on a node of the kind that its use asks for. -/
def Match.OnUser (found : Match) : Prop :=
  (found.use = .call → found.site.kind = "CallExpression") ∧
    (found.use = .construct → found.site.kind = "NewExpression")

/-- A match that a trace map gives rise to: its path leads to a node that reports its entry. -/
def Match.Fits (m : TraceMap ι) (found : Match) : Prop :=
  (∃ n, m.walk? found.path = some n ∧ n.payload? found.use = some found.entry) ∧ found.OnUser

/-- Whether a value is a property, at any depth, of another. -/
def Traced.Leads (v w : Traced ι) : Prop :=
  ∃ path, w.path = v.path ++ path ∧ v.map.walk? path = some w.map

namespace Traced.Leads

variable {u v w : Traced ι}

theorem refl (v : Traced ι) : v.Leads v := ⟨[], by simp, rfl⟩

theorem trans (h : u.Leads v) (h' : v.Leads w) : u.Leads w := by
  obtain ⟨p, hp, hwalk⟩ := h
  obtain ⟨q, hq, hwalk'⟩ := h'
  exact ⟨p ++ q, by rw [hq, hp, List.append_assoc],
    by rw [TraceMap.walk?_append, hwalk]; exact hwalk'⟩

theorem of_child? {key : Text} (h : v.child? key = some w) : v.Leads w := by
  obtain ⟨c, hc, rfl⟩ := Option.map_eq_some_iff.1 h
  exact ⟨[key], rfl, by simp [TraceMap.walk?, hc]⟩

end Traced.Leads

/-- Whether a place of use is of the kind that the use asks for. -/
def Place.OnUser : Place → Prop
  | .use .call s => s.kind = "CallExpression"
  | .use .construct s => s.kind = "NewExpression"
  | _ => True

namespace Tracer

variable {t : Tracer} {mode : Mode} {names : List Text} {m : TraceMap ι} {found : Match}

/-! ## What flows keep -/

section Flow

variable {s s' : FlowState κ} {a : List Nat} {n : Nat}

theorem Step.leads (h : t.Step s n s') : s.value.Leads s'.value := by
  cases h with
  | readMember _ _ _ _ hw | member _ _ _ _ hw | readProperty _ _ _ hw | property _ _ _ hw _ =>
    exact .of_child? hw
  | _ => exact .refl _

theorem Flow.leads (h : t.Flow s a s') : s.value.Leads s'.value := by
  induction h with
  | here s => exact .refl _
  | step first _ ih => exact first.leads.trans ih

theorem Step.onUser (h : t.Step s n s') : s'.place.OnUser := by
  cases h with
  | call _ _ hf =>
    show Form.name _ = _
    rw [hf]
    rfl
  | construct _ _ hf =>
    show Form.name _ = _
    rw [hf]
    rfl
  | _ => trivial

theorem Flow.onUser (h : t.Flow s a s') (hs : s.place.OnUser) : s'.place.OnUser := by
  induction h with
  | here s => exact hs
  | step first _ ih => exact ih first.onUser

/-- A match of a flow reports what is at its path below the value with which the flow began. -/
theorem Finds.below (h : t.Finds s found) (hs : s.place.OnUser) :
    ∃ path n, found.path = s.value.path ++ path ∧ s.value.map.walk? path = some n ∧
      n.payload? found.use = some found.entry ∧ found.OnUser := by
  obtain ⟨a, b, c, s', -, hflow, -, hend⟩ := h
  obtain ⟨path, hpath, hwalk⟩ := hflow.leads
  have huser := hflow.onUser hs
  cases hend with
  | found hentry =>
    refine ⟨path, _, hpath, hwalk, hentry, ?_, ?_⟩
    · rintro rfl
      exact huser
    · rintro rfl
      exact huser

theorem Finds.fits (h : t.Finds s found) (hs : s.place.OnUser) {m : TraceMap κ}
    (hm : Traced.Leads ⟨[], m⟩ s.value) : found.Fits m := by
  obtain ⟨p, n, hp, hwalk, hentry, huser⟩ := h.below hs
  obtain ⟨q, hq, hwalk'⟩ := hm
  refine ⟨⟨n, ?_, hentry⟩, huser⟩
  rw [hp, hq, List.append_assoc, List.nil_append, TraceMap.walk?_append, hwalk']
  exact hwalk

end Flow

/-! ## Where flows begin -/

theorem SpecifierStart.onUser {specifier : Site} {v : Traced κ} {s : FlowState κ}
    (h : SpecifierStart t specifier v s) : s.place.OnUser := by
  cases h <;> trivial

theorem SpecifierStart.leads {specifier : Site} {v : Traced κ} {s : FlowState κ}
    (h : SpecifierStart t specifier v s) : v.Leads s.value := by
  cases h with
  | read hw | named hw _ => exact .of_child? hw
  | whole => exact .refl _

theorem moduleRoot?_leads {declaration : Site} {v : Traced ι}
    (h : moduleRoot? m declaration = .ok (some v)) :
    ∃ id child, m.child? id = some child ∧ v = ⟨[id], child⟩ := by
  unfold moduleRoot? at h
  split at h
  · cases h
  · rename_i source _
    cases hid : moduleId? source with
    | error fault =>
      rw [hid] at h
      cases h
    | ok id =>
      rw [hid] at h
      obtain ⟨id, rfl, hchild⟩ := Option.bind_eq_some_iff.1 (Except.ok.inj h)
      obtain ⟨child, hm, rfl⟩ := child?_nil hchild
      exact ⟨id, child, hm, rfl⟩

/-- Whether a declaration shows a module as it is: the module has the shape of an ECMAScript module,
all of it is exported again, or its default export is the whole module. -/
def ShowsModule (mode : Mode) (declaration : Site) (v : Traced ι) : Prop :=
  v.map.isEsm = true ∨ (∃ exported source, declaration.node.form = .exportAll exported source) ∨
    v.map.ShowsDefault (mode = .legacy)

theorem withoutDefault_cons (id : Text) (path : List Text) :
    withoutDefault (id :: path) =
      id :: if path.head? = some TraceMap.defaultName then path.tail else path := by
  cases path with
  | nil => rfl
  | cons name rest => simp [withoutDefault, apply_ite (id :: ·)]

theorem fits_of_exceptDefault {old : Match} {id : Text} {child : TraceMap ι}
    {n : TraceMap (Option ι)} {path : List Text} (hchild : m.child? id = some child)
    (hshows : child.ShowsDefault (mode = .legacy)) (hpath : old.path = id :: path)
    (hwalk : (child.asDefaultExport (mode = .legacy)).walk? path = some n)
    (hentry : n.payload? old.use = some old.entry) (huser : old.OnUser)
    (h : exceptDefault old = some found) : found.Fits m := by
  obtain ⟨d, hd, hpayload⟩ := TraceMap.walk?_asDefaultExport hshows hwalk hentry
  simp only [exceptDefault] at h
  split at h
  · cases h
  · cases h
    refine ⟨⟨d, ?_, hpayload⟩, huser⟩
    rw [hpath, withoutDefault_cons, TraceMap.walk?, hchild]
    exact hd

theorem fits_of_mem_declarationMatches {declaration : Site} {v : Traced ι}
    (hv : moduleRoot? m declaration = .ok (some v)) (hshows : ShowsModule mode declaration v)
    (h : found ∈ (t.declarationMatches mode declaration v).found) : found.Fits m := by
  obtain ⟨id, child, hchild, rfl⟩ := moduleRoot?_leads hv
  have hroot : Traced.Leads ⟨[], m⟩ ⟨[id], child⟩ := ⟨[id], rfl, by simp [TraceMap.walk?, hchild]⟩
  obtain ⟨κ, s, edit, old, hs, hfinds, hedit⟩ := start_of_mem_declarationMatches h
  cases hs with
  | read =>
    cases hedit
    exact hfinds.fits trivial hroot
  | exportAll hf hw =>
    cases hedit
    exact hfinds.fits trivial (hroot.trans (.of_child? hw))
  | esm hesm hs =>
    cases hedit
    exact hfinds.fits hs.onUser (hroot.trans hs.leads)
  | wrapped hf hesm hs =>
    rcases hshows with hshows | ⟨exported, source, hall⟩ | hshows
    · rw [hesm] at hshows
      cases hshows
    · exact absurd hall (hf exported source)
    · obtain ⟨q, hq, hwalk'⟩ := hs.leads
      obtain ⟨p, n, hp, hwalk, hentry, huser⟩ := hfinds.below hs.onUser
      have hpath : old.path = id :: (q ++ p) := by
        rw [hp, hq]
        simp
      refine fits_of_exceptDefault hchild hshows hpath ?_ hentry huser hedit
      rw [TraceMap.walk?_append, hwalk']
      exact hwalk

theorem fits_of_mem_globalMatches (h : found ∈ (t.globalMatches names m).found) : found.Fits m := by
  obtain ⟨s, hs, hfinds⟩ := start_of_mem_globalMatches .strict h
  cases hs with
  | global hchild => exact hfinds.fits trivial ⟨_, rfl, by simp [TraceMap.walk?, hchild]⟩
  | globalObject => exact hfinds.fits trivial (.refl _)

theorem fits_of_mem_cjsMatches (h : found ∈ (t.cjsMatches m).found) : found.Fits m := by
  obtain ⟨s, hs, hfinds⟩ := start_of_mem_cjsMatches .strict [] h
  cases hs with
  | requireRead _ _ _ hchild | require _ _ _ hchild =>
    exact hfinds.fits trivial ⟨_, rfl, by simp [TraceMap.walk?, hchild]⟩

/-- **Matches fit the trace map.** The path of a match leads to a node of the map that reports its
entry for its use, and calls and constructions are on nodes of their kind. For matches of ECMAScript
modules this is so wherever the declaration shows the module as it is. -/
theorem matches_fit_map (t : Tracer) (mode : Mode) (names : List Text) (m : TraceMap ι) :
    (∀ found ∈ (t.globalMatches names m).found, found.Fits m) ∧
      (∀ found ∈ (t.cjsMatches m).found, found.Fits m) ∧
      (∀ found ∈ (t.esmMatches mode m).found, ∃ declaration ∈ t.statements, ∃ v,
        moduleRoot? m declaration = .ok (some v) ∧
          found ∈ (t.declarationMatches mode declaration v).found) ∧
      ∀ declaration v, moduleRoot? m declaration = .ok (some v) → ShowsModule mode declaration v →
        ∀ found ∈ (t.declarationMatches mode declaration v).found, found.Fits m := by
  refine ⟨fun _ => fits_of_mem_globalMatches, fun _ => fits_of_mem_cjsMatches, ?_, ?_⟩
  · intro found h
    obtain ⟨declaration, hdeclaration, h⟩ := Emission.mem_found_concatMap h
    obtain ⟨v, hv, h⟩ := Emission.mem_found_withValue h
    exact ⟨declaration, hdeclaration, v, hv, h⟩
  · intro declaration v hv hshows found h
    exact fits_of_mem_declarationMatches hv hshows h

/-- The program `import m from "m"; m.a(); require("m").a(); x.a()`. -/
def moduleProgram : Node :=
  let name := fun start (text : String) =>
    Node.mk ⟨start, start + text.length, 1, start⟩ (.identifier text)
  let source := fun start => Node.mk ⟨start, start + 3, 1, start⟩ (.literal (.string "m") "\"m\"")
  let callOf := fun (object : Node) stop => Node.mk ⟨object.start, stop + 4, 1, object.start⟩ (.call
    (some (.mk ⟨object.start, stop + 2, 1, object.start⟩
      (.member (some object) (some (name (stop + 1) "a")) false false))) [] false)
  let statement := fun (n : Node) => Node.mk n.span (.expressionStatement (some n))
  let required := Node.mk ⟨25, 37, 1, 25⟩ (.call (some (name 25 "require")) [source 33] false)
  .mk ⟨0, 49, 1, 0⟩ (.program
    [.mk ⟨0, 18, 1, 0⟩ (.importDeclaration
        [.mk ⟨7, 8, 1, 7⟩ (.importDefault (name 7 "m"))] (some (source 14))),
      statement (callOf (name 19 "m") 20), statement (callOf required 37),
      statement (callOf (name 43 "x") 44)] "module")

/-- The tracer of `moduleProgram`. -/
def moduleTracer : Tracer where
  graph :=
    match ScopeGraph.analyze moduleProgram with
    | .ok graph => graph
    | .error _ => ⟨moduleProgram, [], []⟩
  joins := true

/-- The import declaration of `moduleProgram`. -/
def importSite : Site := moduleTracer.statements.headD (Site.root moduleProgram)

/-- A map in which the module `m` and the global `x` have a function `a`. -/
def functionMap : TraceMap (Fin 3) where
  node
    | 0 => .ofChildren [("m", 1), ("x", 1)]
    | 1 => .ofChildren [("a", 2)]
    | 2 => { MapNode.empty with onCall := some (.bool true) }
  root := 0

theorem matches_fit_map_module :
    (∃ found ∈ (moduleTracer.globalMatches [] functionMap).found,
        found.path = [Text.ofString "x", Text.ofString "a"] ∧ found.Fits functionMap) ∧
      (∃ found ∈ (moduleTracer.cjsMatches functionMap).found,
        found.path = [Text.ofString "m", Text.ofString "a"] ∧ found.Fits functionMap) ∧
      ∃ v, moduleRoot? functionMap importSite = .ok (some v) ∧ ShowsModule .strict importSite v ∧
        ∃ found ∈ (moduleTracer.declarationMatches .strict importSite v).found,
          found.path = [Text.ofString "m", Text.ofString "a"] ∧ found.Fits functionMap := by
  obtain ⟨hglobal, hcjs, -, hesm⟩ := matches_fit_map moduleTracer .strict [] functionMap
  refine ⟨?_, ?_, ⟨[Text.ofString "m"], functionMap.focus 1⟩, rfl, .inr (.inr (.inl rfl)), ?_⟩
  · have hroots : moduleTracer.globalRoots functionMap =
        [(Text.ofString "x", ⟨0, "x"⟩, functionMap.focus 1)] := rfl
    have heval : ∃ found ∈ (moduleTracer.globalMatches [] functionMap).found,
        found.path = [Text.ofString "x", Text.ofString "a"] := by
      simp only [globalMatches, hroots, Emission.concatMap]
      rw [enter, dif_pos (by decide)]
      exact ⟨_, List.mem_of_getElem? (i := 0) rfl, rfl⟩
    obtain ⟨found, hmem, hpath⟩ := heval
    exact ⟨found, hmem, hpath, hglobal found hmem⟩
  · exact ⟨_, List.mem_of_getElem? (i := 0) rfl, rfl, hcjs _ (List.mem_of_getElem? (i := 0) rfl)⟩
  · have hvariable :
        moduleTracer.declarationMatches .strict importSite
          ⟨[Text.ofString "m"], functionMap.focus 1⟩ =
          (moduleTracer.enter [] false ⟨1, "m"⟩ ⟨[Text.ofString "m", TraceMap.defaultName],
            ((functionMap.focus 1).asDefaultExport false).focus (some 1)⟩ ++ .empty).filterMap
              exceptDefault := rfl
    have heval : ∃ found ∈ (moduleTracer.declarationMatches .strict importSite
        ⟨[Text.ofString "m"], functionMap.focus 1⟩).found,
        found.path = [Text.ofString "m", Text.ofString "a"] := by
      rw [hvariable, enter, dif_pos (by decide)]
      exact ⟨_, List.mem_of_getElem? (i := 0) rfl, rfl⟩
    obtain ⟨found, hmem, hpath⟩ := heval
    exact ⟨found, hmem, hpath, hesm importSite _ rfl (.inr (.inr (.inl rfl))) found hmem⟩

end Tracer

end ApiTrace
