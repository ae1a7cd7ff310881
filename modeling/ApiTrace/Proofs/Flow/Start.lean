import ApiTrace.Proofs.Flow.Enumeration
import ApiTrace.Proofs.TraceMap.Walk
import ApiTrace.Trace.Root

/-!
# Where tracing begins

The states in which the strategies begin to follow a value, all of them with no variable entered
yet: variables of undeclared globals, calls of `require`, and import and export declarations with
the names in them. Every match of a strategy is an outcome of a flow from one of these states
(`Tracer.start_of_mem_strategyMatches`). The one thing that is done to the outcomes afterwards is
that the name of a default export which the program does not have is taken out of the path.
-/

namespace ApiTrace.Tracer

variable {ι κ : Type}

/-- Where the names of a declaration begin, for a module that is seen as `v`. -/
inductive SpecifierStart (t : Tracer) (specifier : Site) (v : Traced κ) : FlowState κ → Prop where
  | read {key w} (hw : v.child? key = some w) :
      SpecifierStart t specifier v ⟨.use .read specifier, w, []⟩
  | named {key w} {offset : Nat} {name x} (hw : v.child? key = some w)
      (hx : t.graph.findVariable? offset name = some x) :
      SpecifierStart t specifier v ⟨.variable x false, w, []⟩
  | whole {offset : Nat} {name x} (hx : t.graph.findVariable? offset name = some x) :
      SpecifierStart t specifier v ⟨.variable x false, v, []⟩

/-- Where a declaration of the module `v` begins, and what becomes of the matches. -/
inductive DeclarationStart (t : Tracer) (mode : Mode) (declaration : Site) (v : Traced ι) :
    {κ : Type} → FlowState κ → (Match → Option Match) → Prop where
  | read : DeclarationStart t mode declaration v ⟨.use .read declaration, v, []⟩ some
  | exportAll {exported source key w} (hf : declaration.node.form = .exportAll exported source)
      (hw : v.child? key = some w) :
      DeclarationStart t mode declaration v ⟨.use .read declaration, w, []⟩ some
  | esm {specifier s} (hesm : v.map.isEsm = true) (hs : SpecifierStart t specifier v s) :
      DeclarationStart t mode declaration v s some
  | wrapped {specifier s}
      (hf : ∀ exported source, declaration.node.form ≠ .exportAll exported source)
      (hesm : v.map.isEsm = false)
      (hs : SpecifierStart t specifier ⟨v.path, v.map.asDefaultExport (mode = .legacy)⟩ s) :
      DeclarationStart t mode declaration v s exceptDefault

/-- Where a strategy begins, and what becomes of the matches. -/
inductive Start (t : Tracer) (mode : Mode) (names : List Text) (m : TraceMap ι) :
    Strategy → {κ : Type} → FlowState κ → (Match → Option Match) → Prop where
  | global {key x child} (hchild : m.child? key = some child)
      (hx : t.graph.undeclared? key = some x) :
      Start t mode names m .globals ⟨.variable x true, ⟨[key], child⟩, []⟩ some
  | globalObject {name x} (hname : name ∈ names) (hx : t.graph.undeclared? name = some x) :
      Start t mode names m .globals ⟨.variable x false, ⟨[], m⟩, []⟩ some
  | requireRead {x r call key child} (hx : t.graph.undeclared? requireName = some x)
      (hr : r ∈ t.graph.referencesOf x) (hcall : r.mention.identifier.parent? = some call)
      (hchild : m.child? key = some child) :
      Start t mode names m .cjs ⟨.use .read call, ⟨[key], child⟩, []⟩ some
  | require {x r call key child} (hx : t.graph.undeclared? requireName = some x)
      (hr : r ∈ t.graph.referencesOf x) (hcall : r.mention.identifier.parent? = some call)
      (hchild : m.child? key = some child) :
      Start t mode names m .cjs ⟨.expression call, ⟨[key], child⟩, []⟩ some
  | declaration {declaration v} {κ : Type} {s : FlowState κ} {edit}
      (hdeclaration : declaration ∈ t.statements) (hv : moduleRoot? m declaration = .ok (some v))
      (hs : DeclarationStart t mode declaration v s edit) :
      Start t mode names m .esm s edit

/-! ## From a state to what is found -/

/-- Whether the variable at a place, if there is one, is a variable of the program. -/
def Knows (t : Tracer) : Place → Prop
  | .variable x _ => x ∈ t.graph.variableIds
  | _ => True

/-- Everything that tracing gives from a state. -/
def follow (t : Tracer) (s : FlowState κ) : Emission ConstantFault :=
  match s.place with
  | .variable x announced => t.enter s.via announced x s.value
  | .expression site => t.climb s.via (t.enter s.via false) site.above s.value
  | .pattern site => t.bind s.via (t.enter s.via false) site.above s.value site.node
  | .use use site => s.value.report use site s.via

/-- A match that a flow from a state comes to. -/
def Finds (t : Tracer) (s : FlowState κ) (found : Match) : Prop := ∃ a, t.Occurs s a (.ok found)

variable {t : Tracer}

theorem follow_lists {s : FlowState κ} (hs : t.Knows s.place) (hvia : s.via.Nodup) :
    Emission.Lists (t.Occurs s) (t.follow s) := by
  have henter : ∀ (y : VariableId) (w : Traced κ), y ∈ t.graph.variableIds →
      Emission.Lists (t.Occurs ⟨.variable y false, w, s.via⟩) (t.enter s.via false y w) :=
    fun _ w hy => enter_lists hvia false hy w
  match s with
  | ⟨.variable _ announced, v, _⟩ => exact enter_lists hvia announced hs v
  | ⟨.expression site, v, _⟩ => exact climb_lists hvia henter site.node site.above v
  | ⟨.pattern site, v, _⟩ => exact bind_lists hvia henter site.above v site.node
  | ⟨.use use site, v, _⟩ => exact report_lists hvia use site v

theorem finds_of_mem_follow {s : FlowState κ} (hs : t.Knows s.place) (hvia : s.via.Nodup)
    {found : Match} (h : found ∈ (t.follow s).found) : t.Finds s found :=
  (follow_lists hs hvia).occurs_of_mem h

theorem finds_of_mem_report {use : Use} {site : Site} {v : Traced κ} {found : Match}
    (h : found ∈ (v.report use site [] : Emission ConstantFault).found) :
    t.Finds ⟨.use use site, v, []⟩ found :=
  finds_of_mem_follow (s := ⟨.use use site, v, []⟩) trivial .nil h

theorem finds_of_mem_enter {x : VariableId} (hx : x ∈ t.graph.variableIds) {announced : Bool}
    {v : Traced κ} {found : Match} (h : found ∈ (t.enter [] announced x v).found) :
    t.Finds ⟨.variable x announced, v, []⟩ found :=
  finds_of_mem_follow (s := ⟨.variable x announced, v, []⟩) hx .nil h

theorem finds_of_mem_climb {s : Site} {v : Traced κ} {found : Match}
    (h : found ∈ (t.climb [] (t.enter [] false) s.above v).found) :
    t.Finds ⟨.expression s, v, []⟩ found :=
  finds_of_mem_follow (s := ⟨.expression s, v, []⟩) trivial .nil h

/-! ## Strategies -/

section Strategies

variable {mode : Mode} {names : List Text} {m : TraceMap ι} {found : Match}

theorem child?_nil {key : Text} {v : Traced ι} (h : Traced.child? ⟨[], m⟩ key = some v) :
    ∃ child, m.child? key = some child ∧ v = ⟨[key], child⟩ := by
  obtain ⟨child, hchild, rfl⟩ := Option.map_eq_some_iff.1 h
  exact ⟨child, hchild, rfl⟩

theorem mem_globalRoots {key : Text} {x : VariableId} {child : TraceMap ι} :
    (key, x, child) ∈ t.globalRoots m ↔ m.child? key = some child ∧
      t.graph.undeclared? key = some x := by
  simp only [globalRoots, List.mem_filterMap, Prod.exists, TraceMap.mem_children_iff,
    Option.map_eq_some_iff, Prod.mk.injEq]
  constructor
  · rintro ⟨_, _, hchild, _, hx, rfl, rfl, rfl⟩
    exact ⟨hchild, hx⟩
  · rintro ⟨hchild, hx⟩
    exact ⟨key, child, hchild, x, hx, rfl, rfl, rfl⟩

theorem mem_globalObjectRoots {name : Text} {x : VariableId} :
    (name, x) ∈ t.globalObjectRoots names ↔ name ∈ names ∧ t.graph.undeclared? name = some x := by
  simp only [globalObjectRoots, List.mem_filterMap, Option.map_eq_some_iff, Prod.mk.injEq]
  constructor
  · rintro ⟨_, hname, _, hx, rfl, rfl⟩
    exact ⟨hname, hx⟩
  · rintro ⟨hname, hx⟩
    exact ⟨name, hname, x, hx, rfl, rfl⟩

theorem start_of_mem_globalMatches (mode : Mode) (h : found ∈ (t.globalMatches names m).found) :
    ∃ s : FlowState ι, Start t mode names m .globals s some ∧ t.Finds s found := by
  rcases Emission.mem_found_append h with h | h
  · obtain ⟨⟨key, x, child⟩, hroot, hfound⟩ := Emission.mem_found_concatMap h
    obtain ⟨hchild, hx⟩ := mem_globalRoots.1 hroot
    exact ⟨_, .global hchild hx, finds_of_mem_enter (ScopeGraph.undeclared?_mem hx) hfound⟩
  · obtain ⟨⟨name, x⟩, hroot, hfound⟩ := Emission.mem_found_concatMap h
    obtain ⟨hname, hx⟩ := mem_globalObjectRoots.1 hroot
    exact ⟨_, .globalObject hname hx, finds_of_mem_enter (ScopeGraph.undeclared?_mem hx) hfound⟩

theorem start_of_mem_cjsMatches (mode : Mode) (names : List Text)
    (h : found ∈ (t.cjsMatches m).found) :
    ∃ s : FlowState ι, Start t mode names m .cjs s some ∧ t.Finds s found := by
  unfold cjsMatches at h
  split at h
  · cases h
  · rename_i x hx
    obtain ⟨r, hr, hfound⟩ := Emission.mem_found_concatMap h
    unfold requireMatches at hfound
    split at hfound
    · cases hfound
    · rename_i frame above habove
      have hcall : r.mention.identifier.parent? = some ⟨frame.parent, above⟩ := by
        simp [Site.parent?, habove]
      split at hfound
      · cases hfound
      · split at hfound
        · split at hfound
          · obtain ⟨key, -, hfound⟩ := Emission.mem_found_withValue hfound
            split at hfound
            · cases hfound
            · rename_i v hv
              obtain ⟨child, hchild, rfl⟩ := child?_nil hv
              rcases Emission.mem_found_append hfound with hfound | hfound
              · exact ⟨_, .requireRead hx hr hcall hchild, finds_of_mem_report hfound⟩
              · exact ⟨_, .require hx hr hcall hchild, finds_of_mem_climb hfound⟩
          · cases hfound
        · split at hfound <;> cases hfound

theorem start_of_mem_importBinding {specifier : Site} {binding : Node} {v w : Traced κ}
    (hw : w = v ∨ ∃ key, v.child? key = some w) (h : found ∈ (t.importBinding binding w).found) :
    ∃ s, SpecifierStart t specifier v s ∧ t.Finds s found := by
  unfold importBinding at h
  split at h
  · cases h
  · split at h
    · rename_i x hx
      have hfinds := finds_of_mem_enter (ScopeGraph.findVariable?_mem hx) h
      rcases hw with rfl | ⟨key, hw⟩
      · exact ⟨_, .whole hx, hfinds⟩
      · exact ⟨_, .named hw hx, hfinds⟩
    · cases h

theorem start_of_mem_specifierMatches {specifier : Site} {v : Traced κ}
    (h : found ∈ (t.specifierMatches specifier v).found) :
    ∃ s, SpecifierStart t specifier v s ∧ t.Finds s found := by
  have named : ∀ {key binding w}, v.child? key = some w →
      found ∈ (w.report .read specifier [] ++ t.importBinding binding w).found →
      ∃ s, SpecifierStart t specifier v s ∧ t.Finds s found := by
    intro key binding w hw h
    rcases Emission.mem_found_append h with h | h
    · exact ⟨_, .read hw, finds_of_mem_report h⟩
    · exact start_of_mem_importBinding (.inr ⟨key, hw⟩) h
  unfold specifierMatches at h
  split at h
  · obtain ⟨key, -, h⟩ := Emission.mem_found_withValue h
    dsimp only at h
    split at h
    · cases h
    · rename_i w hw
      exact named hw h
  · dsimp only at h
    split at h
    · cases h
    · rename_i w hw
      exact named hw h
  · exact start_of_mem_importBinding (.inl rfl) h
  · obtain ⟨key, -, h⟩ := Emission.mem_found_withValue h
    split at h
    · cases h
    · rename_i w hw
      exact ⟨_, .read hw, finds_of_mem_report h⟩
  · cases h

theorem start_of_mem_specifiersMatches {declaration : Site} {v : Traced κ}
    (h : found ∈ (t.specifiersMatches declaration v).found) :
    ∃ specifier s, SpecifierStart t specifier v s ∧ t.Finds s found := by
  obtain ⟨⟨n, i⟩, -, h⟩ := Emission.mem_found_concatMap h
  obtain ⟨s, hs⟩ := start_of_mem_specifierMatches h
  exact ⟨_, s, hs⟩

theorem start_of_mem_declarationMatches {declaration : Site} {v : Traced ι}
    (h : found ∈ (t.declarationMatches mode declaration v).found) :
    ∃ (κ : Type) (s : FlowState κ) (edit : Match → Option Match) (old : Match),
      DeclarationStart t mode declaration v s edit ∧ t.Finds s old ∧ edit old = some found := by
  rcases Emission.mem_found_append h with h | h
  · exact ⟨ι, _, some, found, .read, finds_of_mem_report h, rfl⟩
  · split at h
    · rename_i hf
      obtain ⟨⟨key, child⟩, hmem, h⟩ := Emission.mem_found_concatMap h
      have hw : v.child? key = some ⟨v.path ++ [key], child⟩ := by
        simp [Traced.child?, TraceMap.mem_children_iff.1 hmem]
      exact ⟨ι, _, some, found, .exportAll hf hw, finds_of_mem_report h, rfl⟩
    · rename_i hf
      split at h
      · rename_i hesm
        obtain ⟨specifier, s, hs, hfinds⟩ := start_of_mem_specifiersMatches h
        exact ⟨ι, s, some, found, .esm hesm hs, hfinds, rfl⟩
      · rename_i hesm
        obtain ⟨old, hold, hedit⟩ := Emission.mem_found_filterMap h
        obtain ⟨specifier, s, hs, hfinds⟩ := start_of_mem_specifiersMatches hold
        exact ⟨Option ι, s, exceptDefault, old,
          .wrapped (fun exported source h => hf exported source h) (by simpa using hesm) hs,
          hfinds, hedit⟩

/-- Every match of a strategy comes of a flow from one of the states in which the strategy
begins. -/
theorem start_of_mem_strategyMatches {strategy : Strategy}
    (h : found ∈ (t.strategyMatches mode names m strategy).found) :
    ∃ (κ : Type) (s : FlowState κ) (edit : Match → Option Match) (old : Match),
      Start t mode names m strategy s edit ∧ t.Finds s old ∧ edit old = some found := by
  cases strategy with
  | globals =>
    obtain ⟨s, hs, hfinds⟩ := start_of_mem_globalMatches mode h
    exact ⟨ι, s, some, found, hs, hfinds, rfl⟩
  | cjs =>
    obtain ⟨s, hs, hfinds⟩ := start_of_mem_cjsMatches mode names h
    exact ⟨ι, s, some, found, hs, hfinds, rfl⟩
  | esm =>
    obtain ⟨declaration, hdeclaration, h⟩ := Emission.mem_found_concatMap h
    obtain ⟨v, hv, h⟩ := Emission.mem_found_withValue h
    obtain ⟨κ, s, edit, old, hs, hfinds, hedit⟩ := start_of_mem_declarationMatches h
    exact ⟨κ, s, edit, old, .declaration hdeclaration hv hs, hfinds, hedit⟩

end Strategies

end ApiTrace.Tracer
