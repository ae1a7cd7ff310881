import ApiTrace.Proofs.Flow.Consistency
import ApiTrace.Proofs.Flow.Simulation

/-!
# CommonJS modules through imports

A module without the shape of an ECMAScript module is imported through a map with a default export,
and the name of the default export is taken out of the paths again. Nothing of this shows: what
an import of the default export finds is what is found when the imported variable is followed with
the map of the module itself (`Tracer.interop_is_direct_tracing`).

A value below the default export and the same value of the module differ in their paths alone
(`Traced.ThroughDefault`). So their flows have the same addresses, and the outcomes differ by the
name of the default export (`Tracer.occurs_throughDefault`). No match gets lost when short reads are
left out: a variable that an import binds is not announced, and after that a value is read only at
one of its properties (`Tracer.Flow.unread`).
-/

namespace ApiTrace

variable {ι κ : Type}

/-! ## Values below a default export -/

/-- Whether the first value is the second one, seen through the default export of the module
`id`. -/
def Traced.ThroughDefault (id : Text) (v : Traced κ) (w : Traced ι) : Prop :=
  v.map.Bisimilar w.map ∧ ∃ rest, v.path = id :: TraceMap.defaultName :: rest ∧ w.path = id :: rest

namespace Traced.ThroughDefault

variable {id : Text} {v : Traced κ} {w : Traced ι}

theorem child? (h : ThroughDefault id v w) (key : Text) :
    (v.child? key = none ∧ w.child? key = none) ∨
    ∃ v' w', v.child? key = some v' ∧ w.child? key = some w' ∧ ThroughDefault id v' w' := by
  obtain ⟨hmap, rest, hv, hw⟩ := h
  rcases hmap.child? key with ⟨hc, hd⟩ | ⟨c, d, hc, hd, hcd⟩
  · exact .inl ⟨Option.map_eq_none_iff.2 hc, Option.map_eq_none_iff.2 hd⟩
  · refine .inr ⟨⟨v.path ++ [key], c⟩, ⟨w.path ++ [key], d⟩, ?_, ?_, hcd, rest ++ [key], ?_, ?_⟩
    · exact Option.map_eq_some_iff.2 ⟨c, hc, rfl⟩
    · exact Option.map_eq_some_iff.2 ⟨d, hd, rfl⟩
    · rw [hv]
      rfl
    · rw [hw]
      rfl

theorem covers (id : Text) : Covers (ThroughDefault id : Traced κ → Traced ι → Prop) where
  payload h hentry := by rwa [← h.1.payload?]
  child := by
    intro v w key v' h hv
    rcases h.child? key with ⟨hnone, -⟩ | ⟨c, d, hc, hd, hcd⟩
    · rw [hnone] at hv
      cases hv
    · rw [hc] at hv
      cases hv
      exact ⟨d, hd, hcd⟩

theorem coversBack (id : Text) :
    Covers fun (w : Traced ι) (v : Traced κ) => ThroughDefault id v w where
  payload h hentry := by rwa [h.1.payload?]
  child := by
    intro w v key w' h hw
    rcases h.child? key with ⟨-, hnone⟩ | ⟨c, d, hc, hd, hcd⟩
    · rw [hnone] at hw
      cases hw
    · rw [hd] at hw
      cases hw
      exact ⟨c, hc, hcd⟩

end Traced.ThroughDefault

namespace Tracer

variable {t : Tracer}

/-! ## Values that are not announced -/

section Unread

variable {s s' : FlowState κ} {a : List Nat} {n length : Nat}

/-- Whether a value that came with a path of some length is read at its properties only: it is
announced nowhere, and where it is read its path has become longer. -/
def Unread (length : Nat) (s : FlowState κ) : Prop :=
  length ≤ s.value.path.length ∧
    match s.place with
    | .variable _ announced => announced = false
    | .use .read _ => length < s.value.path.length
    | _ => True

theorem length_lt_of_child? {v w : Traced κ} {key : Text} (h : v.child? key = some w) :
    v.path.length < w.path.length := by
  obtain ⟨c, -, rfl⟩ := Option.map_eq_some_iff.1 h
  simp

theorem Step.unread (h : t.Step s n s') (hs : Unread length s) : Unread length s' := by
  obtain ⟨hle, hplace⟩ := hs
  cases h with
  | announce => cases hplace
  | bind => exact ⟨hle, rfl⟩
  | readMember _ _ _ _ hw | readProperty _ _ _ hw =>
    have hlt := Nat.lt_of_le_of_lt hle (length_lt_of_child? hw)
    exact ⟨Nat.le_of_lt hlt, hlt⟩
  | member _ _ _ _ hw | property _ _ _ hw =>
    have hlt := Nat.lt_of_le_of_lt hle (length_lt_of_child? hw)
    exact ⟨Nat.le_of_lt hlt, trivial⟩
  | mention | pass | call | construct | assign | assigned | default | declare | left =>
    exact ⟨hle, trivial⟩

theorem Flow.unread (h : t.Flow s a s') (hs : Unread length s) : Unread length s' := by
  induction h with
  | here s => exact hs
  | step first _ ih => exact ih (first.unread hs)

end Unread

/-! ## Outcomes below a default export -/

section Outcomes

variable {id : Text} {s : FlowState κ} {w : Traced ι} {a : List Nat}
    {o : Except ConstantFault Match}

theorem exceptDefault_eq {found : Match} {rest : List Text}
    (hpath : found.path = id :: TraceMap.defaultName :: rest)
    (hread : found.use = .read → rest ≠ []) :
    exceptDefault found = some { found with path := id :: rest } := by
  have hshort : withoutDefault found.path = id :: rest := by
    rw [hpath]
    rfl
  have hkept : ¬ ((id :: rest).length < 2 ∧ found.use = .read) := by
    intro h
    cases rest with
    | nil => exact hread h.2 rfl
    | cons => exact absurd h.1 (by simp)
  rw [exceptDefault, hshort]
  exact if_neg hkept

/-- An outcome below the default export becomes, without the name of the default export, the outcome
of the module itself, if the value is not announced. -/
theorem Ends.throughDefault (h : t.Ends s a o) (hw : s.value.ThroughDefault id w)
    (hs : Unread 2 s) :
    Emission.editOutcome exceptDefault o = some
      (o.map fun found => { found with path := w.path }) := by
  obtain ⟨-, rest, hv, hpath⟩ := hw
  cases h with
  | @found use site v via entry hentry =>
    show (exceptDefault _).map _ = _
    rw [exceptDefault_eq hv, hpath]
    · rfl
    · intro huse
      subst huse
      have hlong : 2 < v.path.length := hs.2
      rw [hv] at hlong
      intro hnil
      simp [hnil] at hlong
  | fault => rfl

theorem occurs_throughDefault (hw : s.value.ThroughDefault id w) (hs : Unread 2 s) :
    t.Occurs (s.withValue w) a o ↔
      ∃ o', t.Occurs s a o' ∧ Emission.editOutcome exceptDefault o' = some o := by
  constructor
  · intro h
    obtain ⟨b, c, s₁, rfl, hflow, hnodup, hend⟩ := h
    obtain ⟨v', hv', hflow'⟩ := hflow.cover (Traced.ThroughDefault.coversBack id) hw
    have hend' := hend.cover (Traced.ThroughDefault.coversBack id) hv'
    refine ⟨_, ⟨b, c, s₁.withValue v', rfl, hflow', hnodup, hend'⟩, ?_⟩
    rw [hend'.throughDefault hv' (hflow'.unread hs)]
    cases hend <;> rfl
  · intro h
    obtain ⟨o', ⟨b, c, s₁, rfl, hflow, hnodup, hend⟩, hedit⟩ := h
    obtain ⟨w', hw', hflow'⟩ := hflow.cover (Traced.ThroughDefault.covers id) hw
    have hend' := hend.cover (Traced.ThroughDefault.covers id) hw'
    rw [hend.throughDefault hw' (hflow.unread hs)] at hedit
    cases hedit
    exact ⟨b, c, s₁.withValue w', rfl, hflow', hnodup, hend'⟩

/-- A variable that is bound below the default export gives what it gives when it is bound to the
module. -/
theorem enter_throughDefault {v : Traced κ} (h : v.ThroughDefault id w) {x : VariableId}
    (hx : x ∈ t.graph.variableIds) :
    (t.enter [] false x v).filterMap exceptDefault = t.enter [] false x w := by
  let s : FlowState κ := ⟨.variable x false, v, []⟩
  have hunread : Unread 2 s := by
    obtain ⟨-, rest, hpath, -⟩ := h
    refine ⟨?_, rfl⟩
    show 2 ≤ v.path.length
    rw [hpath]
    exact Nat.le_add_left 2 rest.length
  have hedited := (follow_lists (t := t) (s := s) hx .nil).filterMap exceptDefault
  have hdirect := follow_lists (t := t) (s := s.withValue w) hx .nil
  exact hedited.unique (hdirect.congr fun _ _ => occurs_throughDefault h hunread)

end Outcomes

/-! ## Imports -/

/-- Whether a specifier imports the export `key` of a module under the name that `binding`
writes. -/
inductive Imports (specifier : Site) (binding : Node) : Text → Prop where
  | default (hf : specifier.node.form = .importDefault binding) :
      Imports specifier binding TraceMap.defaultName
  | named {imported key} (hf : specifier.node.form = .importSpecifier imported binding)
      (hkey : exportName? imported = .ok (some key)) : Imports specifier binding key

/-- Whether the name that an import writes is the variable `x`. -/
def Binds (t : Tracer) (binding : Node) (x : VariableId) : Prop :=
  ∃ name, binding.form.identifierName? = some name ∧
    t.graph.findVariable? binding.start name = some x

theorem Binds.mem {binding : Node} {x : VariableId} (h : t.Binds binding x) :
    x ∈ t.graph.variableIds := by
  obtain ⟨_, -, hx⟩ := h
  exact ScopeGraph.findVariable?_mem hx

theorem Binds.importBinding {binding : Node} {x : VariableId} (h : t.Binds binding x)
    (v : Traced κ) :
    t.importBinding binding v = t.enter [] false x v := by
  obtain ⟨name, hname, hx⟩ := h
  simp only [Tracer.importBinding, hname, hx]

theorem Imports.specifierMatches {specifier : Site} {binding : Node} {key : Text}
    (h : Imports specifier binding key) (v : Traced κ) :
    t.specifierMatches specifier v = (v.child? key).elim .empty fun w =>
      w.report .read specifier [] ++ t.importBinding binding w := by
  cases h with
  | default hf =>
    simp only [Tracer.specifierMatches, hf]
    cases v.child? TraceMap.defaultName <;> rfl
  | named hf hkey =>
    simp only [Tracer.specifierMatches, hf, hkey, Emission.withValue]
    cases v.child? key <;> rfl

/-- Matches with another name in the second place are left as they are. -/
theorem filterMap_exceptDefault_of_ne {e : Emission ConstantFault} {id key : Text}
    (hkey : key ≠ TraceMap.defaultName)
    (h : ∀ found ∈ e.found, ∃ rest, found.path = [id, key] ++ rest) :
    e.filterMap exceptDefault = e := by
  apply Emission.filterMap_eq_self
  intro found hfound
  obtain ⟨rest, hpath⟩ := h found hfound
  have hsame : withoutDefault found.path = found.path := by
    rw [hpath]
    simp [withoutDefault, hkey]
  have hkept : ¬ (found.path.length < 2 ∧ found.use = .read) := by
    intro h
    exact absurd h.1 (by simp [hpath])
  rw [exceptDefault, hsame]
  exact if_neg hkept

section Interop

variable {id : Text} {m : TraceMap ι} {specifier : Site} {binding : Node} {x : VariableId}

/-- An import of the default export gives what the imported variable gives when it is bound to the
module. -/
theorem specifierMatches_default {legacy : Bool} (hm : m.ShowsDefault legacy)
    (himports : Imports specifier binding TraceMap.defaultName) (hbinds : t.Binds binding x) :
    (t.specifierMatches specifier ⟨[id], m.asDefaultExport legacy⟩).filterMap exceptDefault =
      t.enter [] false x ⟨[id], m⟩ := by
  let inside : Traced (Option ι) :=
    ⟨[id, TraceMap.defaultName], (m.asDefaultExport legacy).focus (some m.root)⟩
  have hchild : Traced.child? ⟨[id], m.asDefaultExport legacy⟩ TraceMap.defaultName = some
      inside := by
    simp only [Traced.child?, TraceMap.child?_asDefaultExport_default hm]
    rfl
  have hthrough : inside.ThroughDefault id ⟨[id], m⟩ :=
    ⟨TraceMap.bisimilar_asDefaultExport legacy m m.root, [], rfl, rfl⟩
  -- That the module is imported is a read with a path of one name, which is left out.
  have hread : (inside.report .read specifier [] : Emission ConstantFault).filterMap exceptDefault =
      .empty := by
    unfold Traced.report
    split
    · rfl
    · rfl
  rw [himports.specifierMatches, hchild]
  show (inside.report .read specifier [] ++ t.importBinding binding inside).filterMap
    exceptDefault = _
  rw [Emission.filterMap_append, hread, Emission.empty_append, hbinds.importBinding]
  exact enter_throughDefault hthrough hbinds.mem

/-- In the legacy form an import of another name gives what the module has under that name. -/
theorem specifierMatches_legacy {key : Text} {c : TraceMap ι} (hkey : key ≠ TraceMap.defaultName)
    (himports : Imports specifier binding key) (hbinds : t.Binds binding x)
    (hchild : m.child? key = some c) :
    (t.specifierMatches specifier ⟨[id], m.asDefaultExport true⟩).filterMap exceptDefault =
      Traced.report ⟨[id, key], c⟩ .read specifier [] ++ t.enter [] false x ⟨[id, key], c⟩ := by
  let inside : Traced (Option ι) := ⟨[id, key], (m.asDefaultExport true).focus (some c.root)⟩
  have halike : Traced.Alike ⟨[id, key], c⟩ inside := by
    obtain ⟨i, -, rfl⟩ := Option.map_eq_some_iff.1 hchild
    exact ⟨rfl, (TraceMap.bisimilar_asDefaultExport true m i).symm⟩
  rw [himports.specifierMatches, Traced.child?, TraceMap.child?_asDefaultExport_of_ne true m hkey,
    hchild]
  show (inside.report .read specifier [] ++ t.importBinding binding inside).filterMap
    exceptDefault = _
  rw [hbinds.importBinding, report_alike halike, enter_alike halike hbinds.mem]
  apply filterMap_exceptDefault_of_ne hkey
  intro found hfound
  rcases Emission.mem_found_append hfound with hfound | hfound
  · obtain ⟨rest, _, hpath, -⟩ := (finds_of_mem_report (t := t) hfound).below trivial
    exact ⟨rest, hpath⟩
  · obtain ⟨rest, _, hpath, -⟩ := (finds_of_mem_enter hbinds.mem hfound).below trivial
    exact ⟨rest, hpath⟩

end Interop

/-- **Imports of a CommonJS module are direct tracing.** An import of the default export, from a
module whose default export shows the whole module, finds what the imported variable finds when it
is followed with the map of the module, in the same order and under the same paths. An import of
another name finds nothing in the strict form. In the legacy form it finds what the module has under
that name: that it is imported, and what the variable finds. -/
theorem interop_is_direct_tracing (t : Tracer) (id : Text) (m : TraceMap ι) (specifier : Site)
    (binding : Node) :
    (∀ legacy x, m.ShowsDefault legacy → Imports specifier binding TraceMap.defaultName →
      t.Binds binding x →
        (t.specifierMatches specifier ⟨[id], m.asDefaultExport legacy⟩).filterMap exceptDefault =
          t.enter [] false x ⟨[id], m⟩) ∧
    ∀ key, key ≠ TraceMap.defaultName → Imports specifier binding key →
      (t.specifierMatches specifier ⟨[id], m.asDefaultExport false⟩).filterMap
        exceptDefault = .empty ∧
      (m.child? key = none →
        (t.specifierMatches specifier ⟨[id], m.asDefaultExport true⟩).filterMap
          exceptDefault = .empty) ∧
      ∀ c x, m.child? key = some c → t.Binds binding x →
        (t.specifierMatches specifier ⟨[id], m.asDefaultExport true⟩).filterMap exceptDefault =
          Traced.report ⟨[id, key], c⟩ .read specifier [] ++ t.enter [] false x ⟨[id, key], c⟩ := by
  constructor
  · intro legacy x hm himports hbinds
    exact specifierMatches_default hm himports hbinds
  · intro key hkey himports
    refine ⟨?_, ?_, ?_⟩
    · rw [himports.specifierMatches, Traced.child?, TraceMap.child?_asDefaultExport_of_ne
        false m hkey]
      rfl
    · intro hnone
      rw [himports.specifierMatches, Traced.child?, TraceMap.child?_asDefaultExport_of_ne
        true m hkey, hnone]
      rfl
    · intro c x hchild hbinds
      exact specifierMatches_legacy hkey himports hbinds hchild

/-- The name `m` that `moduleProgram` imports. -/
def importedName : Node := .mk ⟨7, 8, 1, 7⟩ (.identifier "m")

/-- The specifier of `import m`. -/
def defaultImport : Site := Site.root (.mk ⟨7, 8, 1, 7⟩ (.importDefault importedName))

/-- The specifier of `import { a as m }`. -/
def namedImport : Site :=
  Site.root (.mk ⟨7, 8, 1, 7⟩ (.importSpecifier (.mk ⟨7, 8, 1, 7⟩ (.identifier "a")) importedName))

theorem interop_is_direct_tracing_module :
    (moduleTracer.specifierMatches defaultImport
        ⟨["m"], (functionMap.focus 1).asDefaultExport true⟩).filterMap exceptDefault =
      moduleTracer.enter [] false ⟨1, "m"⟩ ⟨["m"], functionMap.focus 1⟩ ∧
    (moduleTracer.enter [] false ⟨1, "m"⟩ ⟨["m"], functionMap.focus 1⟩).found.length = 1 ∧
    (moduleTracer.specifierMatches namedImport
        ⟨["m"], (functionMap.focus 1).asDefaultExport false⟩).filterMap exceptDefault = .empty ∧
    (moduleTracer.specifierMatches namedImport
        ⟨["m"], (functionMap.focus 1).asDefaultExport true⟩).filterMap exceptDefault =
      Traced.report ⟨["m", "a"], functionMap.focus 2⟩ .read namedImport [] ++
        moduleTracer.enter [] false ⟨1, "m"⟩ ⟨["m", "a"], functionMap.focus 2⟩ := by
  have hbinds : moduleTracer.Binds importedName ⟨1, "m"⟩ := ⟨"m", rfl, rfl⟩
  obtain ⟨hdefault, -⟩ :=
    interop_is_direct_tracing moduleTracer "m" (functionMap.focus 1) defaultImport importedName
  obtain ⟨-, hnamed⟩ :=
    interop_is_direct_tracing moduleTracer "m" (functionMap.focus 1) namedImport importedName
  obtain ⟨hstrict, -, hlegacy⟩ := hnamed "a" (by decide) (.named rfl rfl)
  refine ⟨hdefault true ⟨1, "m"⟩ (.inr rfl) (.default rfl) hbinds, ?_, hstrict,
    hlegacy (functionMap.focus 2) ⟨1, "m"⟩ rfl hbinds⟩
  rw [enter, dif_pos (by decide)]
  rfl

end Tracer

end ApiTrace
