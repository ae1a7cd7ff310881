import ApiTrace.Proofs.TraceMap.Bisimulation

/-!
# Maps that say more

A trace map is below another one (`TraceMap.Below`) if the other one says all that it says: the
entries that it reports are reported there, and its properties are properties there, in the same
order, with maps that are below in turn. The other map may have more entries and more properties,
between the old ones too.

Seen through its default export a map stays below (`TraceMap.Below.asDefaultExport`), unless the
other one has a property `default` of its own that takes the place of the default export.
-/

namespace ApiTrace

variable {ι κ : Type} {R : ι → κ → Prop}

/-! ## Children -/

/-- Whether children are among other children: under the same names, in the same order, and
related. -/
structure Among (R : ι → κ → Prop) (l : List (Text × ι)) (l' : List (Text × κ)) : Prop where
  names : (l.map Prod.fst).Sublist (l'.map Prod.fst)
  lookup : ∀ {name i}, l.lookup name = some i → ∃ j, l'.lookup name = some j ∧ R i j

theorem Among.map_some {l : List (Text × ι)} {l' : List (Text × κ)} (h : Among R l l') :
    Among (Option.Rel R) (l.map fun (name, child) => (name, some child))
      (l'.map fun (name, child) => (name, some child)) := by
  constructor
  · rw [List.map_map, List.map_map]
    exact h.names
  · intro name o ho
    rw [lookup_map] at ho
    obtain ⟨i, hi, rfl⟩ := Option.map_eq_some_iff.1 ho
    obtain ⟨j, hj, hij⟩ := h.lookup hi
    refine ⟨some j, ?_, .some hij⟩
    rw [lookup_map, hj]
    rfl

/-- The default exports of two modules, and with them all other exports of the legacy form. -/
theorem Among.exportNode {f : MapNode ι} {g : MapNode κ} (h : Among R f.children g.children)
    {i : ι} {j : κ} (hij : R i j) {legacy : Bool}
    (hdefault : legacy = true → f.children.lookup TraceMap.defaultName = none →
      g.children.lookup TraceMap.defaultName = none) :
    Among R (TraceMap.exportNode legacy i f).children
      (TraceMap.exportNode legacy j g).children := by
  cases legacy with
  | false =>
    show Among R [(TraceMap.defaultName, i)] [(TraceMap.defaultName, j)]
    refine ⟨List.Sublist.refl _, ?_⟩
    intro name c hc
    simp only [List.lookup_cons] at hc ⊢
    split at hc
    · cases hc
      exact ⟨j, rfl, hij⟩
    · cases hc
  | true =>
    show Among R
      ((TraceMap.defaultName, (f.children.lookup TraceMap.defaultName).getD i) ::
        f.children.filter (·.1 ≠ TraceMap.defaultName))
      ((TraceMap.defaultName, (g.children.lookup TraceMap.defaultName).getD j) ::
        g.children.filter (·.1 ≠ TraceMap.defaultName))
    constructor
    · have hnames : ∀ {κ : Type} (l : List (Text × κ)),
          (l.filter (·.1 ≠ TraceMap.defaultName)).map Prod.fst =
            (l.map Prod.fst).filter (· ≠ TraceMap.defaultName) := by
        intro κ l
        rw [List.filter_map]
        rfl
      rw [List.map_cons, List.map_cons, hnames, hnames]
      exact (h.names.filter _).cons_cons _
    · intro name c hc
      rw [List.lookup_cons] at hc ⊢
      by_cases hname : name = TraceMap.defaultName
      · rw [beq_iff_eq.2 hname] at hc ⊢
        cases hc
        refine ⟨_, rfl, ?_⟩
        cases hf : f.children.lookup TraceMap.defaultName with
        | none =>
          rw [hdefault rfl hf]
          exact hij
        | some c =>
          obtain ⟨d, hd, hcd⟩ := h.lookup hf
          rw [hd]
          exact hcd
      · rw [beq_eq_false_iff_ne.2 hname] at hc ⊢
        dsimp only at hc ⊢
        rw [lookup_filter_ne hname] at hc ⊢
        exact h.lookup hc

/-! ## Maps -/

/-- A relation between the nodes of two maps under which the second node says all that the first
says. -/
structure IsExtension (f : ι → MapNode ι) (g : κ → MapNode κ) (R : ι → κ → Prop) : Prop where
  payload : ∀ {i j}, R i j → ∀ {use entry}, (f i).payload? use = some entry →
    (g j).payload? use = some entry
  isEsm : ∀ {i j}, R i j → (f i).isEsm = (g j).isEsm
  children : ∀ {i j}, R i j → Among R (f i).children (g j).children

namespace TraceMap

/-- Whether the second map says all that the first says. -/
def Below (m : TraceMap ι) (n : TraceMap κ) : Prop :=
  ∃ R, IsExtension m.node n.node R ∧ R m.root n.root

/-- Whether the second map has a property `default` only if the first has one. -/
def KeepsDefault (m : TraceMap ι) (n : TraceMap κ) : Prop :=
  m.child? defaultName = none → n.child? defaultName = none

/-- Whether no member of the second map has a property `default` that the member of the first map
has not, those members aside that have the shape of an ECMAScript module. -/
def MembersKeepDefault (m : TraceMap ι) (n : TraceMap κ) : Prop :=
  ∀ name c d, m.child? name = some c → n.child? name = some d → d.isEsm = false → c.KeepsDefault d

theorem MembersKeepDefault.refl (m : TraceMap ι) : m.MembersKeepDefault m := by
  intro name c d hc hd _ hnone
  rw [hc] at hd
  rwa [← Option.some.inj hd]

namespace Below

variable {m : TraceMap ι} {n : TraceMap κ}

theorem refl (m : TraceMap ι) : m.Below m := by
  refine ⟨Eq, ⟨?_, ?_, ?_⟩, rfl⟩
  · rintro i _ rfl use entry hentry
    exact hentry
  · rintro i _ rfl
    rfl
  · rintro i _ rfl
    exact ⟨.refl _, fun hc => ⟨_, hc, rfl⟩⟩

theorem payload? (h : m.Below n) {use : Use} {entry : Json} (hentry : m.payload? use = some entry) :
    n.payload? use = some entry := by
  obtain ⟨R, hR, hroot⟩ := h
  exact hR.payload hroot hentry

theorem isEsm (h : m.Below n) : m.isEsm = n.isEsm := by
  obtain ⟨R, hR, hroot⟩ := h
  exact hR.isEsm hroot

theorem keys (h : m.Below n) : m.keys.Sublist n.keys := by
  obtain ⟨R, hR, hroot⟩ := h
  exact (hR.children hroot).names

theorem child? (h : m.Below n) {name : Text} {c : TraceMap ι} (hc : m.child? name = some c) :
    ∃ d, n.child? name = some d ∧ c.Below d := by
  obtain ⟨R, hR, hroot⟩ := h
  obtain ⟨i, hi, rfl⟩ := Option.map_eq_some_iff.1 hc
  obtain ⟨j, hj, hij⟩ := (hR.children hroot).lookup hi
  exact ⟨n.focus j, Option.map_eq_some_iff.2 ⟨j, hj, rfl⟩, R, hR, hij⟩

/-- Two modules that are seen through their default exports, if the new root of the second says all
that the new root of the first says. -/
theorem of_exportNode (hR : IsExtension m.node n.node R) {legacy legacy' : Bool}
    (hpayload : ∀ use entry, (exportNode legacy m.root m.rootNode).payload? use = some entry →
      (exportNode legacy' n.root n.rootNode).payload? use = some entry)
    (hchildren : Among R (exportNode legacy m.root m.rootNode).children
      (exportNode legacy' n.root n.rootNode).children) :
    (m.asDefaultExport legacy).Below (n.asDefaultExport legacy') := by
  -- The new roots stand beside each other, and all other nodes are those of the two maps.
  refine ⟨Option.Rel R, ⟨?_, ?_, ?_⟩, .none⟩
  · intro i j hij use entry hentry
    cases hij with
    | @some i j hij =>
      have hpayload : (m.node i).payload? use = some entry → (n.node j).payload? use = some entry :=
        hR.payload hij
      cases use <;> exact hpayload hentry
    | none =>
      replace hpayload := hpayload use entry
      cases use <;> exact hpayload hentry
  · intro i j hij
    cases hij with
    | some hij => exact hR.isEsm hij
    | none => cases legacy <;> cases legacy' <;> rfl
  · intro i j hij
    cases hij with
    | some hij => exact (hR.children hij).map_some
    | none => exact hchildren.map_some

theorem asDefaultExport (h : m.Below n) {legacy : Bool}
    (hdefault : legacy = true → m.KeepsDefault n) :
    (m.asDefaultExport legacy).Below (n.asDefaultExport legacy) := by
  obtain ⟨R, hR, hroot⟩ := h
  refine of_exportNode hR (fun use entry hentry => ?_) ((hR.children hroot).exportNode hroot ?_)
  · have hpayload : m.payload? use = some entry → n.payload? use = some entry := hR.payload hroot
    cases legacy with
    | false => cases use <;> cases hentry
    | true => cases use <;> exact hpayload hentry
  · intro hlegacy hm
    exact Option.map_eq_none_iff.1 (hdefault hlegacy (Option.map_eq_none_iff.2 hm))

end Below

end TraceMap

end ApiTrace
