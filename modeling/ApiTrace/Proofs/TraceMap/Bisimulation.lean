import Mathlib.Data.List.Forall2
import ApiTrace.Proofs.TraceMap.Walk

/-!
# Maps that cannot be told apart

Two trace maps cannot be told apart by walking if their roots are related by a bisimulation: related
nodes report the same, have the same shape, and have children of the same names in the same order,
which are related again (`TraceMap.Bisimilar`). Whether nodes are shared, copied or lie on a cycle
plays no part.

`TraceMap.only` keeps one member of a map. Below that member the two maps cannot be told apart
(`TraceMap.bisimilar_only`).
-/

namespace ApiTrace

variable {ι κ : Type}

/-- A relation between the nodes of two maps under which related nodes say the same and have related
children. -/
structure IsBisimulation (f : ι → MapNode ι) (g : κ → MapNode κ) (R : ι → κ → Prop) : Prop where
  payload : ∀ {i j}, R i j → ∀ use, (f i).payload? use = (g j).payload? use
  isEsm : ∀ {i j}, R i j → (f i).isEsm = (g j).isEsm
  children : ∀ {i j}, R i j →
    List.Forall₂ (fun p q => p.1 = q.1 ∧ R p.2 q.2) (f i).children (g j).children

section Children

variable {R : ι → κ → Prop} {l : List (Text × ι)} {l' : List (Text × κ)}

theorem map_fst_of_forall₂ (h : List.Forall₂ (fun p q => p.1 = q.1 ∧ R p.2 q.2) l l') :
    l.map Prod.fst = l'.map Prod.fst := by
  induction h with
  | nil => rfl
  | cons hpq _ ih => rw [List.map_cons, List.map_cons, hpq.1, ih]

/-- Related lists of children have related children under each name, or none. -/
theorem lookup_of_forall₂ (h : List.Forall₂ (fun p q => p.1 = q.1 ∧ R p.2 q.2) l l') (key : Text) :
    (l.lookup key = none ∧ l'.lookup key = none) ∨
      ∃ i j, l.lookup key = some i ∧ l'.lookup key = some j ∧ R i j := by
  induction h with
  | nil => exact .inl ⟨rfl, rfl⟩
  | @cons p q _ _ hpq _ ih =>
    obtain ⟨name, i⟩ := p
    obtain ⟨name', j⟩ := q
    obtain ⟨rfl, hR⟩ := hpq
    simp only [List.lookup_cons]
    cases key == name with
    | true => exact .inr ⟨i, j, rfl, rfl, hR⟩
    | false => exact ih

theorem getD_lookup_of_forall₂ (h : List.Forall₂ (fun p q => p.1 = q.1 ∧ R p.2 q.2) l l') {i : ι}
    {j : κ} (hij : R i j) (key : Text) : R ((l.lookup key).getD i) ((l'.lookup key).getD j) := by
  rcases lookup_of_forall₂ h key with ⟨hl, hl'⟩ | ⟨i', j', hl, hl', hij'⟩
  · rw [hl, hl']
    exact hij
  · rw [hl, hl']
    exact hij'

theorem forall₂_filter_ne (h : List.Forall₂ (fun p q => p.1 = q.1 ∧ R p.2 q.2) l l') (name : Text) :
    List.Forall₂ (fun p q => p.1 = q.1 ∧ R p.2 q.2) (l.filter (·.1 ≠ name))
      (l'.filter (·.1 ≠ name)) := by
  refine List.rel_filter ?_ h
  rintro p q ⟨hname, -⟩
  simp [hname]

end Children

namespace TraceMap

/-- Whether two maps cannot be told apart. -/
def Bisimilar (m : TraceMap ι) (n : TraceMap κ) : Prop :=
  ∃ R, IsBisimulation m.node n.node R ∧ R m.root n.root

namespace Bisimilar

variable {m : TraceMap ι} {n : TraceMap κ}

theorem symm (h : m.Bisimilar n) : n.Bisimilar m := by
  obtain ⟨R, hR, hroot⟩ := h
  refine ⟨fun j i => R i j, ⟨?_, ?_, ?_⟩, hroot⟩
  · intro j i hij use
    exact (hR.payload hij use).symm
  · intro j i hij
    exact (hR.isEsm hij).symm
  · intro j i hij
    apply List.Forall₂.flip
    apply (hR.children hij).imp
    rintro p q ⟨hname, hchild⟩
    exact ⟨hname.symm, hchild⟩

theorem payload? (h : m.Bisimilar n) (use : Use) : m.payload? use = n.payload? use := by
  obtain ⟨R, hR, hroot⟩ := h
  exact hR.payload hroot use

theorem isEsm (h : m.Bisimilar n) : m.isEsm = n.isEsm := by
  obtain ⟨R, hR, hroot⟩ := h
  exact hR.isEsm hroot

theorem keys (h : m.Bisimilar n) : m.keys = n.keys := by
  obtain ⟨R, hR, hroot⟩ := h
  exact map_fst_of_forall₂ (hR.children hroot)

theorem child? (h : m.Bisimilar n) (key : Text) :
    (m.child? key = none ∧ n.child? key = none) ∨
      ∃ c d, m.child? key = some c ∧ n.child? key = some d ∧ c.Bisimilar d := by
  obtain ⟨R, hR, hroot⟩ := h
  rcases lookup_of_forall₂ (hR.children hroot) key with ⟨hm, hn⟩ | ⟨i, j, hm, hn, hij⟩
  · exact .inl ⟨Option.map_eq_none_iff.2 hm, Option.map_eq_none_iff.2 hn⟩
  · exact .inr ⟨m.focus i, n.focus j, Option.map_eq_some_iff.2 ⟨i, hm, rfl⟩,
      Option.map_eq_some_iff.2 ⟨j, hn, rfl⟩, R, hR, hij⟩

end Bisimilar

/-! ## Default exports -/

theorem Bisimilar.asDefaultExport {m : TraceMap ι} {n : TraceMap κ} (h : m.Bisimilar n)
    (legacy : Bool) : (m.asDefaultExport legacy).Bisimilar (n.asDefaultExport legacy) := by
  obtain ⟨R, hR, hroot⟩ := h
  have hchildren := hR.children hroot
  -- What a node is renamed to keeps its children related.
  have renamed : ∀ {l : List (Text × ι)} {l' : List (Text × κ)},
      List.Forall₂ (fun p q => p.1 = q.1 ∧ R p.2 q.2) l l' →
      List.Forall₂ (fun p q => p.1 = q.1 ∧ Option.Rel R p.2 q.2)
        (l.map fun p => (p.1, some p.2)) (l'.map fun p => (p.1, some p.2)) := by
    intro l l' hl
    rw [List.forall₂_map_left_iff, List.forall₂_map_right_iff]
    apply hl.imp
    rintro p q ⟨hname, hchild⟩
    exact ⟨hname, .some hchild⟩
  refine ⟨Option.Rel R, ⟨?_, ?_, ?_⟩, .none⟩
  · intro i j hij use
    cases hij with
    | some hij =>
      have hpayload := hR.payload hij use
      cases use <;> exact hpayload
    | none =>
      have hpayload := hR.payload hroot use
      cases legacy with
      | false => cases use <;> rfl
      | true => cases use <;> exact hpayload
  · intro i j hij
    cases hij with
    | some hij => exact hR.isEsm hij
    | none => cases legacy <;> rfl
  · intro i j hij
    cases hij with
    | some hij => exact renamed (hR.children hij)
    | none =>
      apply renamed
      cases legacy with
      | false => exact .cons ⟨rfl, hroot⟩ .nil
      | true =>
        exact .cons ⟨rfl, getD_lookup_of_forall₂ hchildren hroot defaultName⟩
          (forall₂_filter_ne hchildren defaultName)

/-- Below its new root the map of a module that is seen through its default export is what it
was. -/
theorem bisimilar_asDefaultExport (legacy : Bool) (m : TraceMap ι) (i : ι) :
    ((m.asDefaultExport legacy).focus (some i)).Bisimilar (m.focus i) := by
  refine ⟨fun o i => o = some i, ⟨?_, ?_, ?_⟩, rfl⟩
  · rintro _ i rfl use
    cases use <;> rfl
  · rintro _ i rfl
    rfl
  · rintro _ i rfl
    show List.Forall₂ _ ((m.node i).children.map fun p => (p.1, some p.2)) (m.node i).children
    rw [List.forall₂_map_left_iff, List.forall₂_same]
    intro p _
    exact ⟨rfl, rfl⟩

/-! ## One member of a map -/

/-- The map with one of its members only: a new root that has no other child. -/
def only (m : TraceMap ι) (key : Text) : TraceMap (Option ι) where
  root := none
  node
    | none => { m.rootNode with children := m.rootNode.children.filter (·.1 = key) }.map some
    | some i => (m.node i).map some

theorem lookup_filter_eq (key name : Text) (children : List (Text × ι)) :
    (children.filter (·.1 = key)).lookup name = if name = key then children.lookup key
      else none := by
  induction children with
  | nil => simp
  | cons child rest ih =>
    obtain ⟨other, child⟩ := child
    by_cases hother : other = key
    · subst hother
      rw [List.filter_cons_of_pos (by simp), List.lookup_cons, List.lookup_cons, ih]
      by_cases hname : name = other
      · simp [hname]
      · rw [beq_eq_false_iff_ne.2 hname]
        simp [hname]
    · have hkey : (key == other) = false := by simpa using fun h => hother h.symm
      rw [List.filter_cons_of_neg (by simpa using hother), ih, List.lookup_cons, hkey]

variable (m : TraceMap ι) (key : Text)

theorem keys_only : (m.only key).keys = m.keys.filter (· = key) := by
  show ((m.rootNode.children.filter (·.1 = key)).map _).map _ = _
  rw [List.map_map]
  exact (List.filter_map (p := (· = key)) (f := Prod.fst) (l := m.rootNode.children)).symm

/-- Below its one member the map is what it was. -/
theorem bisimilar_only (i : ι) : (m.focus i).Bisimilar ((m.only key).focus (some i)) := by
  refine ⟨fun i o => o = some i, ⟨?_, ?_, ?_⟩, rfl⟩
  · rintro i _ rfl use
    cases use <;> rfl
  · rintro i _ rfl
    rfl
  · rintro i _ rfl
    show List.Forall₂ _ (m.node i).children ((m.node i).children.map fun p => (p.1, some p.2))
    rw [List.forall₂_map_right_iff, List.forall₂_same]
    intro p _
    exact ⟨rfl, rfl⟩

theorem child?_only (name : Text) : (m.only key).child? name =
    if name = key then (m.child? key).map fun c => (m.only key).focus (some c.root) else none := by
  have hlookup : (m.only key).rootNode.children.lookup name =
      (if name = key then m.rootNode.children.lookup key else none).map some := by
    rw [← lookup_filter_eq, ← lookup_map]
    rfl
  rw [child?, child?, hlookup]
  split
  · rw [Option.map_map, Option.map_map]
    rfl
  · rfl

end TraceMap

end ApiTrace
