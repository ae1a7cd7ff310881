import ApiTrace.TraceMap.Basic

/-!
# Walks through a trace map

A property path leads from the root of a trace map to one of its nodes, or to none
(`TraceMap.walk?`). The map of a module that is seen through its default export has a new root;
below the default export, and in the legacy form also below the other names, the walks are those of
the map itself (`TraceMap.walk?_asDefaultExport`).
-/

namespace ApiTrace

variable {ι κ : Type}

theorem lookup_map (f : ι → κ) (key : Text) (children : List (Text × ι)) :
    (children.map fun (name, child) => (name, f child)).lookup key =
      (children.lookup key).map f := by
  induction children with
  | nil => rfl
  | cons child rest ih =>
    obtain ⟨name, child⟩ := child
    simp only [List.map_cons, List.lookup_cons, ih]
    split <;> rfl

theorem lookup_filter_ne {key name : Text} (h : key ≠ name) (children : List (Text × ι)) :
    (children.filter (·.1 ≠ name)).lookup key = children.lookup key := by
  induction children with
  | nil => rfl
  | cons child rest ih =>
    obtain ⟨other, child⟩ := child
    by_cases hother : other = name
    · subst hother
      have hkey : (key == other) = false := by simpa using h
      rw [List.filter_cons_of_neg (by simp), ih, List.lookup_cons, hkey]
    · rw [List.filter_cons_of_pos (by simpa using hother), List.lookup_cons, List.lookup_cons, ih]

namespace TraceMap

/-- The map looked at from the node that a property path leads to. -/
def walk? (m : TraceMap ι) : List Text → Option (TraceMap ι)
  | [] => some m
  | key :: path => (m.child? key).bind fun c => c.walk? path

@[simp] theorem walk?_nil (m : TraceMap ι) : m.walk? [] = some m := rfl

theorem walk?_append (m : TraceMap ι) (p q : List Text) :
    m.walk? (p ++ q) = (m.walk? p).bind fun c => c.walk? q := by
  induction p generalizing m with
  | nil => rfl
  | cons key path ih =>
    simp only [List.cons_append, walk?]
    cases m.child? key with
    | none => rfl
    | some c => exact ih c

/-- A walk goes to another node of the same map. -/
theorem eq_focus_of_walk? {m n : TraceMap ι} {path : List Text} (h : m.walk? path = some n) :
    n = m.focus n.root := by
  induction path generalizing m with
  | nil =>
    cases h
    rfl
  | cons key path ih =>
    obtain ⟨c, hc, hn⟩ := Option.bind_eq_some_iff.1 h
    obtain ⟨i, -, rfl⟩ := Option.map_eq_some_iff.1 hc
    show n = (m.focus i).focus n.root
    exact ih hn

theorem mem_children_iff {m c : TraceMap ι} {key : Text} :
    (key, c) ∈ m.children ↔ m.child? key = some c := by
  simp only [children, List.mem_filterMap, Option.map_eq_some_iff, Prod.mk.injEq]
  constructor
  · rintro ⟨name, -, c', hc', rfl, rfl⟩
    exact hc'
  · intro hc
    refine ⟨key, ?_, c, hc, rfl, rfl⟩
    obtain ⟨i, hi, -⟩ := Option.map_eq_some_iff.1 hc
    obtain ⟨l₁, l₂, hl, -⟩ := List.lookup_eq_some_iff.1 hi
    simp [keys, hl]

/-! ## Walks below a default export -/

section DefaultExport

variable (legacy : Bool) (m : TraceMap ι)

theorem child?_asDefaultExport_some (i : ι) (key : Text) :
    ((m.asDefaultExport legacy).focus (some i)).child? key =
      ((m.focus i).child? key).map fun c => (m.asDefaultExport legacy).focus (some c.root) := by
  have hchildren : ((m.asDefaultExport legacy).focus (some i)).rootNode.children =
      (m.node i).children.map fun (name, child) => (name, some child) := rfl
  rw [child?, hchildren, lookup_map]
  cases h : (m.node i).children.lookup key <;> simp [child?, rootNode, focus, h]

theorem payload?_asDefaultExport_some (i : ι) (use : Use) :
    ((m.asDefaultExport legacy).focus (some i)).payload? use = (m.focus i).payload? use := by
  cases use <;> rfl

theorem walk?_asDefaultExport_some (i : ι) (path : List Text) :
    ((m.asDefaultExport legacy).focus (some i)).walk? path =
      ((m.focus i).walk? path).map fun c => (m.asDefaultExport legacy).focus (some c.root) := by
  induction path generalizing i with
  | nil => rfl
  | cons key path ih =>
    simp only [walk?, child?_asDefaultExport_some]
    cases h : (m.focus i).child? key with
    | none => rfl
    | some c =>
      obtain ⟨j, -, rfl⟩ := Option.map_eq_some_iff.1 h
      exact ih j

end DefaultExport

/-- Whether the default export of a module shows the whole map of the module: it does in the strict
form, and in the legacy form if there is no property that takes its place. -/
def ShowsDefault (legacy : Bool) (m : TraceMap ι) : Prop :=
  legacy = false ∨ m.child? defaultName = none

/-- A step from the new root leads to the old root, by the default export, or, in the legacy form
only, to what is below the old root by that step. -/
theorem child?_asDefaultExport {legacy : Bool} {m : TraceMap ι} (hm : m.ShowsDefault legacy)
    {key : Text} {c : TraceMap (Option ι)} (h : (m.asDefaultExport legacy).child? key = some c) :
    (key = defaultName ∧ c = (m.asDefaultExport legacy).focus (some m.root)) ∨
      key ≠ defaultName ∧ ∃ d, m.child? key = some d ∧
        c = (m.asDefaultExport legacy).focus (some d.root) := by
  obtain ⟨o, ho, rfl⟩ := Option.map_eq_some_iff.1 h
  have hchildren : (m.asDefaultExport legacy).rootNode.children =
      (exportNode legacy m.root m.rootNode).children.map fun (name, child) =>
        (name, some child) := rfl
  rw [hchildren, lookup_map] at ho
  obtain ⟨i, hi, rfl⟩ := Option.map_eq_some_iff.1 ho
  cases legacy with
  | false =>
    simp only [exportNode, Bool.false_eq_true, if_false, MapNode.ofChildren,
      List.lookup_cons, List.lookup_nil] at hi
    split at hi
    · rename_i hkey
      cases hi
      exact .inl ⟨by simpa using hkey, rfl⟩
    · cases hi
  | true =>
    have hnone : m.rootNode.children.lookup defaultName = none := by
      rcases hm with hfalse | hchild
      · cases hfalse
      · exact Option.map_eq_none_iff.1 hchild
    simp only [exportNode, if_true, hnone, Option.getD_none, List.lookup_cons] at hi
    split at hi
    · rename_i hkey
      cases hi
      exact .inl ⟨by simpa using hkey, rfl⟩
    · rename_i hkey
      have hkey : key ≠ defaultName := by simpa using hkey
      rw [lookup_filter_ne hkey] at hi
      exact .inr ⟨hkey, m.focus i, by simp [child?, hi], rfl⟩

theorem child?_asDefaultExport_default {legacy : Bool} {m : TraceMap ι}
    (hm : m.ShowsDefault legacy) :
    (m.asDefaultExport legacy).child? defaultName =
      some ((m.asDefaultExport legacy).focus (some m.root)) := by
  have hlookup : (exportNode legacy m.root m.rootNode).children.lookup defaultName = some
      m.root := by
    cases legacy with
    | false => rfl
    | true =>
      have hnone : m.rootNode.children.lookup defaultName = none := by
        rcases hm with hfalse | hchild
        · cases hfalse
        · exact Option.map_eq_none_iff.1 hchild
      simp [exportNode, hnone]
  show (((exportNode legacy m.root m.rootNode).children.map _).lookup defaultName).map _ = _
  rw [lookup_map, hlookup]
  rfl

/-- By another name than that of the default export only the legacy form has what the map has. -/
theorem child?_asDefaultExport_of_ne (legacy : Bool) (m : TraceMap ι) {key : Text}
    (hkey : key ≠ defaultName) : (m.asDefaultExport legacy).child? key =
      if legacy then (m.child? key).map fun c => (m.asDefaultExport legacy).focus (some c.root)
      else none := by
  have hbeq : (key == defaultName) = false := by simpa using hkey
  show (((exportNode legacy m.root m.rootNode).children.map _).lookup key).map _ = _
  rw [lookup_map]
  cases legacy with
  | false => simp [exportNode, MapNode.ofChildren, List.lookup_cons, hbeq]
  | true =>
    simp only [exportNode, if_true, List.lookup_cons, hbeq, lookup_filter_ne hkey, child?,
      Option.map_map]
    rfl

theorem payload?_asDefaultExport {legacy : Bool} {m : TraceMap ι} {use : Use} {entry : Json}
    (h : (m.asDefaultExport legacy).payload? use = some entry) : m.payload? use = some entry := by
  cases legacy with
  | false => cases use <;> cases h
  | true =>
    rw [← h]
    cases use <;> rfl

/-- What is found at a path through the default export is found, without the first `default` of the
path, in the map itself. -/
theorem walk?_asDefaultExport {legacy : Bool} {m : TraceMap ι} (hm : m.ShowsDefault legacy)
    {path : List Text} {n : TraceMap (Option ι)} {use : Use} {entry : Json}
    (hn : (m.asDefaultExport legacy).walk? path = some n) (hentry : n.payload? use = some entry) :
    ∃ d, m.walk? (if path.head? = some defaultName then path.tail else path) = some d ∧
      d.payload? use = some entry := by
  cases path with
  | nil =>
    cases hn
    exact ⟨m, rfl, payload?_asDefaultExport hentry⟩
  | cons key rest =>
    obtain ⟨c, hc, hwalk⟩ := Option.bind_eq_some_iff.1 hn
    -- Either way the rest of the walk is one in the map itself, from some node of it.
    have below : ∀ {i : ι}, c = (m.asDefaultExport legacy).focus (some i) →
        ∃ d, (m.focus i).walk? rest = some d ∧ d.payload? use = some entry := by
      rintro i rfl
      rw [walk?_asDefaultExport_some] at hwalk
      obtain ⟨d, hd, rfl⟩ := Option.map_eq_some_iff.1 hwalk
      rw [payload?_asDefaultExport_some] at hentry
      refine ⟨d, hd, ?_⟩
      rw [eq_focus_of_walk? hd]
      exact hentry
    rcases child?_asDefaultExport hm hc with ⟨rfl, hroot⟩ | ⟨hkey, d, hd, hchild⟩
    · rw [List.head?_cons, if_pos rfl, List.tail_cons]
      exact below hroot
    · obtain ⟨e, he, hpayload⟩ := below hchild
      obtain ⟨i, -, rfl⟩ := Option.map_eq_some_iff.1 hd
      refine ⟨e, ?_, hpayload⟩
      simp only [List.head?_cons, Option.some.injEq, hkey, if_false, walk?, hd, Option.bind_some]
      exact he

end TraceMap

end ApiTrace
