import ApiTrace.Proofs.TraceMap.Bisimulation
import ApiTrace.TraceMap.Outline

/-!
# Copies of outlines

A cell of an outline that is used in several places can be written out once for each of them. The
result has more cells, each of which is a copy of one cell of the outline, and copies lead to copies
(`Outline.IsCopy`). Nothing is said about how many copies of a cell there are, so an outline with
one cell for every place is a copy, and so is the outline itself.

A copy of an outline that makes sense makes sense, and the two maps cannot be told apart
(`Outline.IsCopy.toMap`). The search for faults looks at every cell once, while a copy may have a
cell twice. Therefore `Outline.firstFault?_eq_none_iff` says without any order of search when there
is no fault: some set of cells holds all that is looked at and is not left by any entry in it.
-/

namespace ApiTrace.Outline

/-! ## Outlines without faults -/

/-- Whether an entry means something, and leads to one of some cells if it leads to a cell. -/
def Entry.StaysIn (cells : Nat → Prop) : Entry → Prop
  | .payload .. | .esm => True
  | .child _ (.cell i) => cells i
  | .child _ (.plain _) | .unsupported _ => False

theorem Entry.StaysIn.mono {cells cells' : Nat → Prop} (hcells : ∀ i, cells i → cells' i)
    {entry : Entry} (h : entry.StaysIn cells) : entry.StaysIn cells' := by
  cases entry with
  | payload | esm => trivial
  | unsupported => exact h.elim
  | child name value =>
    cases value with
    | cell i => exact hcells i h
    | plain value => exact h.elim

/-- The cells hold those that have been looked at and those that some entries lead to, and the
entries of the others stay in them. -/
structure Explored (o : Outline) (seen : List Nat) (entries : List Entry) (cells : Nat → Prop) :
    Prop where
  holdsSeen : ∀ i ∈ seen, cells i
  staysIn : ∀ entry ∈ entries, entry.StaysIn cells
  drafts : ∀ i, cells i → i ∉ seen → ∀ draft, o.cells[i]? = some (.draft draft) →
    ∀ entry ∈ draft, entry.StaysIn cells

variable {o : Outline} {seen : List Nat} {entries : List Entry} {cells : Nat → Prop} {i : Nat}

namespace Explored

theorem tail {entry : Entry} (h : o.Explored seen (entry :: entries) cells) :
    o.Explored seen entries cells :=
  ⟨h.holdsSeen, (List.forall_mem_cons.1 h.staysIn).2, h.drafts⟩

theorem cons {entry : Entry} (h : o.Explored seen entries cells) (hentry : entry.StaysIn cells) :
    o.Explored seen (entry :: entries) cells :=
  ⟨h.holdsSeen, List.forall_mem_cons.2 ⟨hentry, h.staysIn⟩, h.drafts⟩

/-- A cell without entries to look at can be added. -/
theorem add (h : o.Explored seen entries cells) (hi : ∀ draft, o.cells[i]? ≠ some (.draft draft)) :
    o.Explored seen entries fun j => cells j ∨ j = i := by
  have mono : ∀ {entry : Entry}, entry.StaysIn cells → entry.StaysIn fun j => cells j ∨ j = i :=
    fun hentry => hentry.mono fun j hj => .inl hj
  refine ⟨fun j hj => .inl (h.holdsSeen j hj), fun entry hentry =>
    mono (h.staysIn entry hentry), ?_⟩
  rintro j (hj | rfl) hseen draft hdraft entry hentry
  · exact mono (h.drafts j hj hseen draft hdraft entry hentry)
  · exact absurd hdraft (hi draft)

/-- Looking at a cell is looking at its entries before the others. -/
theorem look {name : Text} {draft : List Entry} (hi : o.cells[i]? = some (.draft draft))
    (hseen : i ∉ seen) : o.Explored seen (.child name (.cell i) :: entries) cells ↔
      o.Explored (i :: seen) (draft ++ entries) cells := by
  constructor
  · intro h
    obtain ⟨hcell, hentries⟩ := List.forall_mem_cons.1 h.staysIn
    refine ⟨List.forall_mem_cons.2 ⟨hcell, h.holdsSeen⟩, ?_, ?_⟩
    · exact List.forall_mem_append.2 ⟨h.drafts i hcell hseen draft hi, hentries⟩
    · intro j hj hjseen
      exact h.drafts j hj fun hmem => hjseen (List.mem_cons_of_mem i hmem)
  · intro h
    obtain ⟨hcell, hsaw⟩ := List.forall_mem_cons.1 h.holdsSeen
    obtain ⟨hdraft, hentries⟩ := List.forall_mem_append.1 h.staysIn
    refine ⟨hsaw, List.forall_mem_cons.2 ⟨hcell, hentries⟩, ?_⟩
    intro j hj hjseen draft' hdraft'
    by_cases hji : j = i
    · subst hji
      rw [hi] at hdraft'
      cases hdraft'
      exact hdraft
    · exact h.drafts j hj (by simp [hji, hjseen]) draft' hdraft'

end Explored

/-- The search for faults finds none exactly if what it looks at stays in cells that no entry
leaves. -/
theorem firstFault?_eq_none_iff :
    o.firstFault? seen entries = none ↔ ∃ cells, o.Explored seen entries cells := by
  fun_induction Outline.firstFault? o seen entries with
  | case1 seen =>
    refine iff_of_true rfl ⟨(· ∈ seen), fun i hi => hi, by simp, ?_⟩
    intro i hi hseen
    exact absurd hi hseen
  | case2 seen use value rest ih | case3 seen rest ih =>
    rw [ih]
    exact exists_congr fun cells => ⟨fun h => h.cons trivial, fun h => h.tail⟩
  | case4 seen key rest | case5 seen name value rest =>
    refine iff_of_false (by simp) ?_
    rintro ⟨cells, h⟩
    exact h.staysIn _ List.mem_cons_self
  | case6 seen name i rest hi draft hdraft ih =>
    have hcell : o.cells[i]? = some (.draft draft) := by rw [List.getElem?_eq_getElem hi.1, hdraft]
    rw [ih]
    exact exists_congr fun cells => (Explored.look hcell hi.2).symm
  | case7 seen name i rest hi node hnode ih =>
    have hcell : ∀ draft, o.cells[i]? ≠ some (.draft draft) := by
      intro draft
      rw [List.getElem?_eq_getElem hi.1, hnode]
      simp
    rw [ih]
    exact ⟨fun ⟨cells, h⟩ => ⟨_, (h.add hcell).cons (.inr rfl)⟩, fun ⟨cells, h⟩ => ⟨cells, h.tail⟩⟩
  | case8 seen name i rest hi ih =>
    rw [ih]
    refine ⟨fun ⟨cells, h⟩ => ?_, fun ⟨cells, h⟩ => ⟨cells, h.tail⟩⟩
    by_cases hseen : i ∈ seen
    · exact ⟨cells, h.cons (h.holdsSeen i hseen)⟩
    · -- There is no cell of this number.
      have hcell : ∀ draft, o.cells[i]? ≠ some (.draft draft) := by
        intro draft
        rw [List.getElem?_eq_none (Nat.le_of_not_lt fun hlt => hi ⟨hlt, hseen⟩)]
        simp
      exact ⟨_, (h.add hcell).cons (.inr rfl)⟩

/-! ## Copies -/

/-- A value with other numbers for its cells. -/
def Value.rename (f : Nat → Nat) : Value → Value
  | .cell i => .cell (f i)
  | .plain value => .plain value

/-- An entry with other numbers for its cells. -/
def Entry.rename (f : Nat → Nat) : Entry → Entry
  | .child name value => .child name (value.rename f)
  | entry => entry

/-- A cell with other numbers for the cells that it leads to. -/
def Cell.rename (f : Nat → Nat) : Cell → Cell
  | .draft entries => .draft (entries.map (Entry.rename f))
  | .finished node => .finished (node.map f)

/-- Whether each cell of an outline is a copy of a cell of another one, its original, where copies
lead to copies. -/
def IsCopy (copy o : Outline) (original : Nat → Nat) : Prop :=
  ∀ i, (copy.cells[i]?).map (Cell.rename original) = o.cells[original i]?

theorem Entry.staysIn_rename {f : Nat → Nat} {entry : Entry} :
    (entry.rename f).StaysIn cells ↔ entry.StaysIn fun i => cells (f i) := by
  cases entry with
  | payload | esm | unsupported => rfl
  | child name value => cases value <;> rfl

theorem nodeOfEntries_rename (f : Nat → Nat) (entries : List Entry) :
    nodeOfEntries (entries.map (Entry.rename f)) = (nodeOfEntries entries).map f := by
  -- The entries are put into a node one by one, so the node before them is arbitrary.
  suffices h : ∀ node : MapNode Nat, (entries.map (Entry.rename f)).foldl _ (node.map f) =
      MapNode.map f (entries.foldl _ node) from h .empty
  induction entries with
  | nil => intro node; rfl
  | cons entry rest ih =>
    intro node
    rw [List.map_cons, List.foldl_cons, List.foldl_cons, ← ih]
    congr 1
    cases entry with
    | payload use value => cases use <;> rfl
    | esm | unsupported => rfl
    | child name value =>
      cases value with
      | plain value => rfl
      | cell i => simp [Entry.rename, Value.rename, MapNode.map]

theorem Cell.node_rename (f : Nat → Nat) (cell : Cell) :
    (cell.rename f).node = cell.node.map f := by
  cases cell with
  | draft entries => exact nodeOfEntries_rename f entries
  | finished node => rfl

namespace IsCopy

variable {copy : Outline} {original : Nat → Nat}

theorem explored (h : copy.IsCopy o original) {name : Text}
    (hcells : o.Explored [] [.child name (.cell (original i))] cells) :
    copy.Explored [] [.child name (.cell i)] fun j => cells (original j) := by
  refine ⟨by simp, ?_, ?_⟩
  · intro entry hentry
    rw [List.mem_singleton.1 hentry]
    exact hcells.staysIn _ List.mem_cons_self
  · intro j hj _ draft hdraft entry hentry
    have hcell : o.cells[original j]? = some (.draft (draft.map (Entry.rename original))) := by
      rw [← h j, hdraft]
      rfl
    rw [← Entry.staysIn_rename]
    exact hcells.drafts _ hj (by simp) _ hcell _ (List.mem_map_of_mem hentry)

theorem node_mapAt (h : copy.IsCopy o original) (root root' i : Nat) :
    (o.mapAt root').node (original i) = ((copy.mapAt root).node i).map original := by
  show (o.cells[original i]?).elim .empty Cell.node = _
  rw [← h i]
  show _ = ((copy.cells[i]?).elim .empty Cell.node).map original
  cases copy.cells[i]? with
  | none => rfl
  | some cell => exact cell.node_rename original

/-- The map of a copy cannot be told apart from that of the outline. -/
theorem bisimilar (h : copy.IsCopy o original) (root : Nat) :
    (o.mapAt (original root)).Bisimilar (copy.mapAt root) := by
  refine ⟨fun i j => i = original j, ⟨?_, ?_, ?_⟩, rfl⟩
  · rintro _ j rfl use
    rw [h.node_mapAt root]
    cases use <;> rfl
  · rintro _ j rfl
    rw [h.node_mapAt root]
    rfl
  · rintro _ j rfl
    rw [h.node_mapAt root]
    show List.Forall₂ _ (List.map _ _) _
    rw [List.forall₂_map_left_iff, List.forall₂_same]
    intro p _
    exact ⟨rfl, rfl⟩

/-- A copy of an outline that is a map is a map, and the two cannot be told apart. -/
theorem toMap (h : copy.IsCopy o original) {root : Nat} {m : TraceMap Nat}
    (hm : o.toMap (.cell (original root)) = .ok m) :
    ∃ n, copy.toMap (.cell root) = .ok n ∧ m.Bisimilar n := by
  unfold Outline.toMap at hm ⊢
  dsimp only at hm ⊢
  split at hm
  · cases hm
  · rename_i hnone
    cases hm
    obtain ⟨cells, hcells⟩ := firstFault?_eq_none_iff.1 hnone
    rw [firstFault?_eq_none_iff.2 ⟨_, h.explored hcells⟩]
    exact ⟨_, rfl, h.bisimilar root⟩

end IsCopy

end ApiTrace.Outline
