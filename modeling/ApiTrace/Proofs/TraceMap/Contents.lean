import ApiTrace.TraceMap.Outline

/-!
# Contents of outlines

What a cell of an outline says, entry by entry: where its names lead
(`Outline.children_nodeOfEntries`), what is reported (`Outline.payload?_nodeOfEntries`) and whether
it is an ECMAScript module (`Outline.isEsm_nodeOfEntries`).

Outlines are written by adding cells, adding entries and finishing what is there. All of that keeps
outlines well-formed (`Outline.WellFormed`).
-/

namespace ApiTrace.Outline

variable {o : Outline} {entries rest : List Entry} {entry : Entry} {i : Nat}

/-! ## Contents of cells -/

/-- The name of an entry that is not a marker. -/
def Entry.name? : Entry → Option Text
  | .child name _ => some name
  | .payload .. | .esm | .unsupported _ => none

/-- The name of an entry and the cell that it leads to. -/
def Entry.link? : Entry → Option (Text × Nat)
  | .child name (.cell i) => some (name, i)
  | .child _ (.plain _) | .payload .. | .esm | .unsupported _ => none

theorem Entry.link?_eq_some_iff {p : Text × Nat} :
    entry.link? = some p ↔ entry = .child p.1 (.cell p.2) := by
  obtain ⟨name, i⟩ := p
  cases entry with
  | payload | esm | unsupported => simp [link?]
  | child key value => cases value <;> simp [link?]

/-- The cells that the names in a cell lead to, in order. -/
def Cell.links : Cell → List (Text × Nat)
  | .draft entries => entries.filterMap Entry.link?
  | .finished node => node.children

/-- The cell that a path of names leads to. -/
def follow? (o : Outline) (i : Nat) : List Text → Option Nat
  | [] => some i
  | name :: path => (o.cells[i]?.bind (·.links.lookup name)).bind fun j => o.follow? j path

theorem children_nodeOfEntries (entries : List Entry) :
    (nodeOfEntries entries).children = entries.filterMap Entry.link? := by
  suffices h : ∀ node : MapNode Nat, MapNode.children (entries.foldl _ node) =
      node.children ++ entries.filterMap Entry.link? from h .empty
  induction entries with
  | nil => intro node; simp
  | cons entry rest ih =>
    intro node
    rw [List.foldl_cons, ih]
    cases entry with
    | payload use value => cases use <;> rfl
    | esm | unsupported => rfl
    | child name value =>
      cases value with
      | plain value => rfl
      | cell i => simp [Entry.link?]

theorem Cell.children_node (cell : Cell) : cell.node.children = cell.links := by
  cases cell with
  | draft entries => exact children_nodeOfEntries entries
  | finished node => rfl

theorem lookup_mapAt (o : Outline) (root i : Nat) (name : Text) :
    ((o.mapAt root).node i).children.lookup name = o.cells[i]?.bind (·.links.lookup name) := by
  show ((o.cells[i]?).elim .empty Cell.node).children.lookup name = _
  cases o.cells[i]? with
  | none => rfl
  | some cell => exact congrArg (List.lookup name) cell.children_node

theorem isEsm_nodeOfEntries (entries : List Entry) :
    (nodeOfEntries entries).isEsm = true ↔ .esm ∈ entries := by
  suffices h : ∀ node : MapNode Nat, MapNode.isEsm (entries.foldl _ node) = true ↔
      node.isEsm = true ∨ .esm ∈ entries by
    exact (h .empty).trans (by simp [MapNode.empty])
  induction entries with
  | nil => intro node; simp
  | cons entry rest ih =>
    intro node
    rw [List.foldl_cons, ih]
    cases entry with
    | payload use value => cases use <;> simp [MapNode.setPayload]
    | esm | unsupported => simp
    | child name value => cases value <;> simp

theorem payload?_setPayload (node : MapNode Nat) (use use' : Use) (value : Json) :
    (node.setPayload use value).payload? use' =
      if use = use' then (if value.isNull then none else some value) else node.payload? use' := by
  cases use <;> cases use' <;> rfl

theorem payload?_nodeOfEntries
    (hkeys : entries.Pairwise fun entry entry' => entry.sameKey entry' = false) (use : Use)
    (value : Json) :
    (nodeOfEntries entries).payload? use = some value ↔
      .payload use value ∈ entries ∧ value.isNull = false := by
  suffices h : ∀ node : MapNode Nat, MapNode.payload? (entries.foldl _ node) use = some value ↔
      (.payload use value ∈ entries ∧ value.isNull = false) ∨
        ((∀ value', .payload use value' ∉ entries) ∧ node.payload? use = some value) by
    exact (h .empty).trans (by cases use <;> simp [MapNode.empty, MapNode.payload?])
  induction hkeys with
  | nil => intro node; simp
  | @cons entry rest hentry _ ih =>
    intro node
    rw [List.foldl_cons, ih]
    cases entry with
    | payload use' value' =>
      show _ ∨ (_ ∧ (node.setPayload use' value').payload? use = some value) ↔ _
      rw [payload?_setPayload]
      by_cases huse : use' = use
      · subst huse
        have hrest : ∀ v, Entry.payload use' v ∉ rest := by
          intro v hv
          simpa [Entry.sameKey] using hentry _ hv
        simp only [hrest, if_true, List.mem_cons]
        grind
      · simp [huse, Ne.symm huse]
    | esm | unsupported => cases use <;> simp [MapNode.payload?]
    | child name value => cases value <;> cases use <;> simp [MapNode.payload?]

/-! ## Well-formed outlines -/

/-- What holds of every outline that is written cell by cell and entry by entry: a draft has no key
twice, a cell that an entry leads to is there, and what is finished leads to what is finished. -/
structure WellFormed (o : Outline) : Prop where
  keys : ∀ (i : Nat) (entries : List Entry), o.cells[i]? = some (.draft entries) →
    entries.Pairwise fun entry entry' => entry.sameKey entry' = false
  known : ∀ (i : Nat) (entries : List Entry), o.cells[i]? = some (.draft entries) →
    ∀ name j, .child name (.cell j) ∈ entries → j < o.cells.length
  finished : ∀ (i : Nat) (node : MapNode Nat), o.cells[i]? = some (.finished node) →
    ∀ p ∈ node.children, ∃ node', o.cells[p.2]? = some (.finished node')

theorem wellFormed_empty : empty.WellFormed where
  keys := nofun
  known := nofun
  finished := nofun

/-- Drafts are well formed if they have no key twice and lead to one another only. -/
theorem wellFormed_drafts (drafts : List (List Entry))
    (hkeys : ∀ entries ∈ drafts, entries.Pairwise fun entry entry' => entry.sameKey entry' = false)
    (hknown : ∀ entries ∈ drafts, ∀ entry ∈ entries, ∀ p ∈ entry.link?, p.2 < drafts.length) :
    WellFormed ⟨drafts.map .draft⟩ := by
  have hdraft : ∀ {i : Nat} {cell : Cell}, (drafts.map Cell.draft)[i]? = some cell →
      ∃ entries ∈ drafts, cell = .draft entries := by
    intro i cell hcell
    obtain ⟨entries, hentries, rfl⟩ := List.mem_map.1 (List.mem_of_getElem? hcell)
    exact ⟨entries, hentries, rfl⟩
  constructor
  case keys =>
    intro i entries hcell
    obtain ⟨_, hentries, h⟩ := hdraft hcell
    cases h
    exact hkeys _ hentries
  case known =>
    intro i entries hcell name j hchild
    obtain ⟨_, hentries, h⟩ := hdraft hcell
    cases h
    rw [List.length_map]
    exact hknown _ hentries _ hchild (name, j) rfl
  case finished =>
    intro i node hcell
    obtain ⟨_, -, h⟩ := hdraft hcell
    cases h

/-- Entries of one key are distinct from the same entries. -/
theorem Entry.sameKey_congr {entry entry' : Entry} (h : entry.sameKey entry' = true) (x : Entry) :
    entry'.sameKey x = entry.sameKey x := by
  unfold sameKey at h
  split at h
  · rw [eq_of_beq h]
    cases x <;> rfl
  · rfl
  · rw [eq_of_beq h]
    cases x <;> rfl
  · cases h

theorem mem_setEntry {x : Entry} (h : x ∈ setEntry entry entries) : x = entry ∨ x ∈ entries := by
  induction entries with
  | nil => exact .inl (List.mem_singleton.1 h)
  | cons old rest ih =>
    rw [setEntry] at h
    split at h
    · rcases List.mem_cons.1 h with rfl | h
      · exact .inl rfl
      · exact .inr (.tail _ h)
    · rcases List.mem_cons.1 h with rfl | h
      · exact .inr List.mem_cons_self
      · exact (ih h).imp_right (.tail _)

/-- An entry takes the place of the one with its key, so no key is there twice. -/
theorem pairwise_setEntry
    (h : entries.Pairwise fun entry entry' => entry.sameKey entry' = false) (entry : Entry) :
    (setEntry entry entries).Pairwise fun entry entry' => entry.sameKey entry' = false := by
  induction h with
  | nil => exact List.pairwise_singleton _ _
  | @cons old rest hold hrest ih =>
    rw [setEntry]
    split
    · rename_i hsame
      refine .cons ?_ hrest
      intro x hx
      rw [Entry.sameKey_congr hsame, hold x hx]
    · rename_i hother
      refine .cons ?_ ih
      intro x hx
      rcases mem_setEntry hx with rfl | hx
      · exact Bool.eq_false_iff.2 hother
      · exact hold x hx

namespace WellFormed

theorem addCell (h : o.WellFormed) : o.addCell.WellFormed := by
  have hcells : ∀ {i : Nat} {cell : Cell}, o.addCell.cells[i]? = some cell →
      o.cells[i]? = some cell ∨ cell = .draft [] := by
    intro i cell hi
    rw [Outline.addCell, List.getElem?_append] at hi
    split at hi
    · exact .inl hi
    · rename_i hge
      rw [List.getElem?_singleton] at hi
      split at hi
      · exact .inr (Option.some.inj hi).symm
      · cases hi
  have hlength : o.cells.length ≤ o.addCell.cells.length := by simp [Outline.addCell]
  refine ⟨?_, ?_, ?_⟩
  · intro i entries hi
    rcases hcells hi with hi | heq
    · exact h.keys i entries hi
    · cases heq
      exact .nil
  · intro i entries hi name j hj
    rcases hcells hi with hi | heq
    · exact Nat.lt_of_lt_of_le (h.known i entries hi name j hj) hlength
    · cases heq
      cases hj
  · intro i node hi p hp
    rcases hcells hi with hi | heq
    · obtain ⟨node', hnode'⟩ := h.finished i node hi p hp
      refine ⟨node', ?_⟩
      rw [Outline.addCell, List.getElem?_append_left (List.getElem?_eq_some_iff.1 hnode').1, hnode']
    · cases heq

theorem addEntry (h : o.WellFormed) (i : Nat)
    (hentry : ∀ name j, entry = .child name (.cell j) → j < o.cells.length) :
    (o.addEntry i entry).WellFormed := by
  have hlength : (o.addEntry i entry).cells.length = o.cells.length := List.length_modify ..
  -- Only drafts change, and only by that entry.
  have hdraft : ∀ {k : Nat} {entries : List Entry}, (o.addEntry i entry).cells[k]? = some
      (.draft entries) →
      ∃ before, o.cells[k]? = some (.draft before) ∧
        (entries = before ∨ entries = setEntry entry before) := by
    intro k entries hk
    rw [Outline.addEntry, List.getElem?_modify] at hk
    obtain ⟨cell, hcell, hk⟩ := Option.map_eq_some_iff.1 hk
    cases cell with
    | finished node => split at hk <;> cases hk
    | draft before =>
      refine ⟨before, hcell, ?_⟩
      split at hk
      · cases hk
        exact .inr rfl
      · cases hk
        exact .inl rfl
  have hfinished : ∀ {k : Nat} {node : MapNode Nat},
      (o.addEntry i entry).cells[k]? = some (.finished node) ↔
        o.cells[k]? = some (.finished node) := by
    intro k node
    rw [Outline.addEntry, List.getElem?_modify]
    cases o.cells[k]? with
    | none => simp
    | some cell => cases cell <;> by_cases hik : i = k <;> simp [hik]
  refine ⟨?_, ?_, ?_⟩
  · intro k entries hk
    obtain ⟨before, hbefore, rfl | rfl⟩ := hdraft hk
    · exact h.keys k _ hbefore
    · exact pairwise_setEntry (h.keys k _ hbefore) entry
  · intro k entries hk name j hj
    rw [hlength]
    obtain ⟨before, hbefore, rfl | rfl⟩ := hdraft hk
    · exact h.known k _ hbefore name j hj
    · rcases mem_setEntry hj with heq | hj
      · exact hentry name j heq.symm
      · exact h.known k _ hbefore name j hj
  · intro k node hk p hp
    simp only [hfinished] at hk ⊢
    exact h.finished k node hk p hp

theorem lt_of_mem_children (h : o.WellFormed) {cell : Cell} (hcell : o.cells[i]? = some cell)
    {p : Text × Nat} (hp : p ∈ cell.node.children) : p.2 < o.cells.length := by
  cases cell with
  | finished node =>
    obtain ⟨node', hnode'⟩ := h.finished i node hcell p hp
    exact (List.getElem?_eq_some_iff.1 hnode').1
  | draft entries =>
    rw [Cell.node, children_nodeOfEntries] at hp
    obtain ⟨entry, hentry, hlink⟩ := List.mem_filterMap.1 hp
    rw [Entry.link?_eq_some_iff.1 hlink] at hentry
    exact h.known i entries hcell p.1 p.2 hentry

/-- The copies of what is there lead to copies, or to what was finished before. -/
theorem finish (h : o.WellFormed) {value value' : Value} {o' : Outline}
    (hfinish : o.finish value = .ok (o', value')) : o'.WellFormed := by
  have hcells : o'.cells = o.cells ++ o.cells.map fun cell =>
      Cell.finished (cell.node.map o.finishedNumber) := by
    unfold Outline.finish at hfinish
    cases hm : o.toMap value with
    | error f =>
      rw [hm] at hfinish
      cases hfinish
    | ok m =>
      rw [hm] at hfinish
      cases hfinish
      rfl
  have hold : ∀ {k : Nat} {cell : Cell}, o.cells[k]? = some cell → o'.cells[k]? = some cell := by
    intro k cell hk
    rw [hcells, List.getElem?_append_left (List.getElem?_eq_some_iff.1 hk).1, hk]
  have hcopy : ∀ {k : Nat} {cell : Cell}, o.cells[k]? = some cell →
      o'.cells[o.cells.length + k]? = some (.finished (cell.node.map o.finishedNumber)) := by
    intro k cell hk
    rw [hcells, List.getElem?_append_right (Nat.le_add_right _ _), Nat.add_sub_cancel_left,
      List.getElem?_map, hk]
    rfl
  have hcases : ∀ {k : Nat} {cell : Cell}, o'.cells[k]? = some cell → o.cells[k]? = some cell ∨
      ∃ (j : Nat) (cell' : Cell), o.cells[j]? = some cell' ∧
        cell = .finished (cell'.node.map o.finishedNumber) := by
    intro k cell hk
    rw [hcells, List.getElem?_append] at hk
    split at hk
    · exact .inl hk
    · rw [List.getElem?_map] at hk
      obtain ⟨cell', hcell', rfl⟩ := Option.map_eq_some_iff.1 hk
      exact .inr ⟨_, cell', hcell', rfl⟩
  refine ⟨?_, ?_, ?_⟩
  · intro k entries hk
    rcases hcases hk with hk | ⟨_, _, _, heq⟩
    · exact h.keys k entries hk
    · cases heq
  · intro k entries hk name j hj
    rcases hcases hk with hk | ⟨_, _, _, heq⟩
    · rw [hcells, List.length_append]
      exact Nat.lt_add_right _ (h.known k entries hk name j hj)
    · cases heq
  · intro k node hk p hp
    rcases hcases hk with hk | ⟨j, cell, hcell, heq⟩
    · obtain ⟨node', hnode'⟩ := h.finished k node hk p hp
      exact ⟨node', hold hnode'⟩
    · cases heq
      obtain ⟨q, hq, rfl⟩ := List.mem_map.1 hp
      show ∃ node', o'.cells[o.finishedNumber q.2]? = some (.finished node')
      obtain ⟨cell', hcell'⟩ : ∃ cell', o.cells[q.2]? = some cell' :=
        ⟨_, List.getElem?_eq_getElem (h.lt_of_mem_children hcell hq)⟩
      unfold finishedNumber isFinished
      rw [hcell', Option.any_some]
      cases cell' with
      | draft entries => exact ⟨_, hcopy hcell'⟩
      | finished node' => exact ⟨node', hold hcell'⟩

end WellFormed

end ApiTrace.Outline
