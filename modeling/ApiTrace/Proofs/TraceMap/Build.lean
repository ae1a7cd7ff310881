import ApiTrace.Proofs.TraceMap.Contents
import ApiTrace.Proofs.TraceMap.Faults
import ApiTrace.TraceMap.Build

/-!
# A built map is a copy of its outline

`Outline.build` ends in a fault exactly if the outline has one, and then in the first one
(`Outline.fill_eq_error_iff`). Otherwise it makes one node for every draft that names lead to and
keeps the finished cells, so that two names lead to one node exactly if they lead to one cell, and a
node says what its cell says (`Outline.build_copies_outline`).

What the work does to a map in the making is said at once for all that is left to do
(`Outline.Filled`): the entries that are left are put into their nodes, in order, and every draft
that is come to gets a node with all of its entries.
-/

namespace ApiTrace

theorem MapNode.map_congr {ι κ : Type} {g g' : ι → κ} {node : MapNode ι}
    (h : ∀ p ∈ node.children, g p.2 = g' p.2) : node.map g = node.map g' := by
  unfold MapNode.map
  congr 1
  apply List.map_congr_left
  intro p hp
  exact congrArg (Prod.mk p.1) (h p hp)

namespace Outline

variable {o : Outline} {b b' : Builder} {work rest : List (Nat × Entry)} {entries : List Entry}
  {entry : Entry} {owner i : Nat} {f : Fault}

/-! ## Faults -/

theorem map_snd_pair (n : Nat) (entries : List Entry) :
    (entries.map (n, ·)).map Prod.snd = entries := by
  simp [Function.comp_def]

theorem firstFault?_draft {seen : List Nat} {name : Text} {rest : List Entry}
    (hcell : o.cells[i]? = some (.draft entries)) (hi : i ∉ seen) :
    o.firstFault? seen (.child name (.cell i) :: rest) =
      o.firstFault? (i :: seen) (entries ++ rest) := by
  obtain ⟨hlt, hget⟩ := List.getElem?_eq_some_iff.1 hcell
  rw [firstFault?, dif_pos ⟨hlt, hi⟩, hget]

theorem firstFault?_passed {seen : List Nat} {name : Text} {rest : List Entry}
    (hi : ∀ entries, o.cells[i]? = some (.draft entries) → i ∈ seen) :
    o.firstFault? seen (.child name (.cell i) :: rest) = o.firstFault? seen rest := by
  rw [firstFault?]
  split
  · rename_i hlook
    split
    · rename_i entries hdraft
      exact absurd (hi entries (by rw [List.getElem?_eq_getElem hlook.1, hdraft])) hlook.2
    · rfl
  · rfl

/-- The work ends in the fault that the search for faults finds. -/
theorem fill_eq_error_iff {seen : List Nat} (hseen : ∀ i, i ∈ seen ↔ i ∈ b.drafts) :
    o.fill b work = .error f ↔ o.firstFault? seen (work.map Prod.snd) = some f := by
  fun_induction Outline.fill o b work generalizing seen with
  | case1 b => simp [firstFault?]
  | case2 b owner use value rest ih | case3 b owner rest ih =>
    rw [List.map_cons, firstFault?]
    exact ih hseen
  | case4 b owner key rest | case5 b owner name value rest => simp [firstFault?]
  | case6 b owner name i rest hi entries hdraft ih =>
    have hcell : o.cells[i]? = some (.draft entries) :=
      by rw [List.getElem?_eq_getElem hi.1, hdraft]
    have hnew : i ∉ seen := fun hmem => hi.2 ((hseen i).1 hmem)
    rw [List.map_cons, firstFault?_draft hcell hnew]
    have hseen' : ∀ j, j ∈ i :: seen ↔ j ∈ b.drafts ++ [i] := by
      intro j
      rw [List.mem_cons, List.mem_append, List.mem_singleton, hseen j, or_comm]
    rw [ih hseen', List.map_append, map_snd_pair]
  | case7 b owner name i rest hi node hnode ih =>
    rw [List.map_cons, firstFault?_passed]
    · exact ih hseen
    · intro entries hcell
      rw [List.getElem?_eq_getElem hi.1, hnode] at hcell
      cases hcell
  | case8 b owner name i rest hi ih =>
    rw [List.map_cons, firstFault?_passed]
    · exact ih hseen
    · intro entries hcell
      have hlt := (List.getElem?_eq_some_iff.1 hcell).1
      rw [hseen]
      by_contra hnew
      exact hi ⟨hlt, hnew⟩

theorem build_eq_error_iff {value : Value} :
    o.build value = .error f ↔ o.firstFault? [] [.child [] value] = some f := by
  cases value with
  | plain value => simp [build, firstFault?]
  | cell root =>
    rw [build]
    split
    · rename_i entries hcell
      have hseen : ∀ i, i ∈ [root] ↔ i ∈ (Builder.empty.make root).drafts := fun i => Iff.rfl
      have hfill : o.fill (Builder.empty.make root) (entries.map (0, ·)) = .error f ↔
          o.firstFault? [root] entries = some f := by
        rw [fill_eq_error_iff hseen, map_snd_pair]
      rw [firstFault?_draft hcell List.not_mem_nil, List.append_nil, ← hfill]
      cases o.fill (Builder.empty.make root) (entries.map (0, ·)) <;> simp [Except.map]
    · rename_i hcell
      rw [firstFault?_passed fun entries hdraft => absurd hdraft (hcell entries)]
      simp [firstFault?]

/-! ## What the work does -/

/-- What an entry adds to a node, where `number` gives the nodes of cells. -/
def Entry.addTo (number : Nat → BuiltNode) (node : MapNode BuiltNode) : Entry → MapNode BuiltNode
  | .payload use value => node.setPayload use value
  | .esm => { node with isEsm := true }
  | .child name (.cell i) => { node with children := node.children ++ [(name, number i)] }
  | .child _ (.plain _) | .unsupported _ => node

theorem foldl_addTo (number : Nat → BuiltNode) (entries : List Entry) :
    entries.foldl (Entry.addTo number) .empty = (nodeOfEntries entries).map number := by
  -- The entries are put into a node one by one, so the node before them is arbitrary.
  suffices h : ∀ node : MapNode Nat, entries.foldl (Entry.addTo number) (node.map number) =
      MapNode.map number (entries.foldl _ node) from h .empty
  induction entries with
  | nil => intro node; rfl
  | cons entry rest ih =>
    intro node
    rw [List.foldl_cons, List.foldl_cons, ← ih]
    congr 1
    cases entry with
    | payload use value => cases use <;> rfl
    | esm | unsupported => rfl
    | child name value =>
      cases value with
      | plain value => rfl
      | cell i => simp [Entry.addTo, MapNode.map]

/-- The entries that are left for a node. -/
def owned (n : Nat) (work : List (Nat × Entry)) : List Entry :=
  (work.filter (·.1 = n)).map Prod.snd

/-- Whether a cell has its node if it is a draft. -/
def Builder.Stands (b : Builder) (o : Outline) (i : Nat) : Prop :=
  ∀ entries, o.cells[i]? = some (.draft entries) → i ∈ b.drafts

/-- A map in the making has one node for each of its drafts. -/
structure Builder.Sound (b : Builder) (o : Outline) : Prop where
  length : b.nodes.length = b.drafts.length
  nodup : b.drafts.Nodup
  drafts : ∀ i ∈ b.drafts, ∃ entries, o.cells[i]? = some (.draft entries)

/-- What becomes of a map in the making when some work is done: the entries that were left are in
their nodes, the drafts that were come to have nodes with all of their entries, and nothing that was
looked at is faulty or leads to a draft without a node. -/
structure Filled (o : Outline) (b : Builder) (work : List (Nat × Entry)) (b' : Builder) : Prop where
  sound : b'.Sound o
  grows : b.drafts <+: b'.drafts
  old : ∀ n < b.nodes.length,
    b'.nodes[n]? = b.nodes[n]?.map fun node => (owned n work).foldl (Entry.addTo b'.nodeOf) node
  new : ∀ n i entries, b.nodes.length ≤ n → b'.drafts[n]? = some i →
    o.cells[i]? = some (.draft entries) →
      b'.nodes[n]? = some ((nodeOfEntries entries).map b'.nodeOf)
  staysIn : ∀ p ∈ work, p.2.StaysIn (b'.Stands o)
  closed : ∀ i ∈ b'.drafts, i ∉ b.drafts → ∀ entries, o.cells[i]? = some (.draft entries) →
    ∀ entry ∈ entries, entry.StaysIn (b'.Stands o)

namespace Builder

@[simp] theorem length_modify (b : Builder) (owner : Nat)
    (g : MapNode BuiltNode → MapNode BuiltNode) :
    (b.modify owner g).nodes.length = b.nodes.length := List.length_modify ..

@[simp] theorem length_link (b : Builder) (owner : Nat) (name : Text) (i : Nat) :
    (b.link owner name i).nodes.length = b.nodes.length := List.length_modify ..

@[simp] theorem length_make (b : Builder) (i : Nat) :
    (b.make i).nodes.length = b.nodes.length + 1 := by
  simp [make]

theorem nodeOf_of_prefix (h : b.drafts <+: b'.drafts) (hi : i ∈ b.drafts) :
    b'.nodeOf i = b.nodeOf i := by
  obtain ⟨new, hnew⟩ := h
  unfold nodeOf
  rw [← hnew, if_pos (List.mem_append_left _ hi), if_pos hi, List.idxOf_append_of_mem hi]

theorem nodeOf_of_not_draft (hsound : b.Sound o)
    (hi : ∀ entries, o.cells[i]? ≠ some (.draft entries)) :
    b.nodeOf i = .kept i := by
  unfold nodeOf
  rw [if_neg]
  intro hmem
  obtain ⟨entries, hdraft⟩ := hsound.drafts i hmem
  exact hi entries hdraft

/-- What stands has its node for good. -/
theorem nodeOf_of_stands (hb : b.Sound o) (hb' : b'.Sound o) (hgrows : b.drafts <+: b'.drafts)
    (hi : b.Stands o i) : b'.nodeOf i = b.nodeOf i := by
  by_cases hmem : i ∈ b.drafts
  · exact nodeOf_of_prefix hgrows hmem
  · have hnot : ∀ entries, o.cells[i]? ≠ some (.draft entries) := fun entries hdraft =>
      hmem (hi entries hdraft)
    rw [nodeOf_of_not_draft hb hnot, nodeOf_of_not_draft hb' hnot]

theorem Sound.modify (h : b.Sound o) (owner : Nat) (g : MapNode BuiltNode → MapNode BuiltNode) :
    (b.modify owner g).Sound o where
  length := by rw [length_modify, h.length]; rfl
  nodup := h.nodup
  drafts := h.drafts

theorem Sound.make (h : b.Sound o) (hi : i ∉ b.drafts)
    (hdraft : o.cells[i]? = some (.draft entries)) :
    (b.make i).Sound o where
  length := by simp [h.length, Builder.make]
  nodup := by
    show (b.drafts ++ [i]).Nodup
    rw [List.perm_append_singleton i b.drafts |>.nodup_iff, List.nodup_cons]
    exact ⟨hi, h.nodup⟩
  drafts := List.forall_mem_append.2 ⟨h.drafts, List.forall_mem_singleton.2 ⟨entries, hdraft⟩⟩

/-- Different cells have different nodes. -/
theorem nodeOf_inj (b : Builder) {i j : Nat} : b.nodeOf i = b.nodeOf j ↔ i = j := by
  refine ⟨?_, congrArg b.nodeOf⟩
  unfold nodeOf
  intro h
  split at h
  · rename_i hi
    split at h
    · exact (List.idxOf_inj hi).1 (BuiltNode.made.inj h)
    · cases h
  · split at h
    · cases h
    · exact BuiltNode.kept.inj h

end Builder

@[simp] theorem owned_cons_self (n : Nat) (entry : Entry) (work : List (Nat × Entry)) :
    owned n ((n, entry) :: work) = entry :: owned n work := by
  simp [owned]

theorem owned_cons_of_ne {n : Nat} (h : owner ≠ n) (entry : Entry) (work : List (Nat × Entry)) :
    owned n ((owner, entry) :: work) = owned n work := by
  simp [owned, h]

theorem owned_append (n : Nat) (work rest : List (Nat × Entry)) :
    owned n (work ++ rest) = owned n work ++ owned n rest := by
  simp [owned]

theorem owned_pair (n owner : Nat) (entries : List Entry) :
    owned n (entries.map (owner, ·)) = if owner = n then entries else [] := by
  by_cases h : owner = n <;> simp [owned, h, List.filter_map, Function.comp_def]

theorem owned_eq_nil {n : Nat} (h : ∀ p ∈ work, p.1 < n) : owned n work = [] := by
  simp only [owned, List.map_eq_nil_iff, List.filter_eq_nil_iff]
  intro p hp
  simpa using Nat.ne_of_lt (h p hp)

namespace Filled

theorem nil (h : b.Sound o) : o.Filled b [] b where
  sound := h
  grows := List.prefix_refl _
  old n _ := by simp [owned]
  new n i entries hn hi _ := by
    have hlt := (List.getElem?_eq_some_iff.1 hi).1
    rw [h.length] at hn
    exact absurd hlt (Nat.not_lt.2 hn)
  staysIn := nofun
  closed i hi hnew := absurd hi hnew

/-- An entry is put into its node before the others. -/
theorem step {g : MapNode BuiltNode → MapNode BuiltNode} (h : o.Filled (b.modify owner g) rest b')
    (hentry : entry.StaysIn (b'.Stands o)) (hg : ∀ node, g node = entry.addTo b'.nodeOf node) :
    o.Filled b ((owner, entry) :: rest) b' where
  sound := h.sound
  grows := h.grows
  old n hn := by
    rw [h.old n (by simpa using hn)]
    show ((b.nodes.modify owner g)[n]?).map _ = _
    rw [List.getElem?_modify]
    by_cases howner : owner = n
    · subst howner
      cases b.nodes[owner]? with
      | none => simp
      | some node => simp [hg]
    · rw [owned_cons_of_ne howner]
      simp [howner]
  new n i entries hn := h.new n i entries (by simpa using hn)
  staysIn := List.forall_mem_cons.2 ⟨hentry, h.staysIn⟩
  closed := h.closed

/-- A draft gets its node, and its entries are left to do with the others. -/
theorem make (h : o.Filled (b.make i) work b') (hb : b.Sound o)
    (hdraft : o.cells[i]? = some (.draft entries))
    (hold : ∀ n < b.nodes.length, owned n work = owned n rest)
    (hnew : owned b.nodes.length work = entries) (hrest : rest ⊆ work) :
    o.Filled b rest b' where
  sound := h.sound
  grows := (List.prefix_append b.drafts [i]).trans h.grows
  old n hn := by
    rw [h.old n (by simpa using Nat.lt_succ_of_lt hn), hold n hn]
    show ((b.nodes ++ [MapNode.empty])[n]?).map _ = _
    rw [List.getElem?_append_left hn]
  new n j entries' hn hj hdraft' := by
    have hmade : b'.drafts[b.nodes.length]? = some i := by
      obtain ⟨tail, htail⟩ := h.grows
      rw [← htail, hb.length]
      simp [Builder.make]
    by_cases hlt : n = b.nodes.length
    · subst hlt
      cases hmade.symm.trans hj
      cases hdraft.symm.trans hdraft'
      rw [h.old b.nodes.length (by simp), hnew]
      show ((b.nodes ++ [MapNode.empty])[b.nodes.length]?).map _ = _
      rw [List.getElem?_concat_length, Option.map_some, foldl_addTo]
    · exact h.new n j entries' (by rw [Builder.length_make]; omega) hj hdraft'
  staysIn p hp := h.staysIn p (hrest hp)
  closed j hj hjnew entries' hdraft' := by
    by_cases hij : j = i
    · subst hij
      cases hdraft.symm.trans hdraft'
      intro entry hentry
      rw [← hnew] at hentry
      obtain ⟨p, hp, rfl⟩ := List.mem_map.1 hentry
      exact h.staysIn p (List.mem_filter.1 hp).1
    · refine h.closed j hj ?_ entries' hdraft'
      show j ∉ b.drafts ++ [i]
      simp [hjnew, hij]

/-- A cell that stands becomes a child. -/
theorem link {name : Text} (h : o.Filled (b.link owner name i) rest b') (hb : b.Sound o)
    (hi : b.Stands o i) : o.Filled b ((owner, .child name (.cell i)) :: rest) b' := by
  apply step h
  · intro entries hdraft
    exact h.grows.subset (hi entries hdraft)
  · intro node
    show { node with children := node.children ++ [(name, b.nodeOf i)] } = _
    rw [← Builder.nodeOf_of_stands hb h.sound h.grows hi]
    rfl

end Filled

/-- What the work does if it does not end in a fault. -/
theorem filled_of_fill (hb : b.Sound o) (howners : ∀ p ∈ work, p.1 < b.nodes.length)
    (h : o.fill b work = .ok b') : o.Filled b work b' := by
  fun_induction Outline.fill o b work with
  | case1 b =>
    cases h
    exact .nil hb
  | case2 b owner use value rest ih | case3 b owner rest ih =>
    have hrest := (List.forall_mem_cons.1 howners).2
    apply Filled.step (ih (hb.modify _ _) (by simpa using hrest) h)
    · trivial
    · intro node
      rfl
  | case4 b owner key rest | case5 b owner name value rest => cases h
  | case6 b owner name i rest hi entries hdraft ih =>
    obtain ⟨howner, hrest⟩ := List.forall_mem_cons.1 howners
    have hcell : o.cells[i]? = some (.draft entries) :=
      by rw [List.getElem?_eq_getElem hi.1, hdraft]
    have hmade := hb.make hi.2 hcell
    have hfilled : o.Filled ((b.make i).link owner name i)
        (entries.map (b.nodes.length, ·) ++ rest) b' := by
      apply ih (hmade.modify _ _) _ h
      rw [Builder.length_link, Builder.length_make]
      intro p hp
      rcases List.mem_append.1 hp with hp | hp
      · obtain ⟨entry, -, rfl⟩ := List.mem_map.1 hp
        exact Nat.lt_succ_self _
      · exact Nat.lt_succ_of_lt (hrest p hp)
    have hstands : (b.make i).Stands o i := fun _ _ => List.mem_append_right _ List.mem_cons_self
    apply (hfilled.link hmade hstands).make hb hcell
    · intro n hn
      show owned n ([(owner, _)] ++ (_ ++ rest)) = owned n ([(owner, _)] ++ rest)
      rw [owned_append, owned_append, owned_append, owned_pair, if_neg (Nat.ne_of_gt hn)]
      rfl
    · rw [owned_cons_of_ne (Nat.ne_of_lt howner), owned_append, owned_pair, if_pos rfl,
        owned_eq_nil hrest, List.append_nil]
    · exact List.cons_subset_cons _ (List.subset_append_right _ _)
  | case7 b owner name i rest hi node hnode ih =>
    have hrest := (List.forall_mem_cons.1 howners).2
    apply Filled.link (ih (hb.modify _ _) (by simpa using hrest) h) hb
    intro entries hcell
    rw [List.getElem?_eq_getElem hi.1, hnode] at hcell
    cases hcell
  | case8 b owner name i rest hi ih =>
    have hrest := (List.forall_mem_cons.1 howners).2
    apply Filled.link (ih (hb.modify _ _) (by simpa using hrest) h) hb
    intro entries hcell
    by_contra hnew
    exact hi ⟨(List.getElem?_eq_some_iff.1 hcell).1, hnew⟩

/-! ## Copies -/

/-- A map is made by putting all entries of all drafts into their nodes. -/
theorem filled_of_build {root : Nat} {m : TraceMap BuiltNode} (h : o.build (.cell root) = .ok m) :
    ∃ b : Builder, o.Filled .empty [] b ∧ b.Stands o root ∧ m = b.toMap o (b.nodeOf root) := by
  have hempty : Builder.empty.Sound o := ⟨rfl, List.nodup_nil, nofun⟩
  rw [build] at h
  split at h
  · rename_i entries hcell
    cases hfill : o.fill (Builder.empty.make root) (entries.map (0, ·)) with
    | error f =>
      rw [hfill] at h
      cases h
    | ok b =>
      rw [hfill] at h
      cases h
      have howners : ∀ p ∈ entries.map (0, ·), p.1 < (Builder.empty.make root).nodes.length := by
        intro p hp
        obtain ⟨entry, -, rfl⟩ := List.mem_map.1 hp
        exact Nat.zero_lt_one
      have hfilled := filled_of_fill (hempty.make List.not_mem_nil hcell) howners hfill
      have hroot : root ∈ (Builder.empty.make root).drafts := List.mem_cons_self
      refine ⟨b, hfilled.make hempty hcell nofun ?_ nofun,
        fun _ _ => hfilled.grows.subset hroot, ?_⟩
      · exact (owned_pair 0 0 entries).trans (if_pos rfl)
      · rw [Builder.nodeOf_of_prefix hfilled.grows hroot]
        simp [Builder.nodeOf, Builder.make, Builder.empty]
  · rename_i hcell
    cases h
    exact ⟨.empty, .nil hempty, fun entries hdraft => absurd hdraft (hcell entries), rfl⟩

namespace Filled

variable {root : Nat} {r : BuiltNode}

/-- What stands leads to what stands. -/
theorem stands_links (h : o.Filled .empty [] b) (ho : o.WellFormed) (hi : b.Stands o i)
    {cell : Cell} (hcell : o.cells[i]? = some cell) {p : Text × Nat} (hp : p ∈ cell.links) :
    b.Stands o p.2 := by
  cases cell with
  | draft entries =>
    obtain ⟨entry, hentry, hlink⟩ := List.mem_filterMap.1 hp
    rw [Entry.link?_eq_some_iff.1 hlink] at hentry
    exact h.closed i (hi entries hcell) List.not_mem_nil entries hcell _ hentry
  | finished node =>
    obtain ⟨node', hnode'⟩ := ho.finished i node hcell p hp
    intro entries hdraft
    cases hnode'.symm.trans hdraft

/-- The node of a cell says what the cell says, with nodes for cells. -/
theorem node_toMap (h : o.Filled .empty [] b) (ho : o.WellFormed) (hi : b.Stands o i) :
    (b.toMap o r).node (b.nodeOf i) = ((o.mapAt root).node i).map b.nodeOf := by
  show _ = ((o.cells[i]?).elim .empty Cell.node).map b.nodeOf
  cases hcell : o.cells[i]? with
  | none =>
    rw [Builder.nodeOf_of_not_draft h.sound (by simp [hcell])]
    show ((o.cells[i]?).elim .empty Cell.node).map BuiltNode.kept = _
    rw [hcell]
    rfl
  | some cell =>
    cases cell with
    | draft entries =>
      have hmem := hi entries hcell
      have hnode := h.new _ i entries (Nat.zero_le _) (List.getElem?_idxOf hmem) hcell
      rw [Builder.nodeOf, if_pos hmem]
      show (b.nodes[b.drafts.idxOf i]?).getD .empty = _
      rw [hnode]
      rfl
    | finished node =>
      rw [Builder.nodeOf_of_not_draft h.sound (by simp [hcell])]
      show ((o.cells[i]?).elim .empty Cell.node).map BuiltNode.kept = node.map b.nodeOf
      rw [hcell]
      apply MapNode.map_congr
      intro p hp
      obtain ⟨node', hnode'⟩ := ho.finished i node hcell p hp
      rw [Builder.nodeOf_of_not_draft h.sound (by simp [hnode'])]

theorem walk?_toMap (h : o.Filled .empty [] b) (ho : o.WellFormed) (hi : b.Stands o i)
    (path : List Text) :
    ((b.toMap o r).focus (b.nodeOf i)).walk? path =
      (o.follow? i path).map fun j => (b.toMap o r).focus (b.nodeOf j) := by
  induction path generalizing i with
  | nil => rfl
  | cons name path ih =>
    have hchildren : ((b.toMap o r).focus (b.nodeOf i)).rootNode.children =
        ((o.mapAt i).node i).children.map fun p => (p.1, b.nodeOf p.2) :=
      congrArg MapNode.children (h.node_toMap ho hi)
    rw [TraceMap.walk?, TraceMap.child?, hchildren, lookup_map, lookup_mapAt, follow?]
    cases hcell : o.cells[i]? with
    | none => rfl
    | some cell =>
      rw [Option.bind_some]
      cases hj : cell.links.lookup name with
      | none => rfl
      | some j =>
        obtain ⟨l, l', hlinks, -⟩ := List.lookup_eq_some_iff.1 hj
        have hmem : (name, j) ∈ cell.links := by simp [hlinks]
        exact ih (h.stands_links ho hi hcell hmem)

theorem stands_follow? (h : o.Filled .empty [] b) (ho : o.WellFormed) (hi : b.Stands o i)
    {path : List Text} {j : Nat} (hj : o.follow? i path = some j) : b.Stands o j := by
  induction path generalizing i with
  | nil =>
    cases hj
    exact hi
  | cons name path ih =>
    obtain ⟨k, hk, hj⟩ := Option.bind_eq_some_iff.1 hj
    obtain ⟨cell, hcell, hk⟩ := Option.bind_eq_some_iff.1 hk
    obtain ⟨l, l', hlinks, -⟩ := List.lookup_eq_some_iff.1 hk
    have hmem : (name, k) ∈ cell.links := by simp [hlinks]
    exact ih (h.stands_links ho hi hcell hmem) hj

end Filled

/-- How a map copies what names lead to from a cell of an outline:

* the same paths lead somewhere,
* two paths lead to one node exactly if they lead to one cell,
* a draft has a new node, with its names in order, its payloads and its mark of an ECMAScript
  module,
* a finished cell is its own node. -/
structure Copies (o : Outline) (root : Nat) (m : TraceMap BuiltNode) : Prop where
  leads : ∀ path, (m.walk? path).isSome = (o.follow? root path).isSome
  shares : ∀ path path' c c' i i', m.walk? path = some c → m.walk? path' = some c' →
    o.follow? root path = some i → o.follow? root path' = some i' → (c.root = c'.root ↔ i = i')
  drafts : ∀ path c i entries, m.walk? path = some c → o.follow? root path = some i →
    o.cells[i]? = some (.draft entries) →
      (∃ n, c.root = .made n) ∧
      c.keys = entries.filterMap Entry.name? ∧
      (∀ use value, c.payload? use = some value ↔ .payload use value ∈ entries ∧
        value.isNull = false) ∧
      (c.isEsm = true ↔ .esm ∈ entries)
  kept : ∀ path c i node, m.walk? path = some c → o.follow? root path = some i →
    o.cells[i]? = some (.finished node) → c.root = .kept i ∧ c.rootNode = node.map .kept

theorem map_fst_link? {cells : Nat → Prop} (h : ∀ entry ∈ entries, entry.StaysIn cells) :
    (entries.filterMap Entry.link?).map Prod.fst = entries.filterMap Entry.name? := by
  rw [List.map_filterMap]
  apply List.filterMap_congr
  intro entry hentry
  cases entry with
  | payload | esm | unsupported => rfl
  | child name value =>
    cases value with
    | cell i => rfl
    | plain value => exact (h _ hentry).elim

theorem copies_of_build (ho : o.WellFormed) {root : Nat} {m : TraceMap BuiltNode}
    (h : o.build (.cell root) = .ok m) : o.Copies root m := by
  obtain ⟨b, hfilled, hroot, rfl⟩ := filled_of_build h
  have hwalk : ∀ path, (b.toMap o (b.nodeOf root)).walk? path =
      (o.follow? root path).map fun j => (b.toMap o (b.nodeOf root)).focus (b.nodeOf j) :=
    hfilled.walk?_toMap ho hroot
  -- A path leads to the node of the cell that it leads to.
  have hend : ∀ {path c i}, (b.toMap o (b.nodeOf root)).walk? path = some c →
      o.follow? root path = some i → b.Stands o i ∧ c.root = b.nodeOf i ∧
        c.rootNode = ((o.mapAt root).node i).map b.nodeOf := by
    intro path c i hc hi
    have hstands := hfilled.stands_follow? ho hroot hi
    rw [hwalk, hi] at hc
    cases hc
    exact ⟨hstands, rfl, hfilled.node_toMap ho hstands⟩
  constructor
  case leads =>
    intro path
    rw [hwalk, Option.isSome_map]
  case shares =>
    intro path path' c c' i i' hc hc' hi hi'
    rw [(hend hc hi).2.1, (hend hc' hi').2.1, b.nodeOf_inj]
  case drafts =>
    intro path c i entries hc hi hcell
    obtain ⟨hstands, hc, hnode⟩ := hend hc hi
    have hmem := hstands entries hcell
    have hnode : c.rootNode = (nodeOfEntries entries).map b.nodeOf := by
      rw [hnode]
      show ((o.cells[i]?).elim .empty Cell.node).map b.nodeOf = _
      rw [hcell]
      rfl
    refine ⟨⟨_, hc.trans (if_pos hmem)⟩, ?_, ?_, ?_⟩
    · rw [← map_fst_link? (hfilled.closed i hmem List.not_mem_nil entries hcell),
        ← children_nodeOfEntries, TraceMap.keys, hnode, MapNode.map, List.map_map]
      rfl
    · intro use value
      rw [← payload?_nodeOfEntries (ho.keys i entries hcell), TraceMap.payload?, hnode]
      cases use <;> rfl
    · rw [← isEsm_nodeOfEntries, TraceMap.isEsm, hnode]
      rfl
  case kept =>
    intro path c i node hc hi hcell
    have hkept : b.nodeOf i = .kept i := Builder.nodeOf_of_not_draft hfilled.sound (by simp [hcell])
    rw [hwalk, hi, Option.map_some, hkept] at hc
    cases hc
    refine ⟨rfl, ?_⟩
    show ((o.cells[i]?).elim .empty Cell.node).map BuiltNode.kept = _
    rw [hcell]
    rfl

/-- A map that is made cannot be told apart from the map of all cells. -/
theorem build_bisimilar_toMap (ho : o.WellFormed) {value : Value} {m : TraceMap BuiltNode}
    (h : o.build value = .ok m) : ∃ n, o.toMap value = .ok n ∧ n.Bisimilar m := by
  cases value with
  | plain value => cases h
  | cell root =>
    have hnone : o.firstFault? [] [.child [] (.cell root)] = none := by
      rw [Option.eq_none_iff_forall_ne_some]
      intro f hf
      rw [build_eq_error_iff.2 hf] at h
      cases h
    obtain ⟨b, hfilled, hroot, rfl⟩ := filled_of_build h
    refine ⟨o.mapAt root, by rw [toMap, hnone], fun i x => b.Stands o i ∧ x = b.nodeOf i, ?_, hroot,
      rfl⟩
    constructor
    case payload =>
      intro i x ⟨hi, hx⟩ use
      rw [hx, hfilled.node_toMap ho hi]
      cases use <;> rfl
    case isEsm =>
      intro i x ⟨hi, hx⟩
      rw [hx, hfilled.node_toMap ho hi]
      rfl
    case children =>
      intro i x ⟨hi, hx⟩
      rw [hx, hfilled.node_toMap ho hi]
      show List.Forall₂ _ _ (List.map _ _)
      rw [List.forall₂_map_right_iff, List.forall₂_same]
      intro p hp
      refine ⟨rfl, ?_, rfl⟩
      show b.Stands o p.2
      have hp : p ∈ ((o.cells[i]?).elim .empty Cell.node).children := hp
      cases hcell : o.cells[i]? with
      | none =>
        rw [hcell] at hp
        cases hp
      | some cell =>
        rw [hcell, Option.elim_some, Cell.children_node] at hp
        exact hfilled.stands_links ho hi hcell hp

/-- A map is made of every outline that is a map. -/
theorem exists_build_of_toMap (ho : o.WellFormed) {value : Value} {n : TraceMap Nat}
    (h : o.toMap value = .ok n) : ∃ m, o.build value = .ok m ∧ n.Bisimilar m := by
  cases hbuild : o.build value with
  | ok m =>
    obtain ⟨n', hn', hm⟩ := build_bisimilar_toMap ho hbuild
    cases h.symm.trans hn'
    exact ⟨m, rfl, hm⟩
  | error f =>
    have hfault := build_eq_error_iff.1 hbuild
    cases value with
    | plain value => cases h
    | cell root =>
      rw [toMap, hfault] at h
      cases h

/-- **A built map is a faithful copy.** Making a map of an outline ends in a fault exactly if the
outline has one: the value is no cell, or names lead to a draft with an entry that means nothing or
has no cell where one is needed. The fault is then the one of the least address. Otherwise the map
copies the outline. -/
theorem build_copies_outline (ho : o.WellFormed) (value : Value) :
    ((∃ f, o.build value = .error f) ↔ o.HasFault value) ∧
    (∀ f, o.build value = .error f ↔ o.IsFirstFault value f) ∧
    ∀ m, o.build value = .ok m → ∃ root, value = .cell root ∧ o.Copies root m := by
  refine ⟨?_, ?_, ?_⟩
  · simp only [build_eq_error_iff]
    rw [← Option.isSome_iff_exists, ← not_iff_not, Option.not_isSome_iff_eq_none]
    exact firstFault?_child_eq_none_iff
  · intro f
    rw [build_eq_error_iff, firstFault?_child_eq_some_iff]
  · intro m hm
    cases value with
    | plain value => cases hm
    | cell root => exact ⟨root, rfl, copies_of_build ho hm⟩

/-- An outline of three cells: an empty draft, its finished copy, and a draft that leads to itself,
to the finished cell and twice to the empty one. -/
def knotOutline : Outline where
  cells := [.draft [], .finished .empty,
    .draft [.child "self" (.cell 2), .child "done" (.cell 1), .child "a" (.cell 0),
      .payload .read (.bool true), .child "b" (.cell 0), .esm]]

theorem wellFormed_knotOutline : knotOutline.WellFormed := by
  have hfinish : empty.addCell.finish (.cell 0) = .ok
      (⟨[.draft [], .finished .empty]⟩, .cell 1) := by
    have hnone : empty.addCell.firstFault? [] [.child [] (.cell 0)] = none := by
      simp [firstFault?, empty, addCell]
    rw [finish, toMap, hnone]
    rfl
  have hwritten : ((((((Outline.mk [.draft [], .finished .empty]).addCell.addEntry 2
      (.child "self" (.cell 2))).addEntry 2 (.child "done" (.cell 1))).addEntry 2
      (.child "a" (.cell 0))).addEntry 2 (.payload .read (.bool true))).addEntry 2
      (.child "b" (.cell 0))).addEntry 2 .esm = knotOutline := rfl
  have hdone := (wellFormed_empty.addCell.finish hfinish).addCell
  rw [← hwritten]
  refine (((((hdone.addEntry 2 ?_).addEntry 2 ?_).addEntry 2 ?_).addEntry 2 ?_).addEntry 2
    ?_).addEntry 2 ?_
  all_goals
    intro name j heq
    cases heq <;> decide

theorem build_copies_outline_knot : knotOutline.WellFormed ∧ ¬ knotOutline.HasFault (.cell 2) ∧
    ∃ m, knotOutline.build (.cell 2) = .ok m ∧ knotOutline.Copies 2 m := by
  have hnone : ¬ knotOutline.HasFault (.cell 2) := by
    intro ⟨i, entries, _, hcell, entry, hentry, hfault⟩
    have hmem := List.mem_of_getElem? hcell
    simp only [knotOutline, List.mem_cons, Cell.draft.injEq, reduceCtorEq, List.not_mem_nil,
      or_false, false_or] at hmem
    rcases hmem with rfl | rfl
    · cases hentry
    · simp only [List.mem_cons, List.not_mem_nil, or_false] at hentry
      rcases hentry with rfl | rfl | rfl | rfl | rfl | rfl <;> cases hfault
  obtain ⟨hfault, -, hcopies⟩ := build_copies_outline wellFormed_knotOutline (.cell 2)
  cases hm : knotOutline.build (.cell 2) with
  | error f => exact absurd (hfault.1 ⟨f, hm⟩) hnone
  | ok m =>
    obtain ⟨root, hroot, hcopy⟩ := hcopies m hm
    cases hroot
    exact ⟨wellFormed_knotOutline, hnone, m, rfl, hcopy⟩

end Outline

end ApiTrace
