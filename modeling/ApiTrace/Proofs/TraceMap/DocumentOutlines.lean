import ApiTrace.Proofs.Json.Distinct
import ApiTrace.Proofs.TraceMap.Build
import ApiTrace.Proofs.TraceMap.Schema

/-!
# Documents as outlines

A trace map can be written as a document or as an outline. `Document.outline` writes a document as
an outline: every node becomes a draft, its payloads become entries for their uses, and its
properties become names that lead to the drafts of the nodes below. Drafts are numbered by the order
of the paths that lead to them.

A draft is marked as an ECMAScript module or it is not, and the mark has no value. So the outline
depends on the flags that become marks. If those that are read as true do, the map that is built of
the outline says at every path what the map of the document says there. If every flag that is given
does, then a node whose flag is read as false is an ECMAScript module in one map only
(`Document.outline_agrees`). How flags are read is left to the validator.
-/

namespace ApiTrace.Document

open Outline

open Validator (Reads)

variable {document node : Json} {path : List Text} {name : Text} {marks : Bool → Bool}
  {number : Text → Nat}

/-! ## Paths -/

/-- The paths of property names that lead from a node to the nodes below it, its own path first. -/
def paths (node : Json) : List (List Text) :=
  [] :: (nodesBelow node).attach.flatMap fun p => (paths p.1.2).map (p.1.1 :: ·)
termination_by sizeOf node
decreasing_by exact sizeOf_lt_of_mem_nodesBelow p.2

theorem paths_eq (node : Json) :
    paths node = [] :: (nodesBelow node).flatMap fun p => (paths p.2).map (p.1 :: ·) := by
  rw [paths]
  congr 1
  rw [List.flatMap_subtype (g := fun p => (paths p.2).map (p.1 :: ·)) fun _ _ => rfl,
    List.unattach_attach]

theorem find?_append (node : Json) (p q : List Text) :
    find? node (p ++ q) = (find? node p).bind fun child => find? child q := by
  induction p generalizing node with
  | nil => rfl
  | cons name path ih =>
    simp only [List.cons_append, find?]
    cases (nodesBelow node).lookup name with
    | none => rfl
    | some child => exact ih child

theorem mem_paths_of_find? {child : Json} (h : find? node path = some child) :
    path ∈ paths node := by
  induction path generalizing node with
  | nil =>
    rw [paths_eq]
    exact List.mem_cons_self
  | cons name path ih =>
    obtain ⟨below, hbelow, h⟩ := Option.bind_eq_some_iff.1 h
    obtain ⟨l, l', hnodes, -⟩ := List.lookup_eq_some_iff.1 hbelow
    rw [paths_eq]
    refine List.mem_cons_of_mem _ (List.mem_flatMap.2 ⟨(name, below), by simp [hnodes], ?_⟩)
    exact List.mem_map_of_mem (ih h)

theorem distinct_nodesBelow (h : node.Distinct) :
    ((nodesBelow node).map Prod.fst).Nodup ∧ ∀ p ∈ nodesBelow node, p.2.Distinct := by
  unfold nodesBelow
  split
  · rename_i nodes hnodes
    cases h with
    | object names values =>
      obtain ⟨l, l', hmembers, -⟩ := List.lookup_eq_some_iff.1 hnodes
      have hmember : (Text.ofString "properties", Json.object nodes) ∈
          l ++ (Text.ofString "properties", .object nodes) :: l' := by simp
      cases values _ (hmembers ▸ hmember) with
      | object names' values' => exact ⟨names', values'⟩
    | _ => cases hnodes
  · exact ⟨List.nodup_nil, by simp⟩

theorem distinct_of_find? {child : Json} (hnode : node.Distinct)
    (h : find? node path = some child) :
    child.Distinct := by
  induction path generalizing node with
  | nil =>
    cases h
    exact hnode
  | cons name path ih =>
    obtain ⟨below, hbelow, h⟩ := Option.bind_eq_some_iff.1 h
    obtain ⟨l, l', hnodes, -⟩ := List.lookup_eq_some_iff.1 hbelow
    exact ih ((distinct_nodesBelow hnode).2 (name, below) (by simp [hnodes])) h

/-! ## Writing -/

section Writing

variable [Validator]

/-- Whether a node has a flag that becomes a mark, where `marks` says which flags do. -/
def isMarked (marks : Bool → Bool) (node : Json) : Bool :=
  (node.member? "esm").any fun v =>
    match Validator.boolean v with
    | .ok b => marks b
    | .error _ => false

/-- A node as entries, where `number` gives the cells of its properties. -/
def nodeEntries (marks : Bool → Bool) (number : Text → Nat) (node : Json) : List Outline.Entry :=
  Use.all.filterMap (fun use => (node.member? use.name).map (Outline.Entry.payload use)) ++
    (if isMarked marks node then [Outline.Entry.esm] else []) ++
    (nodesBelow node).map fun p => Outline.Entry.child p.1 (.cell (number p.1))

/-- The number of the draft at a path. -/
def cellNumber (node : Json) (path : List Text) : Nat := (paths node).idxOf path

/-- The draft at a path. -/
def cellAt (marks : Bool → Bool) (node : Json) (path : List Text) : Cell :=
  .draft ((find? node path).elim []
    (nodeEntries marks fun name => cellNumber node (path ++ [name])))

/-- A document as an outline. The first draft is the one of the whole document. -/
def outline (marks : Bool → Bool) (document : Json) : Outline where
  cells := (paths (asNode document)).map (cellAt marks (asNode document))

/-! ## Entries -/

/-- Whether a value is read as a flag that becomes a mark. -/
def Marks (marks : Bool → Bool) (v : Json) : Prop := ∃ b, Reads v b ∧ marks b = true

theorem isMarked_iff :
    isMarked marks node = true ↔ ∃ v, node.member? "esm" = some v ∧ Marks marks v := by
  unfold isMarked Marks Reads
  cases node.member? "esm" with
  | none => simp
  | some v =>
    rw [Option.any_some]
    cases hflag : Validator.boolean v with
    | error kind => simp [hflag]
    | ok b => cases b <;> simp [hflag]

theorem mem_nodeEntries {entry : Outline.Entry} :
    entry ∈ nodeEntries marks number node ↔
      (∃ use v, node.member? use.name = some v ∧ entry = .payload use v) ∨
      (isMarked marks node = true ∧ entry = .esm) ∨
      ∃ p ∈ nodesBelow node, entry = .child p.1 (.cell (number p.1)) := by
  have hall : ∀ use, use ∈ Use.all := by
    intro use
    cases use <;> decide
  rw [nodeEntries, List.mem_append, List.mem_append, or_assoc]
  refine or_congr ?_ (or_congr ?_ ?_)
  · simp [hall, eq_comm]
  · split <;> simp_all
  · simp [eq_comm]

theorem fault?_of_mem_nodeEntries {entry : Outline.Entry}
    (h : entry ∈ nodeEntries marks number node) :
    entry.fault? = none := by
  obtain ⟨use, v, -, rfl⟩ | ⟨-, rfl⟩ | ⟨p, -, rfl⟩ := mem_nodeEntries.1 h <;> rfl

/-- What is drawn from children only is drawn from the entries for the properties. -/
theorem filterMap_nodeEntries {α : Type} {f : Outline.Entry → Option α}
    (hpayload : ∀ use v, f (.payload use v) = none) (hesm : f .esm = none) :
    (nodeEntries marks number node).filterMap f =
      (nodesBelow node).filterMap fun p => f (.child p.1 (.cell (number p.1))) := by
  have hmarks : (if isMarked marks node then [Outline.Entry.esm] else []).filterMap f = [] := by
    split <;> simp [hesm]
  rw [nodeEntries, List.filterMap_append, List.filterMap_append, hmarks, List.filterMap_filterMap,
    List.filterMap_map]
  simp [hpayload]

theorem filterMap_link?_nodeEntries :
    (nodeEntries marks number node).filterMap Outline.Entry.link? =
      (nodesBelow node).map fun p => (p.1, number p.1) := by
  rw [filterMap_nodeEntries (fun _ _ => rfl) rfl]
  exact congrFun List.filterMap_eq_map' _

theorem filterMap_name?_nodeEntries :
    (nodeEntries marks number node).filterMap Outline.Entry.name? = (nodesBelow node).map
      Prod.fst := by
  rw [filterMap_nodeEntries (fun _ _ => rfl) rfl]
  exact congrFun List.filterMap_eq_map' _

theorem pairwise_nodeEntries (h : ((nodesBelow node).map Prod.fst).Nodup) :
    (nodeEntries marks number node).Pairwise fun entry entry' => entry.sameKey entry' = false := by
  have huses : Use.all.Pairwise (· ≠ ·) := by decide
  rw [nodeEntries, List.pairwise_append, List.pairwise_append]
  refine ⟨⟨?_, ?_, ?_⟩, ?_, ?_⟩
  · rw [List.pairwise_filterMap]
    refine huses.imp ?_
    intro use use' hne entry hentry entry' hentry'
    obtain ⟨v, -, rfl⟩ := Option.map_eq_some_iff.1 hentry
    obtain ⟨v', -, rfl⟩ := Option.map_eq_some_iff.1 hentry'
    exact beq_eq_false_iff_ne.2 hne
  · split <;> simp
  · intro entry hentry entry' hentry'
    obtain ⟨use, -, hentry⟩ := List.mem_filterMap.1 hentry
    obtain ⟨v, -, rfl⟩ := Option.map_eq_some_iff.1 hentry
    split at hentry'
    · rw [List.mem_singleton.1 hentry']
      rfl
    · cases hentry'
  · rw [List.pairwise_map]
    exact (List.pairwise_map.1 h).imp beq_eq_false_iff_ne.2
  · intro entry hentry entry' hentry'
    obtain ⟨p, -, rfl⟩ := List.mem_map.1 hentry'
    rcases List.mem_append.1 hentry with hentry | hentry
    · obtain ⟨use, -, hentry⟩ := List.mem_filterMap.1 hentry
      obtain ⟨v, -, rfl⟩ := Option.map_eq_some_iff.1 hentry
      rfl
    · split at hentry
      · rw [List.mem_singleton.1 hentry]
        rfl
      · cases hentry

/-! ## Building -/

theorem getElem?_cells_outline {node : Json} (h : find? (asNode document) path = some node) :
    (outline marks document).cells[cellNumber (asNode document) path]? =
      some (.draft (nodeEntries marks (fun name => cellNumber (asNode document) (path ++ [name]))
        node)) := by
  show ((paths (asNode document)).map (cellAt marks (asNode document)))[_]? = _
  rw [List.getElem?_map, cellNumber, List.getElem?_idxOf (mem_paths_of_find? h), Option.map_some,
    cellAt, h]
  rfl

/-- Every cell is a draft, and the entries are those of a node. -/
theorem cell_outline {i : Nat} {cell : Cell} (h : (outline marks document).cells[i]? = some cell) :
    cell = .draft [] ∨ ∃ path node, find? (asNode document) path = some node ∧
      cell = .draft (nodeEntries marks
        (fun name => cellNumber (asNode document) (path ++ [name])) node) := by
  obtain ⟨path, -, hcell⟩ := Option.map_eq_some_iff.1 ((List.getElem?_map ..).symm.trans h)
  rw [cellAt] at hcell
  cases hfind : find? (asNode document) path with
  | none =>
    rw [hfind] at hcell
    exact .inl hcell.symm
  | some node =>
    rw [hfind] at hcell
    exact .inr ⟨path, node, hfind, hcell.symm⟩

theorem cellNumber_lt {p : Text × Json} (h : find? (asNode document) path = some node)
    (hp : p ∈ nodesBelow node) :
    cellNumber (asNode document) (path ++ [p.1]) < (outline marks document).cells.length := by
  have hlookup : (nodesBelow node).lookup p.1 ≠ none := by
    rw [Ne, List.lookup_eq_none_iff]
    intro hnone
    simpa using hnone p hp
  obtain ⟨child, hchild⟩ := Option.ne_none_iff_exists'.1 hlookup
  have hfind : find? (asNode document) (path ++ [p.1]) = some child := by
    rw [find?_append, h, Option.bind_some, find?, hchild]
    rfl
  exact (List.getElem?_eq_some_iff.1 (getElem?_cells_outline hfind)).1

theorem wellFormed_outline (h : document.Distinct) : (outline marks document).WellFormed := by
  have hroot : (asNode document).Distinct := by
    refine .object (by simp) ?_
    intro p hp
    rw [List.mem_singleton.1 hp]
    exact h
  constructor
  case keys =>
    intro i entries hcell
    rcases cell_outline hcell with hnil | ⟨path, node, hfind, hentries⟩
    · cases hnil
      exact .nil
    · cases hentries
      exact pairwise_nodeEntries (distinct_nodesBelow (distinct_of_find? hroot hfind)).1
  case known =>
    intro i entries hcell name j hchild
    rcases cell_outline hcell with hnil | ⟨path, node, hfind, hentries⟩
    · cases hnil
      cases hchild
    · cases hentries
      obtain ⟨use, v, -, hentry⟩ | ⟨-, hentry⟩ | ⟨p, hp, hentry⟩ := mem_nodeEntries.1 hchild
      · cases hentry
      · cases hentry
      · cases hentry
        exact cellNumber_lt hfind hp
  case finished =>
    intro i node hcell
    rcases cell_outline hcell with hnil | ⟨path, node, hfind, hentries⟩
    · cases hnil
    · cases hentries

theorem not_hasFault_outline : ¬ (outline marks document).HasFault (.cell 0) := by
  rintro ⟨i, entries, -, hcell, entry, hentry, hfault⟩
  rcases cell_outline hcell with hnil | ⟨path, node, hfind, hentries⟩
  · cases hnil
    cases hentry
  · cases hentries
    rw [fault?_of_mem_nodeEntries hentry] at hfault
    cases hfault

theorem follow?_outline (path' : List Text) (h : find? (asNode document) path = some node) :
    (outline marks document).follow? (cellNumber (asNode document) path) path' =
      (find? node path').map fun _ => cellNumber (asNode document) (path ++ path') := by
  induction path' generalizing path node with
  | nil => simp [follow?, find?]
  | cons name path' ih =>
    rw [follow?, getElem?_cells_outline h, Option.bind_some, find?]
    show (((nodeEntries _ _ _).filterMap Outline.Entry.link?).lookup name).bind _ = _
    rw [filterMap_link?_nodeEntries,
      DocumentNode.lookup_map_name fun key => cellNumber (asNode document) (path ++ [key])]
    cases hchild : (nodesBelow node).lookup name with
    | none => rfl
    | some child =>
      have hfind : find? (asNode document) (path ++ [name]) = some child := by
        rw [find?_append, h, Option.bind_some, find?, hchild]
        rfl
      rw [Option.map_some, Option.bind_some, Option.bind_some, ih hfind, List.append_assoc]
      rfl

theorem describes_of_copies {m c : TraceMap BuiltNode} {i : Nat}
    (h : (outline marks document).Copies 0 m) (hc : m.walk? path = some c)
    (hi : (outline marks document).follow? 0 path = some i)
    (hcell : (outline marks document).cells[i]? = some (.draft (nodeEntries marks number node))) :
    Describes (Marks marks) node c := by
  obtain ⟨-, hkeys, hpayload, hesm⟩ := h.drafts path c i _ hc hi hcell
  constructor
  case keys => rw [hkeys, filterMap_name?_nodeEntries]
  case payload =>
    intro use
    apply Option.ext
    intro v
    rw [hpayload, mem_nodeEntries, Option.filter_eq_some_iff]
    simp
  case isEsm =>
    rw [hesm, mem_nodeEntries, ← isMarked_iff]
    simp

theorem exists_build_outline (h : document.Distinct) (marks : Bool → Bool) :
    ∃ m, (outline marks document).build (.cell 0) = .ok m ∧
      ∀ path, Option.Rel (Describes (Marks marks)) (find? (asNode document) path)
        (m.walk? path) := by
  cases hbuild : (outline marks document).build (.cell 0) with
  | error f =>
    have hnone : (outline marks document).firstFault? [] [.child [] (.cell 0)] = none :=
      firstFault?_child_eq_none_iff.2 not_hasFault_outline
    rw [build_eq_error_iff.1 hbuild] at hnone
    cases hnone
  | ok m =>
    refine ⟨m, rfl, ?_⟩
    intro path
    have hroot : cellNumber (asNode document) [] = 0 := by
      rw [cellNumber, paths_eq]
      exact List.idxOf_cons_self
    have hcopies := copies_of_build (wellFormed_outline h) hbuild
    have hfollow : (outline marks document).follow? 0 path =
        (find? (asNode document) path).map fun _ => cellNumber (asNode document) path := by
      rw [← hroot]
      exact follow?_outline path rfl
    have hleads := hcopies.leads path
    rw [hfollow, Option.isSome_map] at hleads
    cases hfind : find? (asNode document) path with
    | none =>
      rw [hfind] at hleads
      rw [Option.isSome_eq_false_iff.1 hleads |> Option.isNone_iff_eq_none.1]
      exact .none
    | some node =>
      rw [hfind] at hleads hfollow
      obtain ⟨c, hc⟩ := Option.isSome_iff_exists.1 hleads
      rw [hc]
      exact .some (describes_of_copies hcopies hc hfollow (getElem?_cells_outline hfind))

/-! ## Agreement -/

/-- Whether two maps have the same names in the same order and report the same. -/
structure AgreesWith {ι κ : Type} (m : TraceMap ι) (n : TraceMap κ) : Prop where
  keys : m.keys = n.keys
  payload : ∀ use, m.payload? use = n.payload? use

/-- Whether the flag of the node at a path is read as false. -/
def IsFalseAt (document : Json) (path : List Text) : Prop :=
  ∃ node v, find? (asNode document) path = some node ∧ node.member? "esm" = some v ∧ Reads v false

/-- Two maps that say what one node says are related. -/
theorem rel_of_describes {ι κ : Type} {m : Option (TraceMap ι)} {n : Option (TraceMap κ)}
    {found : Option Json} {R : TraceMap ι → TraceMap κ → Prop}
    (hm : Option.Rel (Describes (Reads · true)) found m)
    (hn : Option.Rel (Describes (Marks marks)) found n)
    (hR : ∀ node c d, found = some node → AgreesWith c d → Describes (Reads · true) node c →
      Describes (Marks marks) node d → R c d) : Option.Rel R m n := by
  cases hm with
  | none =>
    cases hn
    exact .none
  | some hc =>
    cases hn with
    | some hd =>
      have hpayload := fun use => (hc.payload use).trans (hd.payload use).symm
      exact .some (hR _ _ _ rfl ⟨hc.keys.trans hd.keys.symm, hpayload⟩ hc hd)

/-- **The two ways to write a map agree, but for flags that are false.** Every document that is a
map can be written as an outline from which a map is built.

* If the flags that are read as true become marks, the same paths lead somewhere in both maps, and
  at every path both have the same names in the same order, report the same, and are ECMAScript
  modules or not.
* If all flags become marks, the same holds, except that at a path where the flag is read as false
  only the node of the outline is an ECMAScript module. -/
theorem outline_agrees {m : TraceMap (List Text)} (hdistinct : document.Distinct)
    (hm : toMap document = .ok m) :
    (∃ n, (outline id document).build (.cell 0) = .ok n ∧
      ∀ path, Option.Rel (fun c d => AgreesWith c d ∧ c.isEsm = d.isEsm) (m.walk? path)
        (n.walk? path)) ∧
    ∃ n, (outline (fun _ => true) document).build (.cell 0) = .ok n ∧
      ∀ path, Option.Rel (fun c d => AgreesWith c d ∧
        (¬ IsFalseAt document path → c.isEsm = d.isEsm) ∧
        (IsFalseAt document path → c.isEsm = false ∧ d.isEsm = true)) (m.walk? path)
          (n.walk? path) := by
  have hdocument := describes_walk? (asNode document)
  obtain ⟨-, rfl⟩ := toMap_eq_ok hm
  refine ⟨?_, ?_⟩
  · obtain ⟨n, hbuild, hn⟩ := exists_build_outline hdistinct id
    refine ⟨n, hbuild, fun path => rel_of_describes (hdocument path) (hn path) ?_⟩
    intro node c d _ hagrees hc hd
    refine ⟨hagrees, ?_⟩
    rw [Bool.eq_iff_iff, hc.isEsm, hd.isEsm]
    simp [Marks]
  · obtain ⟨n, hbuild, hn⟩ := exists_build_outline hdistinct fun _ => true
    refine ⟨n, hbuild, fun path => rel_of_describes (hdocument path) (hn path) ?_⟩
    intro node c d hfind hagrees hc hd
    refine ⟨hagrees, ?_, ?_⟩
    · intro hfalse
      rw [Bool.eq_iff_iff, hc.isEsm, hd.isEsm]
      constructor
      · rintro ⟨v, hv, htrue⟩
        exact ⟨v, hv, true, htrue, rfl⟩
      · rintro ⟨v, hv, b, hb, -⟩
        cases b with
        | true => exact ⟨v, hv, hb⟩
        | false => exact absurd ⟨node, v, hfind, hv, hb⟩ hfalse
    · rintro ⟨node', v, hnode', hv, hfalse⟩
      cases hfind.symm.trans hnode'
      refine ⟨?_, hd.isEsm.2 ⟨v, hv, false, hfalse, rfl⟩⟩
      rw [Bool.eq_false_iff, Ne, hc.isEsm]
      rintro ⟨v', hv', htrue⟩
      cases hv.symm.trans hv'
      cases hfalse.symm.trans htrue

end Writing

/-- A root with a flag that spells false, above a node with one that spells true. -/
def flaggedDocument : Json :=
  .object [("m", .object [("esm", .bool false), ("properties", .object [("a", .object
    [("read", .int 1), ("esm", .string "yes")])])])]

theorem distinct_flaggedDocument : flaggedDocument.Distinct := by
  have hleaf : Json.Distinct (.object [("read", .int 1), ("esm", .string "yes")]) :=
    .object (by decide) (by simp [Json.Distinct.int, Json.Distinct.string])
  have hbelow : Json.Distinct
      (.object [("a", .object [("read", .int 1), ("esm", .string "yes")])]) :=
    .object (by decide) (by simp [hleaf])
  exact .object (by decide)
    (by simpa using .object (by decide) (by simp [Json.Distinct.bool, hbelow]))

theorem outline_agrees_flagged : flaggedDocument.Distinct ∧ ∃ m, toMap flaggedDocument = .ok m ∧
    ∃ n, (outline (fun _ => true) flaggedDocument).build (.cell 0) = .ok n ∧
      ∃ c d, m.walk? ["m"] = some c ∧ n.walk? ["m"] = some d ∧ c.isEsm = false ∧
        d.isEsm = true := by
  have hm : toMap flaggedDocument = .ok (DocumentNode.ofJson (asNode flaggedDocument)).toMap := rfl
  have hfalse : IsFalseAt flaggedDocument ["m"] := ⟨_, _, rfl, rfl, rfl⟩
  refine ⟨distinct_flaggedDocument, _, hm, ?_⟩
  obtain ⟨-, n, hbuild, hpaths⟩ := outline_agrees distinct_flaggedDocument hm
  refine ⟨n, hbuild, ?_⟩
  have hpath := hpaths ["m"]
  cases hc : (DocumentNode.ofJson (asNode flaggedDocument)).toMap.walk? ["m"] with
  | none => cases hc
  | some c =>
    rw [hc] at hpath
    cases hd : n.walk? ["m"] with
    | none =>
      rw [hd] at hpath
      cases hpath
    | some d =>
      rw [hd] at hpath
      cases hpath with
      | some hcd => exact ⟨c, d, rfl, rfl, hcd.2.2 hfalse⟩

end ApiTrace.Document
