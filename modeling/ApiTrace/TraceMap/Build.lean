import ApiTrace.TraceMap.Outline

/-!
# Building trace maps

`Outline.build` makes a trace map of an outline. Each draft that is come to gets one node, which is
there before the entries of the draft are looked at, so a draft that is used twice, or inside
itself, becomes one node that is used twice or lies on a cycle. Finished cells are kept as they are.
The entries are looked at depth first, and the first one that means nothing ends the work.
-/

namespace ApiTrace.Outline

/-- A node of a map that is made of an outline: the node of a draft, by the order in which the
drafts were come to, or a finished cell that was kept. -/
inductive BuiltNode where
  | made (number : Nat)
  | kept (cell : Nat)
deriving DecidableEq

/-- A map in the making: the drafts that have a node so far, and their nodes in the same order. -/
structure Builder where
  drafts : List Nat
  nodes : List (MapNode BuiltNode)

namespace Builder

/-- Nothing made so far. -/
def empty : Builder := ⟨[], []⟩

/-- Makes an empty node for a draft. -/
def make (b : Builder) (i : Nat) : Builder := ⟨b.drafts ++ [i], b.nodes ++ [.empty]⟩

/-- The node that stands for a cell. -/
def nodeOf (b : Builder) (i : Nat) : BuiltNode :=
  if i ∈ b.drafts then .made (b.drafts.idxOf i) else .kept i

/-- Changes a node. -/
def modify (b : Builder) (owner : Nat) (f : MapNode BuiltNode → MapNode BuiltNode) : Builder :=
  { b with nodes := b.nodes.modify owner f }

/-- Makes a cell a child of a node. -/
def link (b : Builder) (owner : Nat) (name : Text) (i : Nat) : Builder :=
  b.modify owner fun node => { node with children := node.children ++ [(name, b.nodeOf i)] }

/-- The map of all nodes, looked at from one of them. -/
def toMap (b : Builder) (o : Outline) (root : BuiltNode) : TraceMap BuiltNode where
  root
  node
    | .made n => (b.nodes[n]?).getD .empty
    | .kept i => ((o.cells[i]?).elim .empty Cell.node).map .kept

end Builder

theorem unseen_append_length_lt {o : Outline} {seen : List Nat} {i : Nat} (hi : i < o.cells.length)
    (hs : i ∉ seen) : (o.unseen (seen ++ [i])).length < (o.unseen seen).length := by
  have hsame : o.unseen (seen ++ [i]) = o.unseen (i :: seen) := by
    simp [unseen, and_comm]
  rw [hsame]
  exact unseen_length_lt hi hs

/-- Puts entries into the nodes that they belong to. The entries of a draft that has no node yet
come before the others. -/
def fill (o : Outline) (b : Builder) : List (Nat × Entry) → Except Fault Builder
  | [] => .ok b
  | (owner, .payload use value) :: rest => o.fill (b.modify owner (·.setPayload use value)) rest
  | (owner, .esm) :: rest => o.fill (b.modify owner fun node => { node with isEsm := true }) rest
  | (_, .unsupported key) :: _ => .error (.unsupportedKey key)
  | (_, .child _ (.plain value)) :: _ => .error (.notANode value)
  | (owner, .child name (.cell i)) :: rest =>
    if h : i < o.cells.length ∧ i ∉ b.drafts then
      match o.cells[i] with
      | .draft entries =>
        o.fill ((b.make i).link owner name i) (entries.map (b.nodes.length, ·) ++ rest)
      | .finished _ => o.fill (b.link owner name i) rest
    else o.fill (b.link owner name i) rest
termination_by entries => ((o.unseen b.drafts).length, entries.length)
decreasing_by
  · exact Prod.Lex.right _ (by simp)
  · exact Prod.Lex.right _ (by simp)
  · exact Prod.Lex.left _ _ (unseen_append_length_lt h.1 h.2)
  · exact Prod.Lex.right _ (by simp)
  · exact Prod.Lex.right _ (by simp)

/-- The trace map that is made of a value. -/
def build (o : Outline) : Value → Except Fault (TraceMap BuiltNode)
  | .plain value => .error (.notANode value)
  | .cell root =>
    match o.cells[root]? with
    | some (.draft entries) =>
      (o.fill (Builder.empty.make root) (entries.map (0, ·))).map (·.toMap o (.made 0))
    | _ => .ok (Builder.empty.toMap o (.kept root))

end ApiTrace.Outline
