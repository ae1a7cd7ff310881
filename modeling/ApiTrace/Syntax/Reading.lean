import ApiTrace.Concrete
import ApiTrace.Syntax.Escape
import ApiTrace.Syntax.Node

/-!
# Readings of concrete nodes

A concrete tree is read from its leaves up. The reading of a concrete node holds the readings of its
children and the syntax node that it stands for. So the rule for one kind of node only has to look
at the readings of its children, and at theirs, and reading a tree is recursion over the tree.

Comments stand for no node, and neither do parentheses around nothing.
-/

namespace ApiTrace

/-- Why a concrete tree cannot be read as a program. -/
inductive SyntaxFault where
  /-- The source has surrogates and so no bytes. -/
  | notEncodable
  /-- A node begins or ends inside a character. -/
  | text (fault : Utf8.Fault)
  /-- An escape sequence stands for no code point. -/
  | escape (fault : Escape.Fault)
  /-- A number cannot be read. -/
  | numeral (fault : Numeral.Fault)
  /-- A part that the rule needs is not there. -/
  | missingPart
  /-- A clause that must hold a name is empty. -/
  | emptyClause
deriving DecidableEq

/-- What comes of reading: a value or a fault. -/
abbrev Outcome (α : Type) := Except SyntaxFault α

/-- A concrete node with its children read. -/
inductive Reading where
  | mk (head : Concrete.Head) (children : List Reading) (node : Outcome (Option Node))

/-- A concrete node whose children are read and which is itself still to be read. -/
structure Phrase where
  head : Concrete.Head
  children : List Reading

namespace Reading

/-- The concrete node without what it stands for. -/
def phrase : Reading → Phrase
  | .mk head children _ => ⟨head, children⟩

/-- The node that the concrete node stands for. -/
def node : Reading → Outcome (Option Node)
  | .mk _ _ node => node

/-- The kind of the concrete node. -/
def kind (r : Reading) : String := r.phrase.head.kind

/-- The place of the concrete node. -/
def span (r : Reading) : Span := r.phrase.head.span

/-- The kinds of nodes that carry no syntax of their own. -/
def skippedKinds : List String := ["comment", "hash_bang_line", "html_comment"]

/-- Whether a child counts as a part of its parent: it is named and is no comment. -/
def counts (r : Reading) : Bool := r.phrase.head.named && !skippedKinds.contains r.kind

end Reading

namespace Phrase

/-- The kind of the concrete node. -/
def kind (p : Phrase) : String := p.head.kind

/-- The place of the concrete node. -/
def span (p : Phrase) : Span := p.head.span

/-- The children that count. -/
def named (p : Phrase) : List Reading := p.children.filter Reading.counts

/-- The first child that fills a field. -/
def child? (p : Phrase) (field : String) : Option Reading :=
  p.children.find? (·.phrase.head.field == some field)

/-- All children that fill a field. -/
def childrenIn (p : Phrase) (field : String) : List Reading :=
  p.children.filter (·.phrase.head.field == some field)

/-- Whether there is a child of a kind. -/
def hasToken (p : Phrase) (kind : String) : Bool := p.children.any (·.kind == kind)

/-- The node of a form at the place of the concrete node. -/
def build (p : Phrase) (form : Form) : Node := .mk p.span form

/-- The source text of the concrete node. -/
def text (src : Source) (p : Phrase) : Outcome Text := (src.textOf p.span).mapError .text

/-- The node that a child stands for, if there is one. -/
def nodeOf : Option Reading → Outcome (Option Node)
  | none => .ok none
  | some r => r.node

/-- The node that the child in a field stands for. -/
def fieldNode (p : Phrase) (field : String) : Outcome (Option Node) := nodeOf (p.child? field)

/-- The node that the first child that counts stands for. -/
def firstNode (p : Phrase) : Outcome (Option Node) := nodeOf p.named.head?

/-- The nodes that some children stand for. -/
def nodesOf : List Reading → Outcome (List Node)
  | [] => .ok []
  | r :: rs => do
    let node ← r.node
    let nodes ← nodesOf rs
    return node.toList ++ nodes

/-- The nodes that the children that count stand for. -/
def nodes (p : Phrase) : Outcome (List Node) := nodesOf p.named

/-- The nodes that the children inside a child stand for. -/
def nodesIn : Option Reading → Outcome (List Node)
  | none => .ok []
  | some r => r.phrase.nodes

/-- An identifier named by the source text of the concrete node. -/
def identifier (src : Source) (p : Phrase) : Outcome Node := do
  return p.build (.identifier (← p.text src))

/-- The source text of the child in a field, or a text that stands for it. -/
def fieldText (src : Source) (p : Phrase) (field : String) (absent : Text) : Outcome Text :=
  match p.child? field with
  | some r => r.phrase.text src
  | none => .ok absent

end Phrase

end ApiTrace
