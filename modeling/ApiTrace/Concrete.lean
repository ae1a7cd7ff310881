import ApiTrace.Source

/-!
# Concrete syntax trees

What a grammar makes of a source: a tree with a node for every token and every rule. A node has a
kind, a place, a flag for whether it is named in the grammar, the name of the field that it fills in
its parent, and its children in source order. Kinds are open: a tree may hold kinds that this
library does not know.
-/

namespace ApiTrace

/-- What a concrete node is without its children. -/
structure Concrete.Head where
  kind : String
  named : Bool
  span : Span
  field : Option String
deriving DecidableEq, Inhabited

/-- A node of a concrete syntax tree. -/
inductive Concrete where
  | mk (head : Concrete.Head) (children : List Concrete)
deriving Inhabited

namespace Concrete

/-- What the node is without its children. -/
def head : Concrete → Head
  | .mk head _ => head

/-- The children in source order. -/
def children : Concrete → List Concrete
  | .mk _ children => children

end Concrete

/-- The concrete syntax tree of a source, and whether the source has syntax errors. -/
structure ConcreteTree where
  root : Concrete
  hasError : Bool

end ApiTrace
