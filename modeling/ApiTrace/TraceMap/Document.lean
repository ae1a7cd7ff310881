import ApiTrace.TraceMap.Basic
import ApiTrace.TraceMap.Validator

/-!
# Trace map documents

A trace map can be written as a JSON document. The document is an object whose members are the roots
of the map; a node is an object with the members `read`, `call` and `construct` for what to report,
`esm` for the shape of a module, and `properties` for the nodes below. This form is declared by
`Document.nodeType`, and a document in which a validator finds nothing wrong is a trace map whose
nodes are known by their paths of property names.
-/

namespace ApiTrace

namespace Document

/-- The member that holds the nodes below a node. -/
def propertiesName : Text := "properties"

/-- The member that says whether a node has the shape of a module. -/
def esmName : Text := "esm"

/-- The members that a node can have. No others are allowed. -/
def nodeType : RecordType where
  fields := [("read", .any), ("call", .any), ("construct", .any), (esmName, .boolean),
    (propertiesName, .dictionary .record)]
  isClosed := true

/-- What is wrong with a document: its roots are nodes. -/
def violations [Validator] (document : Json) : List Violation :=
  Validator.violations nodeType (.dictionary .record) document

end Document

/-! ### Nodes -/

/-- A node of a document with the nodes below it. -/
inductive DocumentNode where
  | mk (onRead onCall onConstruct : Option Json) (isEsm : Bool)
      (properties : List (Text × DocumentNode))

namespace DocumentNode

/-- A member that gives a payload. -/
def payload? (name : Text) (members : List (Text × Json)) : Option Json :=
  (members.lookup name).filter (!·.isNull)

/-- The flag of a node. -/
def isModule [Validator] (members : List (Text × Json)) : Bool :=
  match (members.lookup Document.esmName).map Validator.boolean with
  | some (.ok b) => b
  | _ => false

mutual

/-- The node that a JSON value describes. -/
def ofJson [Validator] : Json → DocumentNode
  | .object members =>
    .mk (payload? "read" members) (payload? "call" members) (payload? "construct" members)
      (isModule members) (propertiesOf members)
  | _ => .mk none none none false []

/-- The properties among the members of a node. -/
def propertiesOf [Validator] : List (Text × Json) → List (Text × DocumentNode)
  | [] => []
  | (name, value) :: rest =>
    if name = Document.propertiesName then
      match value with
      | .object nodes => nodesOf nodes
      | _ => []
    else propertiesOf rest

/-- Some nodes with their names. -/
def nodesOf [Validator] : List (Text × Json) → List (Text × DocumentNode)
  | [] => []
  | (name, node) :: rest => (name, ofJson node) :: nodesOf rest

end

/-- The nodes below a node, by property name. -/
def properties : DocumentNode → List (Text × DocumentNode)
  | .mk _ _ _ _ properties => properties

/-- The node that a path of property names leads to. -/
def descend? (n : DocumentNode) : List Text → Option DocumentNode
  | [] => some n
  | name :: path =>
    match n.properties.lookup name with
    | some child => child.descend? path
    | none => none

/-- The node at a path as a node of a trace map. -/
def mapNode (path : List Text) : DocumentNode → MapNode (List Text)
  | .mk onRead onCall onConstruct isEsm properties =>
    ⟨properties.map fun (name, _) => (name, path ++ [name]), onRead, onCall, onConstruct, isEsm⟩

/-- The trace map below a node. Its nodes are known by the paths that lead to them. -/
def toMap (n : DocumentNode) : TraceMap (List Text) where
  root := []
  node path := (n.descend? path).elim .empty (mapNode path)

end DocumentNode

/-- The trace map of a document, or everything that is wrong with the document. -/
def Document.toMap [Validator] (document : Json) :
    Except (List Violation) (TraceMap (List Text)) :=
  match violations document, document with
  | [], .object roots =>
    .ok (DocumentNode.mk none none none false (DocumentNode.nodesOf roots)).toMap
  | found, _ => .error found

end ApiTrace
