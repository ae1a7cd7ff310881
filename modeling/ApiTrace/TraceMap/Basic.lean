import ApiTrace.Json.Basic

/-!
# Trace maps

A trace map says which property paths to look for and what to report where one of them is read,
called or constructed. It is a graph: nodes are joined by property names, may be shared and may lie
on cycles, so one node can stand for infinitely many paths. Nodes are known by names of any type
`ι`; a map is looked at from one of its nodes, its root.
-/

namespace ApiTrace

/-- The ways in which a value is used. -/
inductive Use where
  | read
  | call
  | construct
deriving DecidableEq

namespace Use

/-- The name of a use. -/
def name : Use → String
  | .read => "read"
  | .call => "call"
  | .construct => "construct"

/-- All uses. -/
def all : List Use := [.read, .call, .construct]

/-- The use of a name. -/
def ofName? (t : Text) : Option Use := all.find? fun u => Text.ofString u.name == t

end Use

/-- A node of a trace map: its children by property name, in the order in which they are tried, what
to report for each use, and whether it already has the shape of an ECMAScript module. -/
structure MapNode (ι : Type) where
  children : List (Text × ι)
  onRead : Option Json
  onCall : Option Json
  onConstruct : Option Json
  isEsm : Bool

namespace MapNode

variable {ι κ : Type}

/-- A node that looks for nothing. -/
def empty : MapNode ι := ⟨[], none, none, none, false⟩

/-- A node under which nothing is reported of its own. -/
def ofChildren (children : List (Text × ι)) : MapNode ι := ⟨children, none, none, none, false⟩

/-- What to report for a use. -/
def payload? (n : MapNode ι) : Use → Option Json
  | .read => n.onRead
  | .call => n.onCall
  | .construct => n.onConstruct

/-- Says what to report for a use. Nothing is reported for `null`. -/
def setPayload (n : MapNode ι) (use : Use) (payload : Json) : MapNode ι :=
  let payload := if payload.isNull then none else some payload
  match use with
  | .read => { n with onRead := payload }
  | .call => { n with onCall := payload }
  | .construct => { n with onConstruct := payload }

/-- Renames the children. -/
def map (f : ι → κ) (n : MapNode ι) : MapNode κ :=
  ⟨n.children.map fun (name, child) => (name, f child), n.onRead, n.onCall, n.onConstruct, n.isEsm⟩

end MapNode

/-- A trace map, looked at from its root. -/
structure TraceMap (ι : Type) where
  node : ι → MapNode ι
  root : ι

namespace TraceMap

variable {ι : Type}

/-- The root as a node. -/
def rootNode (m : TraceMap ι) : MapNode ι := m.node m.root

/-- The names of the children of the root, in order. -/
def keys (m : TraceMap ι) : List Text := m.rootNode.children.map Prod.fst

/-- The map looked at from another of its nodes. -/
def focus (m : TraceMap ι) (i : ι) : TraceMap ι := { m with root := i }

/-- The map looked at from a child of the root. -/
def child? (m : TraceMap ι) (name : Text) : Option (TraceMap ι) :=
  (m.rootNode.children.lookup name).map m.focus

/-- The children of the root with their names, in order. -/
def children (m : TraceMap ι) : List (Text × TraceMap ι) :=
  m.keys.filterMap fun name => (m.child? name).map (name, ·)

/-- What to report for a use of the root. -/
def payload? (m : TraceMap ι) (use : Use) : Option Json := m.rootNode.payload? use

/-- Whether the root already has the shape of an ECMAScript module. -/
def isEsm (m : TraceMap ι) : Bool := m.rootNode.isEsm

/-! ### Default exports -/

/-- The name under which a module exports its default value. -/
def defaultName : Text := "default"

/-- The node of a module that exports a CommonJS module of root `i`. The strict form has one export,
the default. The legacy form also has the properties and payloads of the CommonJS module; a property
that is itself named `default` then takes the place of the default export. -/
def exportNode (legacy : Bool) (i : ι) (n : MapNode ι) : MapNode ι :=
  if legacy then
    { n with
      children := (defaultName, (n.children.lookup defaultName).getD i)
        :: n.children.filter (·.1 ≠ defaultName)
      isEsm := false }
  else .ofChildren [(defaultName, i)]

/-- The map seen through `import`: a new root whose default export is the old root. -/
def asDefaultExport (legacy : Bool) (m : TraceMap ι) : TraceMap (Option ι) where
  root := none
  node
    | none => (exportNode legacy m.root m.rootNode).map some
    | some i => (m.node i).map some

end TraceMap

end ApiTrace
