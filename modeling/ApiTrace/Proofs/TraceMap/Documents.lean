import Mathlib.Data.Option.Basic
import ApiTrace.Proofs.TraceMap.Walk
import ApiTrace.TraceMap.Document

/-!
# What a document says

A JSON document says something at every path of property names that leads to one of its nodes
(`Document.find?`): what to report, whether the node is an ECMAScript module, and the names of the
nodes below. The map of a document says the same at the same paths (`Document.describes_walk?`),
whatever the validator takes for a boolean.
-/

namespace ApiTrace

namespace Document

/-! ## Nodes -/

/-- The nodes below a node, by property name. -/
def nodesBelow (node : Json) : List (Text × Json) :=
  match node.member? "properties" with
  | some (.object nodes) => nodes
  | _ => []

/-- A document as one node: its roots are the nodes below. -/
def asNode (document : Json) : Json := .object [("properties", document)]

/-- The node that a path of property names leads to. -/
def find? (node : Json) : List Text → Option Json
  | [] => some node
  | name :: path => ((nodesBelow node).lookup name).bind fun child => find? child path

/-- Whether a node of a trace map says what a node of a document says: it has its names in order,
reports its payloads, of which `null` is none, and is an ECMAScript module if it has a flag that
stands for that. -/
structure Describes {ι : Type} (isModule : Json → Prop) (node : Json) (m : TraceMap ι) : Prop where
  keys : m.keys = (nodesBelow node).map Prod.fst
  payload : ∀ use : Use, m.payload? use = (node.member? use.name).filter (!·.isNull)
  isEsm : m.isEsm = true ↔ ∃ v, node.member? "esm" = some v ∧ isModule v

end Document

/-! ## Nodes of the map -/

namespace DocumentNode

theorem descend?_append (n : DocumentNode) (p q : List Text) :
    n.descend? (p ++ q) = (n.descend? p).bind fun d => d.descend? q := by
  induction p generalizing n with
  | nil => rfl
  | cons name path ih =>
    simp only [List.cons_append, descend?]
    cases n.properties.lookup name with
    | none => rfl
    | some child => exact ih child

theorem lookup_map_name {α β : Type} (f : Text → β) (l : List (Text × α)) (key : Text) :
    (l.map fun p => (p.1, f p.1)).lookup key = (l.lookup key).map fun _ => f key := by
  induction l with
  | nil => rfl
  | cons p rest ih =>
    rw [List.map_cons, List.lookup_cons, List.lookup_cons, ih]
    by_cases hkey : key = p.1
    · simp [hkey]
    · simp [beq_eq_false_iff_ne.2 hkey]

/-- The nodes of the map are known by the paths that lead to them. -/
theorem child?_toMap {n d : DocumentNode} {p : List Text} (hd : n.descend? p = some d)
    (name : Text) :
    (n.toMap.focus p).child? name = (d.properties.lookup name).map fun _ => n.toMap.focus
      (p ++ [name]) := by
  show (((n.descend? p).elim .empty (mapNode p)).children.lookup name).map _ = _
  rw [hd]
  obtain ⟨onRead, onCall, onConstruct, isEsm, properties⟩ := d
  show ((properties.map fun q => (q.1, p ++ [q.1])).lookup name).map _ = _
  rw [lookup_map_name fun key => p ++ [key], Option.map_map]
  rfl

theorem walk?_focus_toMap {n d : DocumentNode} {p : List Text} (hd : n.descend? p = some d)
    (path : List Text) :
    (n.toMap.focus p).walk? path = (d.descend? path).map fun _ => n.toMap.focus (p ++ path) := by
  induction path generalizing p d with
  | nil => simp [descend?]
  | cons name path ih =>
    rw [TraceMap.walk?, child?_toMap hd, descend?]
    cases hchild : d.properties.lookup name with
    | none => rfl
    | some child =>
      have hp : n.descend? (p ++ [name]) = some child := by
        rw [descend?_append, hd, Option.bind_some, descend?, hchild]
        rfl
      rw [Option.map_some, Option.bind_some, ih hp, List.append_assoc]
      rfl

theorem walk?_toMap (n : DocumentNode) (path : List Text) :
    n.toMap.walk? path = (n.descend? path).map fun _ => n.toMap.focus path :=
  walk?_focus_toMap (p := []) rfl path

end DocumentNode

/-! ## Documents -/

variable [Validator]

/-- Whether a value is read as a boolean. -/
def Validator.Reads (v : Json) (b : Bool) : Prop := Validator.boolean v = .ok b

namespace DocumentNode

open Document

theorem nodesOf_eq_map (nodes : List (Text × Json)) :
    nodesOf nodes = nodes.map fun p => (p.1, ofJson p.2) := by
  induction nodes with
  | nil => rfl
  | cons p rest ih => rw [nodesOf, ih, List.map_cons]

/-- The first member that is named `properties` counts. -/
theorem propertiesOf_eq_map (members : List (Text × Json)) :
    propertiesOf members = (nodesBelow (.object members)).map fun p => (p.1, ofJson p.2) := by
  have hproperties : Text.ofString "properties" = propertiesName := rfl
  unfold nodesBelow Json.member?
  rw [hproperties]
  induction members with
  | nil => rfl
  | cons p rest ih =>
    obtain ⟨name, value⟩ := p
    by_cases hname : name = propertiesName
    · subst hname
      cases value with
      | object nodes => simp [propertiesOf, nodesOf_eq_map]
      | _ => simp [propertiesOf]
    · have hkey : (propertiesName == name) = false := by simpa using Ne.symm hname
      cases value <;> simp [propertiesOf, hname, List.lookup_cons, hkey, ih]

theorem properties_ofJson (node : Json) :
    (ofJson node).properties = (nodesBelow node).map fun p => (p.1, ofJson p.2) := by
  cases node with
  | object members => exact propertiesOf_eq_map members
  | _ => rfl

theorem descend?_ofJson (node : Json) (path : List Text) :
    (ofJson node).descend? path = (find? node path).map ofJson := by
  induction path generalizing node with
  | nil => rfl
  | cons name path ih =>
    rw [descend?, properties_ofJson, lookup_map ofJson, find?]
    cases (nodesBelow node).lookup name with
    | none => rfl
    | some child => exact ih child

theorem isModule_iff {members : List (Text × Json)} :
    isModule members = true ↔ ∃ v, members.lookup esmName = some v ∧ Validator.Reads v true := by
  unfold isModule Validator.Reads
  cases members.lookup esmName with
  | none => simp
  | some v =>
    rw [Option.map_some]
    cases hflag : Validator.boolean v with
    | error kind => simp [hflag]
    | ok b => simp [hflag]

theorem describes_of_rootNode {m : TraceMap (List Text)} {path : List Text} {node : Json}
    (h : m.rootNode = mapNode path (ofJson node)) : Describes (Validator.Reads · true) node m := by
  have hkeys : m.keys = (ofJson node).properties.map Prod.fst := by
    rw [TraceMap.keys, h]
    cases ofJson node
    simp [mapNode, properties, Function.comp_def]
  constructor
  case keys =>
    rw [hkeys, properties_ofJson, List.map_map]
    rfl
  case payload =>
    intro use
    rw [TraceMap.payload?, h]
    cases node <;> cases use <;> rfl
  case isEsm =>
    rw [TraceMap.isEsm, h]
    cases node with
    | object members => exact isModule_iff
    | _ =>
      constructor
      · intro h
        cases h
      · rintro ⟨v, hv, -⟩
        cases hv

end DocumentNode

namespace Document

/-- The map of a node says at every path what the node says there. -/
theorem describes_walk? (node : Json) (path : List Text) :
    Option.Rel (Describes (Validator.Reads · true)) (find? node path)
      ((DocumentNode.ofJson node).toMap.walk? path) := by
  rw [DocumentNode.walk?_toMap]
  have hdescend := DocumentNode.descend?_ofJson node path
  cases hfind : find? node path with
  | none =>
    rw [hdescend, hfind]
    exact .none
  | some child =>
    have hchild : (DocumentNode.ofJson node).descend? path = some (.ofJson child) := by
      rw [hdescend, hfind]
      rfl
    rw [hchild]
    have hroot : ((DocumentNode.ofJson node).toMap.focus path).rootNode =
        DocumentNode.mapNode path (.ofJson child) := by
      show ((DocumentNode.ofJson node).descend? path).elim MapNode.empty _ = _
      rw [hchild]
      rfl
    exact .some (DocumentNode.describes_of_rootNode hroot)

/-- A document that is a map is the map of one node. -/
theorem toMap_eq_ok {document : Json} {m : TraceMap (List Text)} (h : toMap document = .ok m) :
    violations document = [] ∧ m = (DocumentNode.ofJson (asNode document)).toMap := by
  unfold toMap at h
  split at h
  · rename_i roots hviolations
    cases h
    exact ⟨hviolations, rfl⟩
  · cases h

end Document

end ApiTrace
