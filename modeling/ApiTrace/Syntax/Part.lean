import ApiTrace.Syntax.Node

/-!
# Parts of a node

`Form.parts` lists the parts of a form under their names and in field order. The children of a node
and their order, which every walk over a tree follows, come from this list. A child hangs in its
parent by a `Slot`: the role that it plays there and its number among the children with that role.
-/

namespace ApiTrace

/-- The roles that a child plays in its parent. -/
inductive Role where
  | alternate | arguments | argument | binding | block | body | callee | cases | children
  | consequent | declaration | declarations | discriminant | elements | exported | expression
  | expressions | finalizer | handler | imported | init | key | label | left | name | object | param
  | params | properties | property | quasi | quasis | right | source | specifiers | superClass | tag
  | test | update | value
deriving DecidableEq

/-- The name of the field that a role stands for. -/
def Role.fieldName : Role → String
  | .alternate => "alternate"
  | .arguments => "arguments"
  | .argument => "argument"
  | .binding => "local"
  | .block => "block"
  | .body => "body"
  | .callee => "callee"
  | .cases => "cases"
  | .children => "children"
  | .consequent => "consequent"
  | .declaration => "declaration"
  | .declarations => "declarations"
  | .discriminant => "discriminant"
  | .elements => "elements"
  | .exported => "exported"
  | .expression => "expression"
  | .expressions => "expressions"
  | .finalizer => "finalizer"
  | .handler => "handler"
  | .imported => "imported"
  | .init => "init"
  | .key => "key"
  | .label => "label"
  | .left => "left"
  | .name => "id"
  | .object => "object"
  | .param => "param"
  | .params => "params"
  | .properties => "properties"
  | .property => "property"
  | .quasi => "quasi"
  | .quasis => "quasis"
  | .right => "right"
  | .source => "source"
  | .specifiers => "specifiers"
  | .superClass => "superClass"
  | .tag => "tag"
  | .test => "test"
  | .update => "update"
  | .value => "value"

/-- Where a child hangs in its parent. -/
structure Slot where
  role : Role
  index : Nat := 0
deriving DecidableEq

/-- The value of a part that holds no nodes. -/
inductive Attribute where
  | null
  | flag (b : Bool)
  | text (t : Text)
  | number (n : Number)
  | regex (pattern flags : Text)

/-- A part of a node. -/
inductive Part where
  | attribute (name : String) (value : Attribute)
  | one (role : Role) (child : Option Node)
  | many (role : Role) (children : List (Option Node))

/-- The children that a part holds. -/
def Part.children : Part → List (Slot × Node)
  | .attribute .. => []
  | .one role child => child.toList.map (⟨role, 0⟩, ·)
  | .many role children => children.zipIdx.filterMap fun (child, i) => child.map (⟨role, i⟩, ·)

/-! ### The parts of each form -/

/-- The parts of a literal before its raw text and after it. -/
def Literal.parts : Literal → Attribute × List Part
  | .string value => (.text value, [])
  | .number value => (.number value, [])
  | .boolean value => (.flag value, [])
  | .null => (.null, [])
  | .bigint value => (.null, [.attribute "bigint" (.text (Text.ofInt value))])
  | .regex pattern flags => (.null, [.attribute "regex" (.regex pattern flags)])

/-- The name of a kind of method. -/
def MethodKind.name : MethodKind → String
  | .constructor => "constructor"
  | .method => "method"
  | .getter => "get"
  | .setter => "set"

/-- The name of a kind of property. -/
def PropertyKind.name : PropertyKind → String
  | .init => "init"
  | .getter => "get"
  | .setter => "set"

/-- A part that is true or false. -/
def Part.flag (name : String) (b : Bool) : Part := .attribute name (.flag b)

/-- A part that is a text. -/
def Part.text (name : String) (t : Text) : Part := .attribute name (.text t)

/-- A part that is a list without gaps. -/
def Part.all (role : Role) (children : List Node) : Part := .many role (children.map some)

/-- The parts of a form in field order. -/
def Form.parts : Form → List Part
  | .program body sourceType => [.all .body body, .text "source_type" sourceType]
  | .expressionStatement expression => [.one .expression expression]
  | .emptyStatement | .debuggerStatement | .thisExpression | .superReference => []
  | .block body => [.all .body body]
  | .ifElse test consequent alternate =>
    [.one .test test, .one .consequent consequent, .one .alternate alternate]
  | .forLoop init test after body =>
    [.one .init init, .one .test test, .one .update after, .one .body body]
  | .forEach _ left right body isAwait =>
    [.one .left left, .one .right right, .one .body body, .flag "is_await" isAwait]
  | .whileLoop test body => [.one .test test, .one .body body]
  | .doWhile body test => [.one .body body, .one .test test]
  | .tryStatement body handler finalizer =>
    [.one .block body, .one .handler handler, .one .finalizer finalizer]
  | .catchClause param body => [.one .param param, .one .body body]
  | .switch discriminant cases => [.one .discriminant discriminant, .all .cases cases]
  | .switchCase test consequent => [.one .test test, .all .consequent consequent]
  | .returnStatement argument | .throwStatement argument | .await argument | .spread argument
  | .restElement argument => [.one .argument argument]
  | .labeled label body => [.one .label label, .one .body body]
  | .jump _ label => [.one .label label]
  | .variableDeclaration keyword declarations =>
    [.text "kind" keyword, .all .declarations declarations]
  | .variableDeclarator target init => [.one .name target, .one .init init]
  | .function _ name params body isGenerator isAsync =>
    [.one .name name, .all .params params, .one .body body, .flag "generator" isGenerator,
      .flag "is_async" isAsync]
  | .arrowFunction params body isExpression isAsync =>
    [.many .params params, .one .body body, .flag "expression" isExpression,
      .flag "is_async" isAsync]
  | .classLike _ name superClass body =>
    [.one .name name, .one .superClass superClass, .one .body body]
  | .classBody members => [.all .body members]
  | .method key computed value kind isStatic =>
    [.one .key key, .flag "computed" computed, .one .value value, .text "kind" kind.name,
      .flag "static" isStatic]
  | .field key computed value isStatic =>
    [.one .key key, .flag "computed" computed, .one .value value, .flag "static" isStatic]
  | .staticBlock body => [.one .body body]
  | .importDeclaration specifiers source => [.all .specifiers specifiers, .one .source source]
  | .importDefault binding | .importNamespace binding => [.one .binding (some binding)]
  | .importSpecifier imported binding =>
    [.one .imported (some imported), .one .binding (some binding)]
  | .exportDefault declaration => [.one .declaration declaration]
  | .exportNamed declaration specifiers source =>
    [.one .declaration declaration, .all .specifiers specifiers, .one .source source]
  | .exportAll exported source => [.one .exported exported, .one .source source]
  | .exportSpecifier binding exported =>
    [.one .binding (some binding), .one .exported (some exported)]
  | .identifier name | .privateIdentifier name | .jsxIdentifier name => [.text "name" name]
  | .literal value raw =>
    let (value, rest) := value.parts
    .attribute "value" value :: .text "raw" raw :: rest
  | .template quasis expressions => [.all .quasis quasis, .many .expressions expressions]
  | .templateElement value => [.text "value" value]
  | .member target key computed optional =>
    [.one .object target, .one .property key, .flag "computed" computed, .flag "optional" optional]
  | .call callee arguments optional =>
    [.one .callee callee, .all .arguments arguments, .flag "optional" optional]
  | .importCall source => [.one .source source]
  | .taggedTemplate tag quasi => [.one .tag tag, .one .quasi quasi]
  | .construct callee arguments => [.one .callee callee, .all .arguments arguments]
  | .assignment operator left right =>
    [.text "operator" operator, .one .left left, .one .right right]
  | .binary left operator right =>
    [.one .left left, .text "operator" operator, .one .right right]
  | .unary operator argument => [.text "operator" operator, .one .argument argument]
  | .update operator before argument =>
    [.text "operator" operator, .flag "prefix" before, .one .argument argument]
  | .conditional test consequent alternate =>
    [.one .test test, .one .consequent consequent, .one .alternate alternate]
  | .sequence expressions => [.all .expressions expressions]
  | .yield argument delegate => [.one .argument argument, .flag "delegate" delegate]
  | .array elements | .arrayPattern elements => [.all .elements elements]
  | .object properties | .objectPattern properties => [.all .properties properties]
  | .property key value computed shorthand isMethod kind =>
    [.one .key key, .one .value value, .flag "computed" computed, .flag "shorthand" shorthand,
      .flag "method" isMethod, .text "kind" kind.name]
  | .assignmentPattern left right => [.one .left left, .one .right right]
  | .other _ children => [.all .children children]

/-- The children of a form in field order. -/
def Form.children (f : Form) : List (Slot × Node) := f.parts.flatMap Part.children

/-! ### Children are smaller -/

theorem Part.mem_children_one {role : Role} {child : Option Node} {slot : Slot} {n : Node}
    (h : (slot, n) ∈ (Part.one role child).children) : child = some n := by
  cases child with
  | none => simp [Part.children] at h
  | some c => simp [Part.children] at h; simp [h.2]

theorem Part.mem_children_many {role : Role} {children : List (Option Node)}
    {slot : Slot} {n : Node} (h : (slot, n) ∈ (Part.many role children).children) :
    some n ∈ children := by
  simp only [Part.children, List.mem_filterMap] at h
  obtain ⟨⟨child, i⟩, hmem, heq⟩ := h
  cases child with
  | none => simp at heq
  | some c =>
    simp at heq
    obtain ⟨-, rfl⟩ := heq
    exact List.fst_mem_of_mem_zipIdx hmem

theorem Part.mem_children_all {role : Role} {children : List Node} {slot : Slot} {n : Node}
    (h : (slot, n) ∈ (Part.all role children).children) : n ∈ children := by
  have := Part.mem_children_many h
  simpa using this

theorem sizeOf_lt_of_some_mem {l : List (Option Node)} {n : Node} (h : some n ∈ l) :
    sizeOf n < sizeOf l := by
  have := List.sizeOf_lt_of_mem h
  simp at this
  omega

end ApiTrace
