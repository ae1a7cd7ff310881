import ApiTrace.Syntax.Reading

/-!
# Reading declarations, functions and classes
-/

namespace ApiTrace.Phrase

/-- A declaration of variables. -/
def variableDeclaration (p : Phrase) : Outcome Node := do
  let keyword :=
    if p.kind == "variable_declaration" then "var"
    else match p.child? "kind" with
      | some r => r.kind
      | none => "let"
  let declarations ← nodesOf (p.named.filter (·.kind == "variable_declarator"))
  return p.build (.variableDeclaration keyword declarations)

/-- One variable or pattern of a declaration. -/
def variableDeclarator (p : Phrase) : Outcome Node := do
  let target ← p.fieldNode "name"
  let init ← p.fieldNode "value"
  return p.build (.variableDeclarator target init)

/-! ### Functions -/

/-- A function with the keyword `function`. -/
def functionLike (p : Phrase) (placement : Placement) : Outcome Node := do
  let name ← p.fieldNode "name"
  let params ← nodesIn (p.child? "parameters")
  let body ← p.fieldNode "body"
  return p.build (.function placement name params body (p.hasToken "*") (p.hasToken "async"))

/-- An arrow function. A single parameter may stand without parentheses. -/
def arrowFunction (p : Phrase) : Outcome Node := do
  let params ← match p.child? "parameter" with
    | some single => do pure [← single.node]
    | none => do pure ((← nodesIn (p.child? "parameters")).map some)
  let body ← p.fieldNode "body"
  let isExpression := match p.child? "body" with
    | some r => r.kind != "statement_block"
    | none => false
  return p.build (.arrowFunction params body isExpression (p.hasToken "async"))

/-- The function of a method: it begins at its parameters and ends with its body. -/
def methodFunction (p : Phrase) : Outcome Node := do
  let params := p.child? "parameters"
  let body := p.child? "body"
  let first := (params.map Reading.span).getD p.span
  let last := (body.map Reading.span).getD p.span
  let paramNodes ← nodesIn params
  let bodyNode ← nodeOf body
  return .mk (first.between last)
    (.function .expression none paramNodes bodyNode (p.hasToken "*") (p.hasToken "async"))

/-! ### Keys -/

/-- The kinds of concrete nodes that are plain names. -/
def identifierKinds : List String :=
  ["identifier", "property_identifier", "shorthand_property_identifier",
    "shorthand_property_identifier_pattern", "statement_identifier", "undefined"]

/-- The key of a property, and whether it is computed. -/
def propertyKey (src : Source) (key : Option Reading) : Outcome (Option Node × Bool) :=
  match key with
  | none => .ok (none, false)
  | some r =>
    if r.kind == "computed_property_name" then do return (← r.phrase.firstNode, true)
    else if identifierKinds.contains r.kind then do return (some (← r.phrase.identifier src), false)
    else do return (← r.node, false)

/-- What a method is: a getter, a setter, the constructor by its name, or a plain method. Without a
key the name cannot be asked for. -/
def methodKind (p : Phrase) (key : Option Node) : Outcome MethodKind :=
  if p.hasToken "get" then .ok .getter
  else if p.hasToken "set" then .ok .setter
  else match key.map Node.form with
    | none => .error .missingPart
    | some (.identifier name) =>
      .ok (if name = Text.ofString "constructor" then .constructor else .method)
    | some (.other name _) =>
      if name = Text.ofString "Identifier" then .error .missingPart else .ok .method
    | some _ => .ok .method

/-! ### Classes -/

/-- A member of a class. What is no method, field or static block stands for itself. -/
def classMember (src : Source) (r : Reading) : Outcome (Option Node) :=
  let p := r.phrase
  match r.kind with
  | "method_definition" => do
    let (key, computed) ← propertyKey src (p.child? "name")
    let value ← p.methodFunction
    let kind ← p.methodKind key
    return some (p.build (.method key computed (some value) kind (p.hasToken "static")))
  | "field_definition" => do
    let (key, computed) ← propertyKey src (p.child? "property")
    let value ← p.fieldNode "value"
    return some (p.build (.field key computed value (p.hasToken "static")))
  | "class_static_block" => do
    return some (p.build (.staticBlock (← p.fieldNode "body")))
  | _ => r.node

/-- The class that a class extends; of several heritage clauses the last one counts. -/
def superClass (p : Phrase) : Outcome (Option Node) :=
  (p.named.filter (·.kind == "class_heritage")).foldlM
    (fun _ clause => clause.phrase.firstNode) none

/-- A class. -/
def classLike (src : Source) (p : Phrase) (placement : Placement) : Outcome Node := do
  let superClass ← p.superClass
  let body ← match p.child? "body" with
    | none => pure none
    | some r => do
      let members ← r.phrase.named.mapM (classMember src)
      pure (some (r.phrase.build (.classBody (members.filterMap id))))
  let name ← p.fieldNode "name"
  return p.build (.classLike placement name superClass body)

end ApiTrace.Phrase
