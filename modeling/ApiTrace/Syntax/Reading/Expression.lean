import ApiTrace.Syntax.Reading.Declaration

/-!
# Reading expressions and patterns
-/

namespace ApiTrace

mutual

/-- The operands of nested sequences, from left to right. -/
def Reading.operands : Reading → List Reading
  | .mk head children node =>
    if head.kind == "sequence_expression" then operandsOf children else [.mk head children node]

/-- The operands among some children; only children that count are operands. -/
def Reading.operandsOf : List Reading → List Reading
  | [] => []
  | r :: rs => (if r.counts then r.operands else []) ++ operandsOf rs

end

namespace Phrase

/-! ### Access and calls -/

/-- Access to a property by name, or by a computed key. -/
def memberExpression (p : Phrase) (keyField : String) (computed : Bool) : Outcome Node := do
  let object ← p.fieldNode "object"
  let property ← p.fieldNode keyField
  return p.build (.member object property computed (p.hasToken "optional_chain"))

/-- A call, which may also be a dynamic import or a tagged template. -/
def callExpression (p : Phrase) : Outcome Node := do
  let callee := p.child? "function"
  let arguments := p.child? "arguments"
  if callee.any (·.kind == "import") then
    return p.build (.importCall (← nodesIn arguments).head?)
  if arguments.any (·.kind == "template_string") then
    let tag ← nodeOf callee
    let quasi ← nodeOf arguments
    return p.build (.taggedTemplate tag quasi)
  let calleeNode ← nodeOf callee
  let argumentNodes ← nodesIn arguments
  return p.build (.call calleeNode argumentNodes (p.hasToken "optional_chain"))

/-- A construction with `new`. -/
def newExpression (p : Phrase) : Outcome Node := do
  let callee ← p.fieldNode "constructor"
  let arguments ← nodesIn (p.child? "arguments")
  return p.build (.construct callee arguments)

/-! ### Operators -/

/-- An assignment; an operator that is not written is `=`. -/
def assignmentExpression (src : Source) (p : Phrase) (plain : Bool) : Outcome Node := do
  let operator ← if plain then pure (Text.ofString "=") else p.fieldText src "operator" "="
  let left ← p.fieldNode "left"
  let right ← p.fieldNode "right"
  return p.build (.assignment operator left right)

/-- An operator between two operands. -/
def binaryExpression (src : Source) (p : Phrase) : Outcome Node := do
  let operator ← p.fieldText src "operator" []
  let left ← p.fieldNode "left"
  let right ← p.fieldNode "right"
  return p.build (.binary left operator right)

/-- An operator before an operand. -/
def unaryExpression (src : Source) (p : Phrase) : Outcome Node := do
  let operator ← p.fieldText src "operator" []
  let argument ← p.fieldNode "argument"
  return p.build (.unary operator argument)

/-- An increment or decrement; it comes before its operand if the operator is the first child. -/
def updateExpression (src : Source) (p : Phrase) : Outcome Node := do
  let operator ← p.fieldText src "operator" []
  let before := p.children.head?.any fun r => r.kind == "++" || r.kind == "--"
  let argument ← p.fieldNode "argument"
  return p.build (.update operator before argument)

/-- A conditional expression. -/
def conditionalExpression (p : Phrase) : Outcome Node := do
  let test ← p.fieldNode "condition"
  let consequent ← p.fieldNode "consequence"
  let alternate ← p.fieldNode "alternative"
  return p.build (.conditional test consequent alternate)

/-- Expressions in a row; sequences inside a sequence are laid out flat. -/
def sequenceExpression (p : Phrase) : Outcome Node := do
  return p.build (.sequence (← nodesOf (Reading.operandsOf p.children)))

/-- A `yield`, for one value or for all values of another iteration. -/
def yieldExpression (p : Phrase) : Outcome Node := do
  return p.build (.yield (← p.firstNode) (p.hasToken "*"))

/-! ### Objects -/

/-- A property with a key and a value. -/
def pairProperty (src : Source) (p : Phrase) : Outcome Node := do
  let (key, computed) ← propertyKey src (p.child? "key")
  let value ← p.fieldNode "value"
  return p.build (.property key value computed false false .init)

/-- A property whose value is the variable of the same name. -/
def shorthandProperty (src : Source) (p : Phrase) : Outcome Node := do
  let name ← p.identifier src
  return p.build (.property (some name) (some name) false true false .init)

/-- A method of an object literal. -/
def methodProperty (src : Source) (p : Phrase) : Outcome Node := do
  let (key, computed) ← propertyKey src (p.child? "name")
  let kind ← p.methodKind key
  let value ← p.methodFunction
  let (isMethod, propertyKind) := match kind with
    | .getter => (false, PropertyKind.getter)
    | .setter => (false, .setter)
    | .constructor | .method => (true, .init)
  return p.build (.property key (some value) computed false isMethod propertyKind)

/-- A member of an object literal. -/
def objectMember (src : Source) (r : Reading) : Outcome (Option Node) :=
  match r.kind with
  | "pair" => do return some (← r.phrase.pairProperty src)
  | "shorthand_property_identifier" => do return some (← r.phrase.shorthandProperty src)
  | "method_definition" => do return some (← r.phrase.methodProperty src)
  | _ => r.node

/-- An object literal. -/
def objectExpression (src : Source) (p : Phrase) : Outcome Node := do
  return p.build (.object ((← p.named.mapM (objectMember src)).filterMap id))

/-! ### Patterns -/

/-- A variable with a default value in an object pattern. Only a plain variable has a key. -/
def defaultProperty (src : Source) (p : Phrase) : Outcome Node := do
  let left := p.child? "left"
  let leftNode ← nodeOf left
  let right ← p.fieldNode "right"
  let value := p.build (.assignmentPattern leftNode right)
  let key ← match left with
    | some r =>
      if identifierKinds.contains r.kind then do pure (some (← r.phrase.identifier src))
      else pure none
    | none => pure none
  return p.build (.property key (some value) false true false .init)

/-- A member of an object pattern. -/
def patternMember (src : Source) (r : Reading) : Outcome (Option Node) :=
  match r.kind with
  | "pair_pattern" => do return some (← r.phrase.pairProperty src)
  | "shorthand_property_identifier_pattern" => do return some (← r.phrase.shorthandProperty src)
  | "object_assignment_pattern" => do return some (← r.phrase.defaultProperty src)
  | _ => r.node

/-- An object pattern. -/
def objectPattern (src : Source) (p : Phrase) : Outcome Node := do
  return p.build (.objectPattern ((← p.named.mapM (patternMember src)).filterMap id))

/-- A pattern with a default value. -/
def assignmentPattern (p : Phrase) : Outcome Node := do
  let left ← p.fieldNode "left"
  let right ← p.fieldNode "right"
  return p.build (.assignmentPattern left right)

end Phrase

end ApiTrace
