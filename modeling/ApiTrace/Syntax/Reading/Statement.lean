import ApiTrace.Syntax.Reading

/-!
# Reading statements
-/

namespace ApiTrace.Phrase

/-- The kind of a source whose kind is not given: a module if a top-level statement imports or
exports. -/
def detectedSourceType (p : Phrase) : Text :=
  if p.named.any fun r => r.kind == "import_statement" || r.kind == "export_statement" then "module"
  else "script"

/-- A program. It covers the whole source, whatever the place of the concrete node. -/
def program (src : Source) (sourceType : Option Text) (p : Phrase) : Outcome Node := do
  let body ← p.nodes
  let span : Span := ⟨0, src.bytes.length, 1, 0⟩
  return .mk span (.program body (sourceType.getD p.detectedSourceType))

/-- A conditional statement; the branch of `else` is wrapped in a clause. -/
def ifStatement (p : Phrase) : Outcome Node := do
  let alternate ← match p.child? "alternative" with
    | some clause => clause.phrase.firstNode
    | none => pure none
  let test ← p.fieldNode "condition"
  let consequent ← p.fieldNode "consequence"
  return p.build (.ifElse test consequent alternate)

/-- A part of the head of a `for` loop: a declaration, or the expression of a statement. -/
def loopPart (part : Option Reading) : Outcome (Option Node) :=
  match part with
  | none => .ok none
  | some r =>
    if r.kind == "empty_statement" then .ok none
    else if r.kind == "expression_statement" then r.phrase.firstNode
    else r.node

/-- A `for` loop. -/
def forStatement (p : Phrase) : Outcome Node := do
  let init ← loopPart (p.child? "initializer")
  let test ← loopPart (p.child? "condition")
  let update ← loopPart (p.child? "increment")
  let body ← p.fieldNode "body"
  return p.build (.forLoop init test update body)

/-- The variable of a loop over members. A keyword before it makes it a declaration. -/
def loopVariable (p : Phrase) : Outcome (Option Node) :=
  match p.child? "kind", p.child? "left" with
  | none, left => nodeOf left
  | some _, none => .error .missingPart
  | some keyword, some left => do
    let declarator := Node.mk left.span (.variableDeclarator (← left.node) none)
    let span := keyword.span.between left.span
    return some (.mk span (.variableDeclaration keyword.kind [declarator]))

/-- A loop over the keys or the values of something. -/
def forEachStatement (p : Phrase) : Outcome Node := do
  let iteration := match p.child? "operator" with
    | some r => if r.kind == "of" then Iteration.values else .keys
    | none => .keys
  let left ← p.loopVariable
  let right ← p.fieldNode "right"
  let body ← p.fieldNode "body"
  return p.build (.forEach iteration left right body (p.hasToken "await"))

/-- A `while` loop. -/
def whileStatement (p : Phrase) : Outcome Node := do
  let test ← p.fieldNode "condition"
  let body ← p.fieldNode "body"
  return p.build (.whileLoop test body)

/-- A `do` loop. -/
def doStatement (p : Phrase) : Outcome Node := do
  let body ← p.fieldNode "body"
  let test ← p.fieldNode "condition"
  return p.build (.doWhile body test)

/-- The clause of a `try` statement that catches an exception. -/
def catchClause (p : Phrase) : Outcome Node := do
  let param ← p.fieldNode "parameter"
  let body ← p.fieldNode "body"
  return p.build (.catchClause param body)

/-- A `try` statement. -/
def tryStatement (p : Phrase) : Outcome Node := do
  let handler ← match p.child? "handler" with
    | some clause => do pure (some (← clause.phrase.catchClause))
    | none => pure none
  let finalizer ← match p.child? "finalizer" with
    | some clause => clause.phrase.fieldNode "body"
    | none => pure none
  let block ← p.fieldNode "body"
  return p.build (.tryStatement block handler finalizer)

/-- A case of a `switch` statement. -/
def switchCase (p : Phrase) : Outcome Node := do
  let test ← p.fieldNode "value"
  let consequent ← nodesOf (p.childrenIn "body")
  return p.build (.switchCase test consequent)

/-- A `switch` statement. -/
def switchStatement (p : Phrase) : Outcome Node := do
  let cases ← match p.child? "body" with
    | some body => body.phrase.named.mapM fun r => r.phrase.switchCase
    | none => pure []
  let discriminant ← p.fieldNode "value"
  return p.build (.switch discriminant cases)

/-- A labelled statement. -/
def labeledStatement (p : Phrase) : Outcome Node := do
  let label ← p.fieldNode "label"
  let body ← p.fieldNode "body"
  return p.build (.labeled label body)

/-- A jump to the end of a statement or to the next turn of a loop. -/
def jumpStatement (p : Phrase) (jump : Jump) : Outcome Node := do
  return p.build (.jump jump (← p.fieldNode "label"))

/-- A node that is given by its first child that counts. -/
def ofFirst (p : Phrase) (form : Option Node → Form) : Outcome Node := do
  return p.build (form (← p.firstNode))

end ApiTrace.Phrase
