import ApiTrace.Syntax.Reading.Expression
import ApiTrace.Syntax.Reading.Literal
import ApiTrace.Syntax.Reading.Module
import ApiTrace.Syntax.Reading.Statement
import ApiTrace.Text.Case

/-!
# Programs of concrete trees

`Phrase.read` gives the rule for every kind of concrete node, `Concrete.read` applies it from the
leaves up, and `Node.ofConcrete` is the program that a concrete tree stands for. A kind without a
rule becomes a node named after it that keeps its children.
-/

namespace ApiTrace

namespace Phrase

/-- The kinds of nodes in which a name is an element or attribute name and no variable. -/
def jsxNameParents : List String :=
  ["jsx_opening_element", "jsx_closing_element", "jsx_self_closing_element", "jsx_attribute"]

/-- The kinds of nodes that can be such a name. -/
def jsxNameKinds : List String :=
  ["identifier", "property_identifier", "nested_identifier", "member_expression",
    "jsx_namespace_name"]

/-- A node of a kind without a rule. -/
def otherNode (src : Source) (p : Phrase) : Outcome Node := do
  let hasNames := jsxNameParents.contains p.kind
  let children ← p.named.mapM fun r =>
    if hasNames && jsxNameKinds.contains r.kind then do
      return some (r.phrase.build (.jsxIdentifier (← r.phrase.text src)))
    else r.node
  return p.build (.other (Text.camelCase p.kind) (children.filterMap id))

/-- The private name of a class member, without its mark. -/
def privateName (src : Source) (p : Phrase) : Outcome Node := do
  return p.build (.privateIdentifier ((← p.text src).dropWhile (· == .scalar '#')))

/-- The rule for the kinds that stand for a node of their own. -/
def readNode (src : Source) (p : Phrase) : Outcome Node :=
  match p.kind with
  | "program" => p.program src none
  | "expression_statement" => p.ofFirst .expressionStatement
  | "empty_statement" => .ok (p.build .emptyStatement)
  | "debugger_statement" => .ok (p.build .debuggerStatement)
  | "statement_block" => do return p.build (.block (← p.nodes))
  | "if_statement" => p.ifStatement
  | "for_statement" => p.forStatement
  | "for_in_statement" => p.forEachStatement
  | "while_statement" => p.whileStatement
  | "do_statement" => p.doStatement
  | "try_statement" => p.tryStatement
  | "switch_statement" => p.switchStatement
  | "return_statement" => p.ofFirst .returnStatement
  | "throw_statement" => p.ofFirst .throwStatement
  | "labeled_statement" => p.labeledStatement
  | "break_statement" => p.jumpStatement .leave
  | "continue_statement" => p.jumpStatement .next
  | "lexical_declaration" | "variable_declaration" => p.variableDeclaration
  | "variable_declarator" => p.variableDeclarator
  | "function_declaration" | "generator_function_declaration" => p.functionLike .declaration
  | "function_expression" | "function" | "generator_function" => p.functionLike .expression
  | "arrow_function" => p.arrowFunction
  | "class_declaration" => p.classLike src .declaration
  | "class" => p.classLike src .expression
  | "import_statement" => p.importDeclaration src
  | "export_statement" => p.exportDeclaration src
  | "identifier" | "property_identifier" | "shorthand_property_identifier"
  | "shorthand_property_identifier_pattern" | "statement_identifier" | "undefined" =>
    p.identifier src
  | "private_property_identifier" => p.privateName src
  | "this" => .ok (p.build .thisExpression)
  | "super" => .ok (p.build .superReference)
  | "string" => p.stringLiteral src
  | "number" => p.numberLiteral src
  | "true" => .ok (p.wordLiteral (.boolean true))
  | "false" => .ok (p.wordLiteral (.boolean false))
  | "null" => .ok (p.wordLiteral .null)
  | "regex" => p.regexLiteral src
  | "template_string" => p.template src
  | "member_expression" => p.memberExpression "property" false
  | "subscript_expression" => p.memberExpression "index" true
  | "call_expression" => p.callExpression
  | "new_expression" => p.newExpression
  | "assignment_expression" => p.assignmentExpression src true
  | "augmented_assignment_expression" => p.assignmentExpression src false
  | "binary_expression" => p.binaryExpression src
  | "unary_expression" => p.unaryExpression src
  | "update_expression" => p.updateExpression src
  | "ternary_expression" => p.conditionalExpression
  | "sequence_expression" => p.sequenceExpression
  | "await_expression" => p.ofFirst .await
  | "yield_expression" => p.yieldExpression
  | "spread_element" => p.ofFirst .spread
  | "array" => do return p.build (.array (← p.nodes))
  | "object" => p.objectExpression src
  | "object_pattern" => p.objectPattern src
  | "array_pattern" => do return p.build (.arrayPattern (← p.nodes))
  | "assignment_pattern" => p.assignmentPattern
  | "rest_pattern" => p.ofFirst .restElement
  | _ => p.otherNode src

/-- What a concrete node stands for. Comments stand for nothing, and parentheses for what is in
them. -/
def read (src : Source) (p : Phrase) : Outcome (Option Node) :=
  if Reading.skippedKinds.contains p.kind then .ok none
  else if p.kind == "parenthesized_expression" then p.firstNode
  else do return some (← p.readNode src)

end Phrase

mutual

/-- Reads a concrete node after its children. -/
def Concrete.read (src : Source) : Concrete → Reading
  | .mk head children =>
    let readings := readAll src children
    .mk head readings (Phrase.read src ⟨head, readings⟩)

/-- Reads some concrete nodes. -/
def Concrete.readAll (src : Source) : List Concrete → List Reading
  | [] => []
  | c :: cs => c.read src :: readAll src cs

end

/-- The program that a concrete tree stands for. The kind of source is detected if it is not
given. -/
def Node.ofConcrete (src : Source) (sourceType : Option Text) (root : Concrete) : Outcome Node :=
  Phrase.program src sourceType ⟨root.head, Concrete.readAll src root.children⟩

end ApiTrace
