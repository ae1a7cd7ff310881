import ApiTrace.Number.Numeral
import ApiTrace.Source

/-!
# Syntax trees

The nodes of a JavaScript program. A node has a place and a form, and the form holds its parts.
Parts that the grammar may leave out, or that are lost in a source with syntax errors, are optional.

A construct without a form of its own is kept as `Form.other`: a name and its children. Such a name
may be that of another form (a clause outside its statement, say); the parts that the other form has
are then missing.
-/

namespace ApiTrace

/-- The value of a literal. -/
inductive Literal where
  | string (value : Text)
  | number (value : Number)
  | boolean (value : Bool)
  | null
  | bigint (value : Int)
  | regex (pattern flags : Text)
deriving DecidableEq

/-- Whether a function or class is declared as a statement or stands in an expression. -/
inductive Placement where
  | declaration
  | expression
deriving DecidableEq

/-- The two loops over the members of a value. -/
inductive Iteration where
  | keys
  | values
deriving DecidableEq

/-- The two jumps out of a statement. -/
inductive Jump where
  | leave
  | next
deriving DecidableEq

/-- What a method of a class is. -/
inductive MethodKind where
  | constructor
  | method
  | getter
  | setter
deriving DecidableEq

/-- What a property of an object literal or object pattern is. -/
inductive PropertyKind where
  | init
  | getter
  | setter
deriving DecidableEq

mutual

/-- A node of a syntax tree. -/
inductive Node where
  | mk (span : Span) (form : Form)

/-- What a node is, with its parts in field order. -/
inductive Form where
  | program (body : List Node) (sourceType : Text)
  -- Statements
  | expressionStatement (expression : Option Node)
  | emptyStatement
  | debuggerStatement
  | block (body : List Node)
  | ifElse (test consequent alternate : Option Node)
  | forLoop (init test update body : Option Node)
  | forEach (iteration : Iteration) (left right body : Option Node) (isAwait : Bool)
  | whileLoop (test body : Option Node)
  | doWhile (body test : Option Node)
  | tryStatement (block handler finalizer : Option Node)
  | catchClause (param body : Option Node)
  | switch (discriminant : Option Node) (cases : List Node)
  | switchCase (test : Option Node) (consequent : List Node)
  | returnStatement (argument : Option Node)
  | throwStatement (argument : Option Node)
  | labeled (label body : Option Node)
  | jump (jump : Jump) (label : Option Node)
  -- Declarations
  | variableDeclaration (keyword : String) (declarations : List Node)
  | variableDeclarator (target init : Option Node)
  | function (placement : Placement) (name : Option Node) (params : List Node) (body : Option Node)
      (isGenerator isAsync : Bool)
  | arrowFunction (params : List (Option Node)) (body : Option Node) (isExpression isAsync : Bool)
  | classLike (placement : Placement) (name superClass body : Option Node)
  | classBody (members : List Node)
  | method (key : Option Node) (computed : Bool) (value : Option Node) (kind : MethodKind)
      (isStatic : Bool)
  | field (key : Option Node) (computed : Bool) (value : Option Node) (isStatic : Bool)
  | staticBlock (body : Option Node)
  -- Modules
  | importDeclaration (specifiers : List Node) (source : Option Node)
  | importDefault (binding : Node)
  | importNamespace (binding : Node)
  | importSpecifier (imported binding : Node)
  | exportDefault (declaration : Option Node)
  | exportNamed (declaration : Option Node) (specifiers : List Node) (source : Option Node)
  | exportAll (exported source : Option Node)
  | exportSpecifier (binding exported : Node)
  -- Names and literals
  | identifier (name : Text)
  | privateIdentifier (name : Text)
  | jsxIdentifier (name : Text)
  | thisExpression
  | superReference
  | literal (value : Literal) (raw : Text)
  | template (quasis : List Node) (expressions : List (Option Node))
  | templateElement (value : Text)
  -- Expressions
  | member (object property : Option Node) (computed optional : Bool)
  | call (callee : Option Node) (arguments : List Node) (optional : Bool)
  | importCall (source : Option Node)
  | taggedTemplate (tag quasi : Option Node)
  | construct (callee : Option Node) (arguments : List Node)
  | assignment (operator : Text) (left right : Option Node)
  | binary (left : Option Node) (operator : Text) (right : Option Node)
  | unary (operator : Text) (argument : Option Node)
  | update (operator : Text) (before : Bool) (argument : Option Node)
  | conditional (test consequent alternate : Option Node)
  | sequence (expressions : List Node)
  | await (argument : Option Node)
  | yield (argument : Option Node) (delegate : Bool)
  | spread (argument : Option Node)
  | array (elements : List Node)
  | object (properties : List Node)
  | property (key value : Option Node) (computed shorthand isMethod : Bool) (kind : PropertyKind)
  -- Patterns
  | objectPattern (properties : List Node)
  | arrayPattern (elements : List Node)
  | assignmentPattern (left right : Option Node)
  | restElement (argument : Option Node)
  -- Everything else
  | other (name : Text) (children : List Node)

end

namespace Form

/-- The operators of two operands that decide by the first one whether to look at the second. -/
def logicalOperators : List Text := [Text.ofString "&&", Text.ofString "||", Text.ofString "??"]

/-- The name of a form. -/
def name : Form → Text
  | .program .. => "Program"
  | .expressionStatement .. => "ExpressionStatement"
  | .emptyStatement => "EmptyStatement"
  | .debuggerStatement => "DebuggerStatement"
  | .block .. => "BlockStatement"
  | .ifElse .. => "IfStatement"
  | .forLoop .. => "ForStatement"
  | .forEach .keys .. => "ForInStatement"
  | .forEach .values .. => "ForOfStatement"
  | .whileLoop .. => "WhileStatement"
  | .doWhile .. => "DoWhileStatement"
  | .tryStatement .. => "TryStatement"
  | .catchClause .. => "CatchClause"
  | .switch .. => "SwitchStatement"
  | .switchCase .. => "SwitchCase"
  | .returnStatement .. => "ReturnStatement"
  | .throwStatement .. => "ThrowStatement"
  | .labeled .. => "LabeledStatement"
  | .jump .leave _ => "BreakStatement"
  | .jump .next _ => "ContinueStatement"
  | .variableDeclaration .. => "VariableDeclaration"
  | .variableDeclarator .. => "VariableDeclarator"
  | .function .declaration .. => "FunctionDeclaration"
  | .function .expression .. => "FunctionExpression"
  | .arrowFunction .. => "ArrowFunctionExpression"
  | .classLike .declaration .. => "ClassDeclaration"
  | .classLike .expression .. => "ClassExpression"
  | .classBody .. => "ClassBody"
  | .method .. => "MethodDefinition"
  | .field .. => "PropertyDefinition"
  | .staticBlock .. => "StaticBlock"
  | .importDeclaration .. => "ImportDeclaration"
  | .importDefault .. => "ImportDefaultSpecifier"
  | .importNamespace .. => "ImportNamespaceSpecifier"
  | .importSpecifier .. => "ImportSpecifier"
  | .exportDefault .. => "ExportDefaultDeclaration"
  | .exportNamed .. => "ExportNamedDeclaration"
  | .exportAll .. => "ExportAllDeclaration"
  | .exportSpecifier .. => "ExportSpecifier"
  | .identifier .. => "Identifier"
  | .privateIdentifier .. => "PrivateIdentifier"
  | .jsxIdentifier .. => "JSXIdentifier"
  | .thisExpression => "ThisExpression"
  | .superReference => "Super"
  | .literal .. => "Literal"
  | .template .. => "TemplateLiteral"
  | .templateElement .. => "TemplateElement"
  | .member .. => "MemberExpression"
  | .call .. => "CallExpression"
  | .importCall .. => "ImportExpression"
  | .taggedTemplate .. => "TaggedTemplateExpression"
  | .construct .. => "NewExpression"
  | .assignment .. => "AssignmentExpression"
  | .binary _ operator _ =>
    if operator ∈ logicalOperators then "LogicalExpression" else "BinaryExpression"
  | .unary .. => "UnaryExpression"
  | .update .. => "UpdateExpression"
  | .conditional .. => "ConditionalExpression"
  | .sequence .. => "SequenceExpression"
  | .await .. => "AwaitExpression"
  | .yield .. => "YieldExpression"
  | .spread .. => "SpreadElement"
  | .array .. => "ArrayExpression"
  | .object .. => "ObjectExpression"
  | .property .. => "Property"
  | .objectPattern .. => "ObjectPattern"
  | .arrayPattern .. => "ArrayPattern"
  | .assignmentPattern .. => "AssignmentPattern"
  | .restElement .. => "RestElement"
  | .other name _ => name

/-- The name that an identifier carries. -/
def identifierName? : Form → Option Text
  | .identifier name | .privateIdentifier name | .jsxIdentifier name => some name
  | _ => none

end Form

namespace Node

/-- The place of a node. -/
def span : Node → Span
  | .mk span _ => span

/-- What a node is. -/
def form : Node → Form
  | .mk _ form => form

/-- The name of the form of a node. -/
def kind (n : Node) : Text := n.form.name

/-- The offset of the first byte of a node. -/
def start (n : Node) : Nat := n.span.start

/-- The offset of the byte after a node. -/
def stop (n : Node) : Nat := n.span.stop

end Node

end ApiTrace
