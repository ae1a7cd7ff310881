import ApiTrace.Syntax.Site

/-!
# Scope events

What a program does to names, in the order in which it is read: scopes open and close, names are
defined, and identifiers are mentioned as reads or writes. `ScopeEvent.visit` lists these events for
a node. The scope graph is made from the list alone, so every question about which names a program
declares and uses is a question about a list.

The names that a pattern binds come first, then the expressions inside the pattern: default values,
computed keys and targets that are no variables.
-/

namespace ApiTrace

/-- The child of a node in a role, if there is one. -/
def Site.downOption (s : Site) (role : Role) (child : Option Node) : Option Site :=
  child.map (s.down ⟨role, 0⟩)

/-- What opens a scope. -/
inductive ScopeKind where
  | program
  | moduleBody
  | function
  | functionName
  | classBody
  | staticBlock
  | block
  | loop
  | handler
  | switchBody
deriving DecidableEq

/-- Whether a `var` declaration inside a scope of this kind belongs to it. -/
def ScopeKind.ownsVars : ScopeKind → Bool
  | .program | .moduleBody | .function | .staticBlock => true
  | _ => false

/-- What declares a name. -/
inductive DefinitionKind where
  | declared
  | functionName
  | className
  | parameter
  | caught
  | imported
deriving DecidableEq

/-- A declaration of a name: the identifier, the node that declares it and the node around that. -/
structure Definition where
  kind : DefinitionKind
  name : Site
  node : Site
  parent : Option Site

/-- Whether a mention of a name reads its variable, writes it or does both. -/
inductive Access where
  | read
  | write
  | readWrite
deriving DecidableEq

namespace Access

/-- Whether the value is read. -/
def reads : Access → Bool
  | .read | .readWrite => true
  | .write => false

/-- Whether the value is written. -/
def writes : Access → Bool
  | .write | .readWrite => true
  | .read => false

end Access

/-- An identifier in a reading or writing position. A write may know the expression that is written,
and whether it initializes its variable. -/
structure Mention where
  identifier : Site
  access : Access
  writeExpr : Option Site
  isInit : Bool

/-- The scope that a definition belongs to, seen from where it stands. -/
inductive Target where
  /-- The scope around the definition. -/
  | here
  /-- The nearest scope that owns `var` declarations. -/
  | varScope
deriving DecidableEq

/-- Why a program has no scopes. -/
inductive ScopeFault where
  /-- A node lacks a part that its name promises. -/
  | missingPart
  /-- A single node stands where a list of statements is needed. -/
  | nodeForList
  /-- Nothing stands where a list of statements is needed. -/
  | nothingForList
deriving DecidableEq

/-- What is said of a program without scopes, where there is something to say. -/
def ScopeFault.message? : ScopeFault → Option String
  | .missingPart => none
  | .nodeForList => some "'Node' object is not iterable"
  | .nothingForList => some "'NoneType' object is not iterable"

/-- One thing that a program does to names. -/
inductive ScopeEvent where
  | enter (kind : ScopeKind) (block : Site)
  | leave
  | define (target : Target) (definition : Definition)
  /-- A name that a scope has without a declaration. -/
  | implicit (name : Text)
  | mention (mention : Mention)
  | fault (fault : ScopeFault)

namespace ScopeEvent

/-- Defines a name; a node without a name cannot be defined. -/
def defining (target : Target) (definition : Definition) : ScopeEvent :=
  if definition.name.name?.isSome then .define target definition else .fault .missingPart

/-- A write of a value to a variable. -/
def writing (value : Option Site) (identifier : Site) : List ScopeEvent :=
  [.mention ⟨identifier, .write, value, false⟩]

/-- Defines the name of a function or class, if it has one. -/
def naming (kind : DefinitionKind) (node : Site) : Option Node → List ScopeEvent
  | none => []
  | some name => [defining .here ⟨kind, node.down ⟨.name, 0⟩ name, node, none⟩]

/-- The names of forms that cannot be read without parts of their own. -/
def partedNames : List Text :=
  ["BlockStatement", "StaticBlock", "VariableDeclaration", "FunctionDeclaration",
    "FunctionExpression", "ArrowFunctionExpression", "ClassDeclaration", "ClassExpression",
    "MethodDefinition", "PropertyDefinition", "Property", "MemberExpression",
    "AssignmentExpression", "UpdateExpression", "ForStatement", "ForInStatement", "ForOfStatement",
    "CatchClause", "SwitchStatement", "LabeledStatement", "ImportDeclaration",
    "ExportNamedDeclaration", "ExportDefaultDeclaration"].map Text.ofString

/-- The names of forms that do nothing to names. -/
def silentNames : List Text :=
  ["BreakStatement", "ContinueStatement", "ExportAllDeclaration"].map Text.ofString

/-- The names of patterns that cannot be taken apart without parts of their own. -/
def patternNames : List Text :=
  ["ObjectPattern", "ArrayPattern", "AssignmentPattern", "RestElement"].map Text.ofString

mutual

/-- The events of a node. -/
def visit (above : List Frame) : Node → List ScopeEvent
  | .mk span form => visitForm ⟨.mk span form, above⟩ form

/-- The events of a node by its form. -/
def visitForm (self : Site) : Form → List ScopeEvent
  | .identifier _ => [.mention ⟨self, .read, none, false⟩]
  | .program body _ => visitAll self .body 0 body
  -- Scopes
  | .block body => .enter .block self :: visitAll self .body 0 body ++ [.leave]
  | .staticBlock body =>
    .enter .staticBlock self :: (match body with
      | none => []
      | some (.mk span form) =>
        visitStatements ⟨.mk span form, self.frames ⟨.body, 0⟩⟩ form) ++ [.leave]
  | .function placement name params body _ _ =>
    let inner := .enter .function self :: .implicit "arguments"
      :: visitParams self 0 params ++ visitFunctionBody self body ++ [.leave]
    match placement, name with
    | .declaration, name => naming .functionName self name ++ inner
    | .expression, none => inner
    | .expression, some name =>
      .enter .functionName self :: naming .functionName self (some name) ++ inner ++ [.leave]
  | .arrowFunction params body _ _ =>
    .enter .function self :: visitOptionalParams self 0 params ++ visitFunctionBody self body
      ++ [.leave]
  | .classLike placement name superClass body =>
    (match placement with
      | .declaration => naming .className self name
      | .expression => [])
    ++ visitOne self .superClass superClass
    ++ .enter .classBody self :: naming .className self name ++ visitClassBody self body ++ [.leave]
  | .catchClause param body =>
    let bind := fun identifier => [defining .here ⟨.caught, identifier, self, none⟩]
    .enter .handler self :: visitPattern self .param bind param ++ visitOne self .body body
      ++ [.leave]
  | .switch discriminant cases =>
    visitOne self .discriminant discriminant
      ++ .enter .switchBody self :: visitAll self .cases 0 cases ++ [.leave]
  -- Loops
  | .forLoop init test update body =>
    let inner := visitOne self .init init ++ visitOne self .test test
      ++ visitOne self .update update ++ visitOne self .body body
    match init.map Node.form with
    | some (.variableDeclaration keyword _) =>
      if keyword = "var" then inner else .enter .loop self :: inner ++ [.leave]
    | _ => inner
  | .forEach _ left right body _ =>
    let rest := visitOne self .right right ++ visitOne self .body body
    match left with
    | some (.mk span (.variableDeclaration keyword declarations)) =>
      let declaration : Site :=
        self.down ⟨.left, 0⟩ (.mk span (.variableDeclaration keyword declarations))
      let target := if keyword = "var" then Target.varScope else .here
      let inner := visitDeclarators declaration target true 0 declarations ++ rest
      if keyword = "var" then inner else .enter .loop self :: inner ++ [.leave]
    | left => visitPattern self .left (writing (self.downOption .right right)) left ++ rest
  -- Declarations
  | .variableDeclaration keyword declarations =>
    visitDeclarators self (if keyword = "var" then .varScope else .here) false 0 declarations
  | .importDeclaration specifiers _ =>
    (specifiers.zipIdx.map fun (specifier, i) =>
      let site := self.down ⟨.specifiers, i⟩ specifier
      match specifier.form with
      | .importDefault binding | .importNamespace binding | .importSpecifier _ binding =>
        defining .here ⟨.imported, site.down ⟨.binding, 0⟩ binding, site, some self⟩
      | _ => .fault .missingPart)
  | .exportNamed declaration specifiers source =>
    match source, declaration with
    | some _, _ => []
    | none, some (.mk span form) => visitForm (self.down ⟨.declaration, 0⟩ (.mk span form)) form
    | none, none => visitExports self 0 specifiers
  | .exportDefault declaration => visitOne self .declaration declaration
  | .exportAll .. => []
  -- Properties
  | .method key computed value _ _ | .field key computed value _ |
      .property key value computed .. =>
    (if computed then visitOne self .key key else []) ++ visitOne self .value value
  | .member object property computed _ =>
    visitOne self .object object ++ if computed then visitOne self .property property else []
  -- Writes
  | .assignment operator left right =>
    let value := self.downOption .right right
    (if operator = Text.ofString "=" then visitPattern self .left (writing value) left
      else match left with
        | some (.mk span (.identifier name)) =>
          [.mention ⟨self.down ⟨.left, 0⟩ (.mk span (.identifier name)), .readWrite, value, false⟩]
        | left => visitOne self .left left)
    ++ visitOne self .right right
  | .update _ _ argument =>
    match argument with
    | some (.mk span (.identifier name)) =>
      [.mention ⟨self.down ⟨.argument, 0⟩ (.mk span (.identifier name)), .readWrite, none, false⟩]
    | argument => visitOne self .argument argument
  -- Jumps
  | .labeled _ body => visitOne self .body body
  | .jump .. => []
  -- Everything else does to names what its children do
  | .emptyStatement | .debuggerStatement | .thisExpression | .superReference
  | .privateIdentifier _ | .jsxIdentifier _ | .literal .. | .templateElement _ => []
  | .expressionStatement expression => visitOne self .expression expression
  | .ifElse test consequent alternate | .conditional test consequent alternate =>
    visitOne self .test test ++ visitOne self .consequent consequent
      ++ visitOne self .alternate alternate
  | .whileLoop test body => visitOne self .test test ++ visitOne self .body body
  | .doWhile body test => visitOne self .body body ++ visitOne self .test test
  | .tryStatement block handler finalizer =>
    visitOne self .block block ++ visitOne self .handler handler
      ++ visitOne self .finalizer finalizer
  | .switchCase test consequent =>
    visitOne self .test test ++ visitAll self .consequent 0 consequent
  | .returnStatement argument | .throwStatement argument | .unary _ argument | .await argument
  | .yield argument _ | .spread argument | .restElement argument =>
    visitOne self .argument argument
  | .variableDeclarator target init => visitOne self .name target ++ visitOne self .init init
  | .classBody members => visitAll self .body 0 members
  | .importDefault binding | .importNamespace binding => visit (self.frames ⟨.binding, 0⟩) binding
  | .importSpecifier imported binding =>
    visit (self.frames ⟨.imported, 0⟩) imported ++ visit (self.frames ⟨.binding, 0⟩) binding
  | .exportSpecifier binding exported =>
    visit (self.frames ⟨.binding, 0⟩) binding ++ visit (self.frames ⟨.exported, 0⟩) exported
  | .template quasis expressions =>
    visitAll self .quasis 0 quasis ++ visitGaps self .expressions 0 expressions
  | .call callee arguments _ | .construct callee arguments =>
    visitOne self .callee callee ++ visitAll self .arguments 0 arguments
  | .importCall source => visitOne self .source source
  | .taggedTemplate tag quasi => visitOne self .tag tag ++ visitOne self .quasi quasi
  | .binary left _ right | .assignmentPattern left right =>
    visitOne self .left left ++ visitOne self .right right
  | .sequence expressions => visitAll self .expressions 0 expressions
  | .array elements | .arrayPattern elements => visitAll self .elements 0 elements
  | .object properties | .objectPattern properties => visitAll self .properties 0 properties
  | .other name children =>
    if name = Text.ofString "Identifier" then [.mention ⟨self, .read, none, false⟩]
    else if name ∈ partedNames then [.fault .missingPart]
    else if name ∈ silentNames then []
    else visitAll self .children 0 children

/-- The events of an optional child. -/
def visitOne (self : Site) (role : Role) : Option Node → List ScopeEvent
  | none => []
  | some n => visit (self.frames ⟨role, 0⟩) n

/-- The events of the children from number `i` on. -/
def visitAll (self : Site) (role : Role) (i : Nat) : List Node → List ScopeEvent
  | [] => []
  | n :: ns => visit (self.frames ⟨role, i⟩) n ++ visitAll self role (i + 1) ns

/-- The events of the children from number `i` on, where children may be missing. -/
def visitGaps (self : Site) (role : Role) (i : Nat) : List (Option Node) → List ScopeEvent
  | [] => []
  | none :: ns => visitGaps self role (i + 1) ns
  | some n :: ns => visit (self.frames ⟨role, i⟩) n ++ visitGaps self role (i + 1) ns

/-- The events of the statements that a node holds as its body. -/
def visitStatements (self : Site) : Form → List ScopeEvent
  | .block body | .program body _ | .classBody body => visitAll self .body 0 body
  | .forLoop _ _ _ body | .forEach _ _ _ body _ | .whileLoop _ body | .doWhile body _
  | .catchClause _ body | .labeled _ body | .function _ _ _ body _ _ | .arrowFunction _ body _ _
  | .classLike _ _ _ body | .staticBlock body =>
    [.fault (if body.isSome then .nodeForList else .nothingForList)]
  | _ => [.fault .missingPart]

/-- The events of the body of a function. A block that is a body opens no scope of its own. -/
def visitFunctionBody (self : Site) : Option Node → List ScopeEvent
  | none => []
  | some (.mk span (.block body)) =>
    visitAll (self.down ⟨.body, 0⟩ (.mk span (.block body))) .body 0 body
  | some (.mk span form) => visitForm (self.down ⟨.body, 0⟩ (.mk span form)) form

/-- The events of the members of a class. -/
def visitClassBody (self : Site) : Option Node → List ScopeEvent
  | none => []
  | some (.mk span (.classBody members)) =>
    visitAll (self.down ⟨.body, 0⟩ (.mk span (.classBody members))) .body 0 members
  | some _ => [.fault .missingPart]

/-- The events of the names that an export lists. A name that is a string mentions no variable. -/
def visitExports (self : Site) (i : Nat) : List Node → List ScopeEvent
  | [] => []
  | .mk span (.exportSpecifier (.mk nameSpan (.identifier name)) exported) :: ns =>
    let specifier := self.down ⟨.specifiers, i⟩
      (.mk span (.exportSpecifier (.mk nameSpan (.identifier name)) exported))
    .mention ⟨specifier.down ⟨.binding, 0⟩ (.mk nameSpan (.identifier name)), .read, none, false⟩
      :: visitExports self (i + 1) ns
  | .mk _ (.exportSpecifier ..) :: ns => visitExports self (i + 1) ns
  | _ :: ns => .fault .missingPart :: visitExports self (i + 1) ns

/-- The events of the parameters of a function from number `i` on. -/
def visitParams (self : Site) (i : Nat) : List Node → List ScopeEvent
  | [] => []
  | n :: ns =>
    let bind := fun identifier => [defining .here ⟨.parameter, identifier, self, none⟩]
    visitBindings (self.frames ⟨.params, i⟩) bind n ++ visitInside (self.frames ⟨.params, i⟩) n
      ++ visitParams self (i + 1) ns

/-- The events of parameters of which one may be missing. -/
def visitOptionalParams (self : Site) (i : Nat) : List (Option Node) → List ScopeEvent
  | [] => []
  | none :: ns => visitOptionalParams self (i + 1) ns
  | some n :: ns =>
    let bind := fun identifier => [defining .here ⟨.parameter, identifier, self, none⟩]
    visitBindings (self.frames ⟨.params, i⟩) bind n ++ visitInside (self.frames ⟨.params, i⟩) n
      ++ visitOptionalParams self (i + 1) ns

/-- The events of the declarators of a declaration from number `i` on. A variable is written if it
has an initial value or if `loop` says that a loop gives it its values. -/
def visitDeclarators (declaration : Site) (target : Target) (loop : Bool) (i : Nat) :
    List Node → List ScopeEvent
  | [] => []
  | .mk span (.variableDeclarator bound init) :: ns =>
    let self := declaration.down ⟨.declarations, i⟩ (.mk span (.variableDeclarator bound init))
    let value := self.downOption .init init
    let bind := fun identifier =>
      defining target ⟨.declared, identifier, self, some declaration⟩
        :: if loop || init.isSome then [.mention ⟨identifier, .write, value, true⟩] else []
    visitPattern self .name bind bound ++ visitOne self .init init
      ++ visitDeclarators declaration target loop (i + 1) ns
  | _ :: ns => .fault .missingPart :: visitDeclarators declaration target loop (i + 1) ns

/-- The events of a pattern: what `bind` says of each identifier that the pattern binds, then the
events of the expressions inside the pattern. -/
def visitPattern (self : Site) (role : Role) (bind : Site → List ScopeEvent) :
    Option Node → List ScopeEvent
  | none => []
  | some n =>
    visitBindings (self.frames ⟨role, 0⟩) bind n ++ visitInside (self.frames ⟨role, 0⟩) n

/-- What `bind` says of each identifier that a pattern binds. -/
def visitBindings (above : List Frame) (bind : Site → List ScopeEvent) : Node → List ScopeEvent
  | .mk span form =>
    let self : Site := ⟨.mk span form, above⟩
    match form with
    | .identifier _ => bind self
    | .objectPattern properties => visitPropertyBindings self bind 0 properties
    | .arrayPattern elements => visitElementBindings self bind 0 elements
    | .assignmentPattern left _ => visitOneBinding self .left bind left
    | .restElement argument => visitOneBinding self .argument bind argument
    | .other name _ =>
      if name = Text.ofString "Identifier" then bind self
      else if name ∈ patternNames then [.fault .missingPart]
      else []
    | _ => []

/-- What `bind` says of the identifiers of an optional pattern. -/
def visitOneBinding (self : Site) (role : Role) (bind : Site → List ScopeEvent) :
    Option Node → List ScopeEvent
  | none => []
  | some n => visitBindings (self.frames ⟨role, 0⟩) bind n

/-- What `bind` says of the identifiers of an array pattern from element `i` on. -/
def visitElementBindings (self : Site) (bind : Site → List ScopeEvent) (i : Nat) :
    List Node → List ScopeEvent
  | [] => []
  | n :: ns =>
    visitBindings (self.frames ⟨.elements, i⟩) bind n ++ visitElementBindings self bind (i + 1) ns

/-- What `bind` says of the identifiers of an object pattern from property `i` on. -/
def visitPropertyBindings (self : Site) (bind : Site → List ScopeEvent) (i : Nat) :
    List Node → List ScopeEvent
  | [] => []
  | .mk span (.property key value computed shorthand isMethod kind) :: ns =>
    let property := self.down ⟨.properties, i⟩
      (.mk span (.property key value computed shorthand isMethod kind))
    visitOneBinding property .value bind value ++ visitPropertyBindings self bind (i + 1) ns
  | n :: ns =>
    (if n.kind = Text.ofString "Property" then [.fault .missingPart]
      else visitBindings (self.frames ⟨.properties, i⟩) bind n)
    ++ visitPropertyBindings self bind (i + 1) ns

/-- The events of the expressions inside a pattern. -/
def visitInside (above : List Frame) : Node → List ScopeEvent
  | .mk span form =>
    let self : Site := ⟨.mk span form, above⟩
    match form with
    | .identifier _ => []
    | .objectPattern properties => visitInsideProperties self 0 properties
    | .arrayPattern elements => visitInsideElements self 0 elements
    | .assignmentPattern left right => visitInsideOne self .left left ++ visitOne self .right right
    | .restElement argument => visitInsideOne self .argument argument
    | .other name children =>
      if name = Text.ofString "Identifier" ∨ name ∈ patternNames then []
      else visitForm self (.other name children)
    | form => visitForm self form

/-- The events of the expressions inside an optional pattern. -/
def visitInsideOne (self : Site) (role : Role) : Option Node → List ScopeEvent
  | none => []
  | some n => visitInside (self.frames ⟨role, 0⟩) n

/-- The events of the expressions inside an array pattern from element `i` on. -/
def visitInsideElements (self : Site) (i : Nat) : List Node → List ScopeEvent
  | [] => []
  | n :: ns => visitInside (self.frames ⟨.elements, i⟩) n ++ visitInsideElements self (i + 1) ns

/-- The events of the expressions inside an object pattern from property `i` on. -/
def visitInsideProperties (self : Site) (i : Nat) : List Node → List ScopeEvent
  | [] => []
  | .mk span (.property key value computed shorthand isMethod kind) :: ns =>
    let property := self.down ⟨.properties, i⟩
      (.mk span (.property key value computed shorthand isMethod kind))
    (if computed then visitOne property .key key else [])
      ++ visitInsideOne property .value value ++ visitInsideProperties self (i + 1) ns
  | n :: ns =>
    (if n.kind = Text.ofString "Property" then []
      else visitInside (self.frames ⟨.properties, i⟩) n)
    ++ visitInsideProperties self (i + 1) ns

end

end ScopeEvent

end ApiTrace
