import Mathlib.Algebra.BigOperators.Group.Multiset.Basic
import ApiTrace.Scope.Graph

/-!
# What a place says of names

Where a node stands decides which scopes are around it and, if it is an identifier, what it does to
its name. Both are read off the way up from the node, without any order of reading: `regions` lists
the scopes around a place and `purpose` tells what an identifier there is for. `Site.sayings` puts
them together as what a node does to names, each event with the scopes around it, and `Site.told`
collects that over a tree.

Not every child is code. A label, the name of a property, and what is imported or exported under
another name mention no variable and declare none (`isCode`).
-/

namespace ApiTrace

/-! ## The scopes around a place -/

/-- A scope as it stands in the text: what opens it, and where. -/
structure Region where
  kind : ScopeKind
  block : Site

/-- What opens a scope, and where. -/
def Scope.region (s : Scope) : Region := ⟨s.kind, s.block⟩

/-- Whether a place is the body of a function or of a static initializer. A block there opens no
scope of its own. -/
def isBody : List Frame → Bool
  | ⟨⟨.body, _⟩, .mk _ (.function ..)⟩ :: _ | ⟨⟨.body, _⟩, .mk _ (.arrowFunction ..)⟩ :: _
  | ⟨⟨.body, _⟩, .mk _ (.staticBlock _)⟩ :: _ => true
  | _ => false

/-- Whether a node declares variables for the scope that it stands in. -/
def Node.isLexical (n : Node) : Bool :=
  match n.form with
  | .variableDeclaration keyword _ => keyword != "var"
  | _ => false

/-- The scopes that a node opens, the inner one first. -/
def Site.opened (s : Site) : List Region :=
  match s.node.form with
  | .program _ sourceType =>
    if !s.above.isEmpty then []
    else if sourceType = Text.ofString "module" then [⟨.moduleBody, s⟩, ⟨.program, s⟩]
    else [⟨.program, s⟩]
  | .block _ => if isBody s.above then [] else [⟨.block, s⟩]
  | .staticBlock _ => [⟨.staticBlock, s⟩]
  | .function .expression (some _) .. => [⟨.function, s⟩, ⟨.functionName, s⟩]
  | .function .. | .arrowFunction .. => [⟨.function, s⟩]
  | .classLike .. => [⟨.classBody, s⟩]
  | .catchClause .. => [⟨.handler, s⟩]
  | .switch .. => [⟨.switchBody, s⟩]
  | .forLoop init .. => if init.any Node.isLexical then [⟨.loop, s⟩] else []
  | .forEach _ left .. => if left.any Node.isLexical then [⟨.loop, s⟩] else []
  | _ => []

/-- The scopes that a node opens around a child. The name of a function stands outside the scope of
the function, and the name of a class, what a class extends and what a `switch` tests stand outside
of all. -/
def Site.opens (s : Site) (role : Role) : List Region :=
  match s.node.form, role with
  | .function .., .name => s.opened.tail
  | .classLike .., .name | .classLike .., .superClass | .switch .., .discriminant => []
  | _, _ => s.opened

/-- The scopes around a place, the innermost first. -/
def regions : List Frame → List Region
  | [] => []
  | frame :: above => Site.opens ⟨frame.parent, above⟩ frame.slot.role ++ regions above

/-- The scope that a definition belongs to, among the scopes around it. -/
def Target.region? (around : List Region) : Target → Option Region
  | .here => around.head?
  | .varScope => around.find? (·.kind.ownsVars)

/-! ## What an identifier is for -/

/-- Whether a place is that of a property of an object pattern. -/
def isMember : List Frame → Bool
  | ⟨_, .mk _ (.objectPattern _)⟩ :: _ => true
  | _ => false

/-- The declaration that a place belongs to as a declarator. -/
def declaration? : List Frame → Option Site
  | ⟨_, .mk span (.variableDeclaration keyword declarations)⟩ :: above =>
    some ⟨.mk span (.variableDeclaration keyword declarations), above⟩
  | _ => none

/-- The import declaration that a place belongs to as a specifier. -/
def import? : List Frame → Option Site
  | ⟨_, .mk span (.importDeclaration specifiers source)⟩ :: above =>
    some ⟨.mk span (.importDeclaration specifiers source), above⟩
  | _ => none

/-- Whether a place is that of a specifier of an export. -/
def isExported : List Frame → Bool
  | ⟨⟨.specifiers, _⟩, .mk _ (.exportNamed ..)⟩ :: _ => true
  | _ => false

/-- Whether a place is where a loop over the members of a value names its variable. -/
def isLoopVariable : List Frame → Bool
  | ⟨⟨.left, _⟩, .mk _ (.forEach ..)⟩ :: _ => true
  | _ => false

/-- What an identifier is for. -/
inductive Purpose where
  | read
  /-- Read and written with a new value. -/
  | update (value : Option Site)
  /-- Written with a value, or with a part of it. -/
  | write (value : Option Site)
  /-- A parameter of a function or of a `catch` clause. -/
  | parameter (kind : DefinitionKind) (owner : Site)
  /-- Bound by a declarator of a declaration. -/
  | declared (declarator declaration : Site)
  | imported (specifier declaration : Site)
  | functionName (owner : Site)
  | className (placement : Placement) (owner : Site)

/-- What the identifiers of a pattern are for, by what an identifier in the place of the pattern
would be for. -/
def Purpose.inside : Purpose → Purpose
  | .write value => .write value
  | .parameter kind owner => .parameter kind owner
  | .declared declarator declaration => .declared declarator declaration
  | _ => .read

/-- Whether a function, a class or an import is called by what stands in a place. -/
def Purpose.isName : Purpose → Bool
  | .imported .. | .functionName _ | .className .. => true
  | _ => false

/-- What an identifier at a place is for. -/
def purpose : List Frame → Purpose
  | [] => .read
  | ⟨slot, parent⟩ :: above =>
    let self : Site := ⟨parent, above⟩
    match parent.form, slot.role with
    | .objectPattern _, _ | .arrayPattern _, _ | .restElement _, _ | .assignmentPattern .., .left =>
      (purpose above).inside
    | .property .., .value => if isMember above then (purpose above).inside else .read
    | .function .., .params | .arrowFunction .., .params => .parameter .parameter self
    | .catchClause .., .param => .parameter .caught self
    | .variableDeclarator .., .name => ((declaration? above).map (.declared self)).getD .read
    | .forEach _ _ right .., .left => .write (self.downOption .right right)
    | .assignment operator _ right, .left =>
      let value := self.downOption .right right
      if operator = Text.ofString "=" then .write value else .update value
    | .update .., .argument => .update none
    | .importDefault _, .binding | .importNamespace _, .binding | .importSpecifier .., .binding =>
      ((import? above).map (.imported self)).getD .read
    | .function .., .name => .functionName self
    | .classLike placement .., .name => .className placement self
    | _, _ => .read

/-! ## What a place says -/

/-- Something that is done to names, with the scopes around it. -/
abbrev Saying := List Region × ScopeEvent

/-- The scope that the variables of a declaration belong to. -/
def Site.target (declaration : Site) : Target :=
  match declaration.node.form with
  | .variableDeclaration keyword _ => if keyword = "var" then .varScope else .here
  | _ => .here

/-- The value that a declarator begins with. -/
def Site.initial? (declarator : Site) : Option Site :=
  match declarator.node.form with
  | .variableDeclarator _ init => declarator.downOption .init init
  | _ => none

/-- What an identifier says by what it is for, with the scopes around it. -/
def Purpose.sayings (around : List Region) (x : Site) : Purpose → List Saying
  | .read => [(around, .mention ⟨x, .read, none, false⟩)]
  | .update value => [(around, .mention ⟨x, .readWrite, value, false⟩)]
  | .write value => [(around, .mention ⟨x, .write, value, false⟩)]
  | .parameter kind owner => [(around, .define .here ⟨kind, x, owner, none⟩)]
  | .declared declarator declaration =>
    (around, .define declaration.target ⟨.declared, x, declarator, some declaration⟩)
      :: if isLoopVariable declaration.above || declarator.initial?.isSome
        then [(around, .mention ⟨x, .write, declarator.initial?, true⟩)] else []
  | .imported specifier declaration =>
    [(around, .define .here ⟨.imported, x, specifier, some declaration⟩)]
  | .functionName owner => [(around, .define .here ⟨.functionName, x, owner, none⟩)]
  -- The name of a class is also known inside the class.
  | .className placement owner =>
    let definition : Definition := ⟨.className, x, owner, none⟩
    (if placement = .declaration then [(around, .define .here definition)] else [])
      ++ [(owner.opened ++ around, .define .here definition)]

/-- The scopes of a node open one inside the other. -/
def enters (around : List Region) : List Region → List Saying
  | [] => []
  | inner :: outer => enters around outer ++ [(outer ++ around, .enter inner.kind inner.block)]

/-- What a node by itself does to names: it opens its scopes, a function that is no arrow function
has `arguments`, and an identifier does what its place says. Names of other kinds can only be what
something is called by. -/
def Site.sayings (s : Site) : List Saying :=
  enters (regions s.above) s.opened ++
    match s.node.form with
    | .identifier _ => (purpose s.above).sayings (regions s.above) s
    | .privateIdentifier _ | .jsxIdentifier _ =>
      if (purpose s.above).isName then (purpose s.above).sayings (regions s.above) s else []
    | .function .. => [(s.opened ++ regions s.above, .implicit "arguments")]
    | _ => []

/-! ## Code -/

/-- Whether a node is an identifier. -/
def Node.isIdentifier (n : Node) : Bool :=
  match n.form with
  | .identifier _ => true
  | _ => false

/-- Whether a child of a node is code. A text can be exported in place of a name. -/
def Site.holdsCode (s : Site) (role : Role) : Bool :=
  match s.node.form, role with
  | .labeled .., .label | .jump .., _ | .exportAll .., _ | .importDeclaration .., .source => false
  | .method _ computed .., .key | .field _ computed .., .key | .property _ _ computed .., .key
  | .member _ _ computed _, .property => computed
  | .exportNamed none _ none, _ => true
  | .exportNamed (some _) _ none, role => role = .declaration
  | .exportNamed .., _ => false
  | .importSpecifier .., .imported => (import? s.above).isNone
  | .exportSpecifier .., .exported => !isExported s.above
  | .exportSpecifier binding _, .binding => !isExported s.above || binding.isIdentifier
  | .other name _, _ => name ∉ ScopeEvent.silentNames
  | _, _ => true

/-- Whether a place is in code. -/
def isCode : List Frame → Bool
  | [] => true
  | frame :: above => Site.holdsCode ⟨frame.parent, above⟩ frame.slot.role && isCode above

/-- The places of a tree that are in code. -/
def Site.code (s : Site) : List Site := s.walk.filter fun x => isCode x.above

/-- What the code of a tree says, in no order. -/
def Site.told (s : Site) : Multiset Saying := ↑(s.code.flatMap Site.sayings)

/-! ## What is declared where -/

/-- Whether an event makes a name known to the scope that a target stands for. -/
inductive ScopeEvent.Adds (name : Text) : ScopeEvent → Target → Prop where
  | implicit : Adds name (.implicit name) .here
  | define {target d} (hname : d.name.name? = some name) : Adds name (.define target d) target

/-- Whether a name is made known to the scope that stands in a region. -/
def Saying.Adds (s : Saying) (R : Region) (name : Text) : Prop :=
  ∃ target, s.2.Adds name target ∧ target.region? s.1 = some R

/-- Whether a definition is given to the name in the scope that stands in a region. -/
def Saying.Defines (s : Saying) (R : Region) (name : Text) (d : Definition) : Prop :=
  ∃ target, s.2 = .define target d ∧ d.name.name? = some name ∧ target.region? s.1 = some R

/-- Whether a name is declared anywhere in the code of a tree for the scope that stands in a
region. -/
def Site.Declares (s : Site) (R : Region) (name : Text) : Prop :=
  ∃ x ∈ s.code, ∃ saying ∈ x.sayings, saying.Adds R name

/-- Whether a definition is given anywhere in the code of a tree to a name in the scope that stands
in a region. -/
def Site.Defines (s : Site) (R : Region) (name : Text) (d : Definition) : Prop :=
  ∃ x ∈ s.code, ∃ saying ∈ x.sayings, saying.Defines R name d

end ApiTrace
