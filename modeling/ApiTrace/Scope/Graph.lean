import ApiTrace.Scope.Event

/-!
# Scope graphs

The scopes of a program, the variables that each scope declares, and the variable that each mention
of a name refers to. Scopes are numbered in the order in which they open, so the scope of the whole
program has the number zero and a scope comes after the scopes around it. A variable is known by the
number of its scope and its name.

A name is looked up after the whole program is read: in its own scope, then outwards. A name that no
scope declares is an undeclared global: it becomes a variable of the outermost scope that has no
definitions.
-/

namespace ApiTrace

/-- A name that a scope knows, with its definitions in source order. -/
structure Variable where
  name : Text
  definitions : List Definition

/-- A scope: what opened it and where, the numbers of the scopes around it, the nearest first, and
its variables in the order in which they appear. -/
structure Scope where
  kind : ScopeKind
  block : Site
  outer : List Nat
  bindings : List Variable

/-- What a variable is known by. -/
structure VariableId where
  scope : Nat
  name : Text
deriving DecidableEq

/-- A mention of a name with its variable: `scope` is the number of the scope that it stands in. -/
structure Reference where
  mention : Mention
  name : Text
  scope : Nat
  resolved : VariableId

/-- The scopes of a program and its references in the order in which they are read. -/
structure ScopeGraph where
  program : Node
  scopes : List Scope
  references : List Reference

/-! ### Variables of a scope -/

namespace Scope

/-- The variable of a name. -/
def get? (s : Scope) (name : Text) : Option Variable := s.bindings.find? (·.name == name)

/-- Whether a scope knows a name. -/
def declares (s : Scope) (name : Text) : Bool := (s.get? name).isSome

/-- Makes a name known. -/
def addName (s : Scope) (name : Text) : Scope :=
  if s.declares name then s else { s with bindings := s.bindings ++ [⟨name, []⟩] }

/-- Adds a definition to the variable of a name, which is made known if it is not. -/
def addDefinition (s : Scope) (name : Text) (definition : Definition) : Scope :=
  let s := s.addName name
  { s with bindings := s.bindings.map fun v =>
      if v.name = name then { v with definitions := v.definitions ++ [definition] } else v }

/-- Whether an offset lies in the block of a scope. -/
def covers (s : Scope) (offset : Int) : Bool :=
  s.block.node.start ≤ offset && offset < s.block.node.stop

end Scope

/-! ### Building -/

/-- The scopes that have opened so far, the numbers of those that are still open, the innermost
first, and the mentions so far with the number of their scope, the last one first. -/
structure ScopeBuilder where
  scopes : List Scope
  openScopes : List Nat
  mentions : List (Nat × Mention)

namespace ScopeBuilder

/-- The builder before a program is read. -/
def empty : ScopeBuilder := ⟨[], [], []⟩

/-- The number of the innermost scope. -/
def current (b : ScopeBuilder) : Nat := b.openScopes.head?.getD 0

/-- The number of the scope that a definition belongs to. -/
def targetScope (b : ScopeBuilder) : Target → Nat
  | .here => b.current
  | .varScope => (b.openScopes.find? fun i => b.scopes[i]?.any (·.kind.ownsVars)).getD 0

/-- Changes a scope. -/
def modify (b : ScopeBuilder) (i : Nat) (f : Scope → Scope) : ScopeBuilder :=
  { b with scopes := b.scopes.modify i f }

/-- Takes account of an event. -/
def step (b : ScopeBuilder) : ScopeEvent → ScopeBuilder
  | .enter kind block =>
    { b with
      scopes := b.scopes ++ [⟨kind, block, b.openScopes, []⟩]
      openScopes := b.scopes.length :: b.openScopes }
  | .leave => { b with openScopes := b.openScopes.tail }
  | .define target definition =>
    match definition.name.name? with
    | some name => b.modify (b.targetScope target) (·.addDefinition name definition)
    | none => b
  | .implicit name => b.modify b.current (·.addName name)
  | .mention mention => { b with mentions := (b.current, mention) :: b.mentions }
  | .fault _ => b

/-- What comes of a list of events. -/
def run (events : List ScopeEvent) : ScopeBuilder := events.foldl step empty

end ScopeBuilder

/-- The events of a program. A module has a scope of its own inside the outermost one. -/
def Node.scopeEvents (program : Node) : List ScopeEvent :=
  let root := Site.root program
  match program.form with
  | .program body sourceType =>
    let inner := ScopeEvent.visitAll root .body 0 body
    .enter .program root ::
      (if sourceType = Text.ofString "module" then .enter .moduleBody root :: inner ++ [.leave]
        else inner) ++ [.leave]
  | _ => [.fault .missingPart]

/-- The first fault of a list of events. -/
def ScopeEvent.firstFault? (events : List ScopeEvent) : Option ScopeFault :=
  events.findSome? fun
    | .fault f => some f
    | _ => none

/-! ### Resolution -/

/-- The number of the nearest scope that knows a name, from scope `i` outwards. -/
def lookup? (scopes : List Scope) (i : Nat) (name : Text) : Option Nat :=
  match scopes[i]? with
  | none => none
  | some s => (i :: s.outer).find? fun j => scopes[j]?.any (·.declares name)

/-- The reference that a mention is. A name that no scope knows belongs to the outermost scope. -/
def resolve (scopes : List Scope) (scope : Nat) (name : Text) (mention : Mention) : Reference :=
  ⟨mention, name, scope, ⟨(lookup? scopes scope name).getD 0, name⟩⟩

/-- The names that no scope knows are made known to the outermost one. -/
def addUndeclared (scopes : List Scope) (references : List Reference) : List Scope :=
  scopes.modify 0 fun s => references.foldl
    (fun s r => if r.resolved.scope = 0 then s.addName r.name else s) s

/-- The scope graph of a program. -/
def ScopeGraph.analyze (program : Node) : Except ScopeFault ScopeGraph :=
  let events := program.scopeEvents
  match ScopeEvent.firstFault? events with
  | some fault => .error fault
  | none =>
    let builder := ScopeBuilder.run events
    let named := builder.mentions.reverse.mapM fun (scope, mention) =>
      mention.identifier.name?.map fun name => resolve builder.scopes scope name mention
    match named with
    | none => .error .missingPart
    | some references => .ok ⟨program, addUndeclared builder.scopes references, references⟩

/-! ### Questions -/

namespace ScopeGraph

/-- The references of a variable, in the order in which they are read. -/
def referencesOf (g : ScopeGraph) (v : VariableId) : List Reference :=
  g.references.filter (·.resolved == v)

/-- The references that stand in a scope. -/
def referencesIn (g : ScopeGraph) (scope : Nat) : List Reference :=
  g.references.filter (·.scope == scope)

/-- The variable behind an id. -/
def get? (g : ScopeGraph) (v : VariableId) : Option Variable :=
  (g.scopes[v.scope]?).bind (·.get? v.name)

/-- The ids of all variables. -/
def variableIds (g : ScopeGraph) : List VariableId :=
  g.scopes.zipIdx.flatMap fun (s, i) => s.bindings.map fun v => ⟨i, v.name⟩

/-- The number of the nearest scope, from scope `i` outwards, that owns `var` declarations. -/
def varScope (g : ScopeGraph) (i : Nat) : Nat :=
  match g.scopes[i]? with
  | none => 0
  | some s => ((i :: s.outer).find? fun j => g.scopes[j]?.any (·.kind.ownsVars)).getD 0

/-- The variable of a global name that the program itself does not declare. -/
def undeclared? (g : ScopeGraph) (name : Text) : Option VariableId :=
  match g.get? ⟨0, name⟩ with
  | some v => if v.definitions.isEmpty then some ⟨0, name⟩ else none
  | none => none

/-- Of each undeclared global, the reference that is read first. -/
def through (g : ScopeGraph) : List Reference :=
  (g.references.foldl (fun (seen, found) r =>
    if (g.undeclared? r.name).any (· == r.resolved) && !seen.contains r.name
    then (r.name :: seen, r :: found) else (seen, found)) (([] : List Text), [])).2.reverse

/-! ### Look-up by place -/

/-- The number of the innermost scope at an offset: from the outermost scope always into the first
scope inside that covers the offset. Inner scopes come later, so one pass finds it. An offset may
lie before or behind the text, where only the outermost scope is. -/
def innermost (g : ScopeGraph) (offset : Int) : Nat :=
  g.scopes.zipIdx.foldl
    (fun i (s, j) => if s.outer.head? = some i ∧ s.covers offset then j else i) 0

/-- The variable that a name at an offset refers to. -/
def findVariable? (g : ScopeGraph) (offset : Int) (name : Text) : Option VariableId :=
  (lookup? g.scopes (g.innermost offset) name).map (⟨·, name⟩)

end ScopeGraph

end ApiTrace
