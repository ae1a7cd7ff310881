import ApiTrace.Log
import ApiTrace.Text.Quoted
import ApiTrace.Trace.Choice
import ApiTrace.Trace.Flow

/-!
# Roots of tracing

The places where a traced value comes into a program, by strategy: global variables that the program
does not declare, calls of a `require` that it does not declare, and the import and export
declarations that name a module.
-/

namespace ApiTrace.Tracer

variable {ι κ : Type}

/-! ### Globals -/

/-- The members of the trace map that are undeclared globals, with their variables. -/
def globalRoots (t : Tracer) (m : TraceMap ι) : List (Text × VariableId × TraceMap ι) :=
  m.children.filterMap fun (key, child) => (t.graph.undeclared? key).map (key, ·, child)

/-- The names of the global object that are undeclared globals, with their variables. -/
def globalObjectRoots (t : Tracer) (names : List Text) : List (Text × VariableId) :=
  names.filterMap fun name => (t.graph.undeclared? name).map (name, ·)

/-- The matches of global names: first those that are used directly, then those that are properties
of the global object. -/
def globalMatches (t : Tracer) (names : List Text) (m : TraceMap ι) : Emission ConstantFault :=
  .concatMap (fun (key, x, child) => t.enter [] true x ⟨[key], child⟩) (t.globalRoots m)
    ++ .concatMap (fun (_, x) => t.enter [] false x ⟨[], m⟩) (t.globalObjectRoots names)

/-- The log of a search for global names. -/
def globalLog (t : Tracer) (names : List Text) (m : TraceMap ι) : List LogLine :=
  (t.globalRoots m).map (fun (key, _) => .debug ("Tracing global " ++ Text.quoted key))
    ++ (t.globalObjectRoots names).map
      fun (name, _) => .debug ("Tracing global object " ++ Text.quoted name)

/-! ### Calls of `require` -/

/-- The name of the function that loads a CommonJS module. -/
def requireName : Text := "require"

/-- The constant text of the first argument of a call. -/
def firstArgument? (t : Tracer) (arguments : List Node) : Except ConstantFault (Option Text) :=
  optionConstantText? t.joins arguments.head?

/-- The matches of one mention of `require`: it must be the function of a call whose first argument
is a constant text. -/
def requireMatches (t : Tracer) (m : TraceMap ι) (r : Reference) : Emission ConstantFault :=
  match r.mention.identifier.above with
  | [] => .empty
  | frame :: above =>
    if !r.mention.access.reads then .empty
    else match frame.parent.form with
      | .call _ arguments _ =>
        if frame.slot.role = .callee then
          .withValue (t.firstArgument? arguments) fun key =>
            match Traced.child? ⟨[], m⟩ key with
            | none => .empty
            | some v =>
              v.report .read ⟨frame.parent, above⟩ []
                ++ t.climb [] (t.enter [] false) above v
        else .empty
      | form => if form.name = Text.ofString "CallExpression" then .fail .missingPart else .empty

/-- The matches of CommonJS modules. -/
def cjsMatches (t : Tracer) (m : TraceMap ι) : Emission ConstantFault :=
  match t.graph.undeclared? requireName with
  | none => .empty
  | some x => .concatMap (t.requireMatches m) (t.graph.referencesOf x)

/-- The log of a search for CommonJS modules. -/
def cjsLog (t : Tracer) : List LogLine :=
  match t.graph.undeclared? requireName with
  | none => [.debug "No global require binding, skipping CommonJS references"]
  | some _ => []

/-! ### Import and export declarations -/

/-- The module that a node names. -/
def moduleId? (n : Node) : Except ConstantFault (Option Text) :=
  match n.form with
  | .literal (.string id) _ | .templateElement id => .ok (some id)
  | .literal .. | .property .. | .method .. | .field .. => .ok none
  | _ => .error .missingPart

/-- The name of an import or export, which can be written as a string. -/
def exportName? (n : Node) : Except ConstantFault (Option Text) :=
  match n.form with
  | .identifier name | .literal (.string name) _ => .ok (some name)
  | .other name _ =>
    if name = Text.ofString "Identifier" ∨ name = Text.ofString "Literal" then .error .missingPart
    else .ok none
  | _ => .ok none

/-- The node that names the module of a declaration. -/
def moduleSource? (declaration : Form) : Option Node :=
  match declaration with
  | .importDeclaration _ source | .exportNamed _ _ source | .exportAll _ source => source
  | _ => none

/-- The names that a declaration imports or exports. -/
def specifiers (declaration : Form) : List Node :=
  match declaration with
  | .importDeclaration specifiers _ | .exportNamed _ specifiers _ => specifiers
  | _ => []

/-- The module of a declaration, if the trace map knows it. -/
def moduleRoot? (m : TraceMap ι) (declaration : Site) : Except ConstantFault (Option (Traced ι)) :=
  match moduleSource? declaration.node.form with
  | none => .ok none
  | some source => do return (← moduleId? source).bind (Traced.child? ⟨[], m⟩ ·)

/-- Follows a value into the variable that an import binds. -/
def importBinding (t : Tracer) (binding : Node) (v : Traced ι) : Emission ConstantFault :=
  match binding.form.identifierName? with
  | none => .fail .missingPart
  | some name =>
    match t.graph.findVariable? binding.start name with
    | some x => t.enter [] false x v
    | none => .empty

/-- The matches of one name that a declaration imports or exports from a module. -/
def specifierMatches (t : Tracer) (specifier : Site) (v : Traced ι) : Emission ConstantFault :=
  let named := fun key binding =>
    match v.child? key with
    | none => .empty
    | some w => w.report .read specifier [] ++ t.importBinding binding w
  match specifier.node.form with
  | .importSpecifier imported binding => .withValue (exportName? imported) (named · binding)
  | .importDefault binding => named TraceMap.defaultName binding
  | .importNamespace binding => t.importBinding binding v
  | .exportSpecifier binding _ =>
    .withValue (exportName? binding) fun key =>
      match v.child? key with
      | none => .empty
      | some w => w.report .read specifier []
  | _ => .empty

/-- A path without the name of the default export after the module. -/
def withoutDefault : List Text → List Text
  | module :: name :: rest =>
    if name = TraceMap.defaultName then module :: rest else module :: name :: rest
  | path => path

/-- A match in a CommonJS module that was found through its default export. That the module is
imported is no match. -/
def exceptDefault (found : Match) : Option Match :=
  let path := withoutDefault found.path
  if path.length < 2 ∧ found.use = .read then none else some { found with path }

/-- The matches of the names that a declaration imports or exports from a module. -/
def specifiersMatches (t : Tracer) (declaration : Site) (v : Traced ι) : Emission ConstantFault :=
  .concatMap (fun (n, i) => t.specifierMatches (declaration.down ⟨.specifiers, i⟩ n) v)
    (specifiers declaration.node.form).zipIdx

/-- The matches of a declaration that names a module. A module that has not the shape of an
ECMAScript module is seen through its default export. -/
def declarationMatches (t : Tracer) (mode : Mode) (declaration : Site) (v : Traced ι) :
    Emission ConstantFault :=
  v.report .read declaration [] ++
    match declaration.node.form with
    | .exportAll .. =>
      .concatMap (fun (key, child) => Traced.report ⟨v.path ++ [key], child⟩ .read declaration [])
        v.map.children
    | _ =>
      if v.map.isEsm then t.specifiersMatches declaration v
      else (t.specifiersMatches declaration
        ⟨v.path, v.map.asDefaultExport (mode = .legacy)⟩).filterMap exceptDefault

/-- The statements of a program. -/
def statements (t : Tracer) : List Site :=
  match t.graph.program.form with
  | .program body _ => body.zipIdx.map fun (n, i) => (Site.root t.graph.program).down ⟨.body, i⟩ n
  | _ => []

/-- The matches of ECMAScript modules. -/
def esmMatches (t : Tracer) (mode : Mode) (m : TraceMap ι) : Emission ConstantFault :=
  .concatMap (fun s => .withValue (moduleRoot? m s) (t.declarationMatches mode s)) t.statements

/-- The log of a search for ECMAScript modules. -/
def esmLog (t : Tracer) (m : TraceMap ι) : List LogLine :=
  t.statements.filterMap fun s =>
    match moduleRoot? m s with
    | .ok (some v) =>
      some (.debug ("Tracing module " ++ Text.quoted (v.path.headD []) ++ " from " ++ s.kind))
    | _ => none

/-! ### Strategies -/

/-- The matches of a strategy. -/
def strategyMatches (t : Tracer) (mode : Mode) (names : List Text) (m : TraceMap ι) :
    Strategy → Emission ConstantFault
  | .globals => t.globalMatches names m
  | .cjs => t.cjsMatches m
  | .esm => t.esmMatches mode m

/-- The log of a strategy. -/
def strategyLog (t : Tracer) (names : List Text) (m : TraceMap ι) : Strategy → List LogLine
  | .globals => t.globalLog names m
  | .cjs => t.cjsLog
  | .esm => t.esmLog m

end ApiTrace.Tracer
