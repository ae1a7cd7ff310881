import ApiTrace.Syntax.Reading.Literal

/-!
# Reading imports and exports
-/

namespace ApiTrace.Phrase

/-- A name that a module exports: an identifier or a string. -/
def moduleName (src : Source) (name : Option Reading) : Outcome Node :=
  match name with
  | none => .error .missingPart
  | some r => if r.kind == "string" then r.phrase.stringLiteral src else r.phrase.identifier src

/-- The last child that counts, which is the name in a clause that must have one. -/
def lastNamed (p : Phrase) : Outcome Reading :=
  match p.named.getLast? with
  | some r => .ok r
  | none => .error .emptyClause

/-! ### Imports -/

/-- A name in the braces of an import. The alias is the binding if there is one. -/
def importSpecifier (src : Source) (p : Phrase) : Outcome Node := do
  let name := p.child? "name"
  let imported ← moduleName src name
  let binding ← match (p.child? "alias").or name with
    | some r => r.phrase.identifier src
    | none => .error .missingPart
  return p.build (.importSpecifier imported binding)

/-- What one member of an import clause brings in. -/
def importBindings (src : Source) (r : Reading) : Outcome (List Node) :=
  let p := r.phrase
  match r.kind with
  | "identifier" => do return [p.build (.importDefault (← p.identifier src))]
  | "namespace_import" => do
    let name ← p.lastNamed
    return [p.build (.importNamespace (← name.phrase.identifier src))]
  | "named_imports" =>
    (p.named.filter (·.kind == "import_specifier")).mapM (·.phrase.importSpecifier src)
  | _ => .ok []

/-- An import declaration. -/
def importDeclaration (src : Source) (p : Phrase) : Outcome Node := do
  let clauses := p.named.filter (·.kind == "import_clause")
  let specifiers ← (clauses.flatMap (·.phrase.named)).mapM (importBindings src)
  let source ← p.fieldNode "source"
  return p.build (.importDeclaration specifiers.flatten source)

/-! ### Exports -/

/-- A name in the braces of an export. Without an alias it is exported under its own name. -/
def exportSpecifier (src : Source) (p : Phrase) : Outcome Node := do
  let name := p.child? "name"
  let binding ← moduleName src name
  let exported ← moduleName src ((p.child? "alias").or name)
  return p.build (.exportSpecifier binding exported)

/-- An export without a declaration: of a whole module under a name, of names in braces, or of a
whole module. The first clause decides. -/
def exportClause (src : Source) (p : Phrase) (source : Option Node) : Outcome Node :=
  match p.named.find? fun r => r.kind == "namespace_export" || r.kind == "export_clause" with
  | none => .ok (p.build (.exportAll none source))
  | some clause =>
    if clause.kind == "namespace_export" then do
      let name ← clause.phrase.lastNamed
      return p.build (.exportAll (some (← moduleName src (some name))) source)
    else do
      let specifiers := clause.phrase.named.filter (·.kind == "export_specifier")
      return p.build (.exportNamed none (← specifiers.mapM (·.phrase.exportSpecifier src)) source)

/-- An export declaration. -/
def exportDeclaration (src : Source) (p : Phrase) : Outcome Node := do
  let source ← p.fieldNode "source"
  if p.hasToken "default" then
    return p.build (.exportDefault (← nodeOf ((p.child? "declaration").or (p.child? "value"))))
  match p.child? "declaration" with
  | some r => return p.build (.exportNamed (← r.node) [] none)
  | none => p.exportClause src source

end ApiTrace.Phrase
