import Mathlib.Data.List.Forall2
import ApiTrace.Proofs.Outcome
import ApiTrace.Proofs.Reading.Templates

/-!
# Import and export clauses

What an import or export statement brings in or gives out is a list of specifiers, which stand in
clauses of several kinds. `Concrete.Declares` says what a statement declares in terms of its
concrete specifiers: one specifier for each of them in source order, with the names that stand
there, and the source of the statement.

A name is an identifier, a string, or the keyword `default`, which the grammar does not name.
Specifiers find their names by field, so all three do. The name in `* as name` is found as the last
named part of its clause, so there the keyword is not found, and the statement cannot be read
(`Concrete.module_statement_read`).
-/

namespace ApiTrace

/-- Computations that come to results of some kind come to a list of them. -/
theorem exists_mapM {ε α β : Type} {f : α → Except ε β} {R : α → β → Prop} {as : List α}
    (h : ∀ a ∈ as, ∃ b, f a = .ok b ∧ R a b) : ∃ bs, as.mapM f = .ok bs ∧ List.Forall₂ R as bs := by
  induction as with
  | nil => exact ⟨[], rfl, .nil⟩
  | cons a as ih =>
    obtain ⟨⟨b, hb, hab⟩, has⟩ := List.forall_mem_cons.1 h
    obtain ⟨bs, hbs, hall⟩ := ih has
    simp only [List.mapM_cons, bind_eq_ok, pure_eq_ok]
    exact ⟨b :: bs, ⟨b, hb, bs, hbs, rfl⟩, .cons hab hall⟩

namespace Concrete

/-! ## The specifiers of a statement -/

/-- Whether a node counts as a part of its parent: it is named and is no comment. -/
def counts (c : Concrete) : Bool := c.head.named && !Reading.skippedKinds.contains c.head.kind

/-- The parts of a kind that count. -/
def membersOf (kind : String) (c : Concrete) : List Concrete :=
  (c.children.filter counts).filter (·.head.kind == kind)

/-- The first part that fills a field. -/
def field? (c : Concrete) (field : String) : Option Concrete :=
  c.children.find? (·.head.field == some field)

/-- The specifiers in a member of an import clause, which may be a specifier itself. -/
def specifiersIn (c : Concrete) : List Concrete :=
  match c.head.kind with
  | "identifier" | "namespace_import" => [c]
  | "named_imports" => c.membersOf "import_specifier"
  | _ => []

/-- The specifiers of an import statement in source order: default, namespace and named. -/
def importSpecifiers (c : Concrete) : List Concrete :=
  ((c.membersOf "import_clause").flatMap (·.children.filter counts)).flatMap specifiersIn

/-- The clause of an export statement. -/
def exportClause? (c : Concrete) : Option Concrete :=
  (c.children.filter counts).find? fun d =>
    d.head.kind == "namespace_export" || d.head.kind == "export_clause"

/-- The specifiers of an export statement in source order. The clause of a whole module is one. -/
def exportSpecifiers (c : Concrete) : List Concrete :=
  match c.exportClause? with
  | none => []
  | some d => if d.head.kind == "namespace_export" then [d] else d.membersOf "export_specifier"

/-- The name in `* as name`: what follows the two tokens, comments apart. -/
def starName? (c : Concrete) : Option Concrete :=
  match c.children.filter (fun d => !Reading.skippedKinds.contains d.head.kind) with
  | [star, as, name] => if star.head.named || as.head.named then none else some name
  | _ => none

/-- The name that a specifier gives to what it stands for: its alias if it has one. -/
def givenName? (c : Concrete) : Option Concrete := (c.field? "alias").or (c.field? "name")

/-- Whether a specifier, or a clause that is one, has a name. What an import binds is an
identifier. -/
def hasName (c : Concrete) : Bool :=
  match c.head.kind with
  | "identifier" => true
  | "namespace_import" => c.starName?.any (·.head.named)
  | "namespace_export" => c.starName?.isSome
  | _ => (c.field? "name").isSome

/-- The names in a specifier. -/
def namesIn (c : Concrete) : List Concrete :=
  match c.head.kind with
  | "identifier" => [c]
  | "namespace_import" | "namespace_export" => c.starName?.toList
  | _ => (c.field? "name").toList ++ (c.field? "alias").toList

/-- Whether every specifier of a statement has a name. -/
def hasNames (c : Concrete) : Bool := (c.importSpecifiers ++ c.exportSpecifiers).all hasName

/-- Whether a statement exports a whole module under a keyword. -/
def starKeyword (c : Concrete) : Bool :=
  c.head.kind == "export_statement" && !c.children.any (·.head.kind == "default") &&
    (c.field? "declaration").isNone && c.exportClause?.any fun d =>
      d.head.kind == "namespace_export" && d.starName?.any (!·.head.named)

/-! ## What a statement declares -/

/-- Whether a node is the identifier that is written somewhere. -/
def Written (src : Source) (c : Concrete) (n : Node) : Prop :=
  ∃ name, src.textOf c.head.span = .ok name ∧ n = .mk c.head.span (.identifier name)

/-- Whether a node is the name that stands somewhere: of a string the text that it stands for. -/
def Names (src : Source) (c : Concrete) (n : Node) : Prop :=
  if c.head.kind = "string" then ∃ raw value, src.textOf c.head.span = .ok raw ∧
    Escape.decode (Text.dropEnd 1 (raw.drop 1)) = .ok value ∧
      n = .mk c.head.span (.literal (.string value) raw)
  else Written src c n

/-- Whether a node is read from a part that may be missing. -/
def Fills (src : Source) (part : Option Concrete) (o : Option Node) : Prop :=
  Phrase.nodeOf (part.map (·.read src)) = .ok o

/-- Whether a node is what a specifier of an import brings in. -/
inductive Imports (src : Source) (c : Concrete) : Node → Prop where
  | default {binding : Node} (kind : c.head.kind = "identifier") (written : Written src c binding) :
      Imports src c (.mk c.head.span (.importDefault binding))
  | star {name : Concrete} {binding : Node} (kind : c.head.kind = "namespace_import")
      (name_eq : c.starName? = some name) (written : Written src name binding) :
      Imports src c (.mk c.head.span (.importNamespace binding))
  | named {name given : Concrete} {imported binding : Node}
      (kind : c.head.kind = "import_specifier")
      (name_eq : c.field? "name" = some name) (given_eq : c.givenName? = some given)
      (names : Names src name imported) (written : Written src given binding) :
      Imports src c (.mk c.head.span (.importSpecifier imported binding))

/-- Whether a node is what a specifier of an export gives out. -/
inductive Exports (src : Source) (c : Concrete) : Node → Prop where
  | named {name given : Concrete} {binding exported : Node} (name_eq : c.field? "name" = some name)
      (given_eq : c.givenName? = some given) (names : Names src name binding)
      (gives : Names src given exported) :
        Exports src c (.mk c.head.span (.exportSpecifier binding exported))

/-- Whether an export statement without a declaration gives out what a form says. -/
inductive Clause (src : Source) (c : Concrete) (source : Option Node) : Form → Prop where
  | all (clause : c.exportClause? = none) : Clause src c source (.exportAll none source)
  | allAs {d name : Concrete} {exported : Node} (clause : c.exportClause? = some d)
      (kind : d.head.kind = "namespace_export") (name_eq : d.starName? = some name)
      (names : Names src name exported) : Clause src c source (.exportAll (some exported) source)
  | named {d : Concrete} {specifiers : List Node} (clause : c.exportClause? = some d)
      (kind : d.head.kind ≠ "namespace_export")
      (exports : List.Forall₂ (Exports src) (d.membersOf "export_specifier") specifiers) :
      Clause src c source (.exportNamed none specifiers source)

/-- Whether a statement declares what a form says. -/
inductive Declares (src : Source) (c : Concrete) : Form → Prop where
  | imports {specifiers : List Node} {source : Option Node}
      (kind : c.head.kind = "import_statement")
      (imports : List.Forall₂ (Imports src) c.importSpecifiers specifiers)
      (source_fills : Fills src (c.field? "source") source) :
      Declares src c (.importDeclaration specifiers source)
  | default {declaration source : Option Node} (kind : c.head.kind = "export_statement")
      (marked : c.children.any (·.head.kind == "default") = true)
      (fills : Fills src ((c.field? "declaration").or (c.field? "value")) declaration)
      (source_fills : Fills src (c.field? "source") source) :
      Declares src c (.exportDefault declaration)
  | declaration {declaration source : Option Node} (kind : c.head.kind = "export_statement")
      (marked : c.children.any (·.head.kind == "default") = false)
      (present : (c.field? "declaration").isSome = true)
      (fills : Fills src (c.field? "declaration") declaration)
      (source_fills : Fills src (c.field? "source") source) :
      Declares src c (.exportNamed declaration [] none)
  | clause {source : Option Node} {form : Form} (kind : c.head.kind = "export_statement")
      (marked : c.children.any (·.head.kind == "default") = false)
      (absent : c.field? "declaration" = none) (source_fills : Fills src (c.field? "source") source)
      (clause : Clause src c source form) : Declares src c form

/-- Whether the texts that a statement is made of can be read: its names, its source, and what it
declares. -/
structure Legible (src : Source) (c : Concrete) : Prop where
  names : ∀ d ∈ c.importSpecifiers ++ c.exportSpecifiers, ∀ name ∈ d.namesIn, ∃ n, Names src name n
  source : ∃ o, Fills src (c.field? "source") o
  declaration : ∃ o, Fills src ((c.field? "declaration").or (c.field? "value")) o

/-! ## Readings of parts -/

variable {src : Source} {c d : Concrete} {n : Node} {o : Option Node}

theorem kind_read (src : Source) (c : Concrete) : (c.read src).kind = c.head.kind := by
  rw [Reading.kind, phrase_read]

theorem head_phrase_read (src : Source) (c : Concrete) : (c.read src).phrase.head = c.head := by
  rw [phrase_read]

theorem named_read (src : Source) (c : Concrete) :
    (c.read src).phrase.named = (c.children.filter counts).map (·.read src) := by
  rw [phrase_read, Phrase.named, List.filter_map]
  congr 2
  funext d
  rw [Function.comp_apply, Reading.counts, kind_read, head_phrase_read]
  rfl

theorem named_of_kind_read (kind : String) (src : Source) (c : Concrete) :
    (c.read src).phrase.named.filter (·.kind == kind) = (c.membersOf kind).map (·.read src) := by
  rw [named_read, List.filter_map, membersOf]
  congr 2
  funext d
  rw [Function.comp_apply, kind_read]

theorem child?_read (field : String) (src : Source) (c : Concrete) :
    (c.read src).phrase.child? field = (c.field? field).map (·.read src) := by
  rw [phrase_read, Phrase.child?, List.find?_map]
  congr 2
  funext d
  rw [Function.comp_apply, head_phrase_read]

theorem build_read (form : Form) : (c.read src).phrase.build form = .mk c.head.span form := by
  rw [Phrase.build, Phrase.span, head_phrase_read]

theorem identifier_read : (c.read src).phrase.identifier src = .ok n ↔ Written src c n := by
  simp only [Phrase.identifier, Phrase.text, Phrase.span, head_phrase_read, build_read, bind_eq_ok,
    mapError_eq_ok, pure_eq_ok, Written, @eq_comm _ n]

theorem moduleName_read : Phrase.moduleName src (some (c.read src)) = .ok n ↔ Names src c n := by
  simp only [Phrase.moduleName, kind_read, beq_iff_eq, Names]
  split
  · simp only [Phrase.stringLiteral, Phrase.unescape, Phrase.text, Phrase.span, head_phrase_read,
      build_read, bind_eq_ok, mapError_eq_ok, pure_eq_ok, @eq_comm _ n, exists_and_left]
  · exact identifier_read

theorem fieldNode_read (field : String) :
    (c.read src).phrase.fieldNode field = .ok o ↔ Fills src (c.field? field) o := by
  rw [Phrase.fieldNode, child?_read, Fills]

/-- A clause `* as name` has its name as its only named part, or none if the name is a keyword. -/
theorem counts_of_starName? {name : Concrete} (h : c.starName? = some name) :
    c.children.filter counts = if name.head.named then [name] else [] := by
  have hsplit : c.children.filter counts =
      (c.children.filter fun d => !Reading.skippedKinds.contains d.head.kind).filter
        (·.head.named) := by
    rw [List.filter_filter]
    rfl
  rw [hsplit]
  unfold starName? at h
  split at h
  · rename_i star as last hparts
    split at h
    · cases h
    · rename_i htokens
      cases h
      rw [Bool.or_eq_true, not_or, Bool.not_eq_true, Bool.not_eq_true] at htokens
      rw [hparts]
      simp only [List.filter_cons, htokens.1, htokens.2, Bool.false_eq_true, if_false,
        List.filter_nil]
  · cases h

theorem lastNamed_read {name : Concrete} (h : c.starName? = some name) :
    (c.read src).phrase.lastNamed =
    if name.head.named then .ok (name.read src) else .error .emptyClause := by
  rw [Phrase.lastNamed, named_read, counts_of_starName? h]
  cases name.head.named <;> rfl

/-! ## Readings of specifiers -/

theorem exists_written (h : ∃ n, Names src c n) : ∃ n, Written src c n := by
  obtain ⟨n, h⟩ := h
  unfold Names at h
  split at h
  · obtain ⟨raw, -, hraw, -⟩ := h
    exact ⟨_, raw, hraw, rfl⟩
  · exact ⟨n, h⟩

theorem givenName?_read (src : Source) (c : Concrete) : ((c.read src).phrase.child? "alias").or
    ((c.read src).phrase.child? "name") = c.givenName?.map (·.read src) := by
  rw [child?_read, child?_read, givenName?, Option.map_or]

/-- A specifier with a name has a name that it stands for and one that it gives. -/
theorem exists_names (h : (c.field? "name").isSome = true)
    (hnames : ∀ name ∈ (c.field? "name").toList ++ (c.field? "alias").toList, ∃ n, Names
      src name n) :
    ∃ name given, c.field? "name" = some name ∧ c.givenName? = some given ∧
    (∃ n, Names src name n) ∧
      ∃ n, Names src given n := by
  obtain ⟨name, hname⟩ := Option.isSome_iff_exists.1 h
  rw [hname] at hnames
  have hread := hnames name (.head _)
  cases hfield : c.field? "alias" with
  | none =>
    refine ⟨name, name, hname, ?_, hread, hread⟩
    rw [givenName?, hfield, hname]
    rfl
  | some given =>
    refine ⟨name, given, hname, ?_, hread, hnames given ?_⟩
    · rw [givenName?, hfield]
      rfl
    · rw [hfield]
      exact List.mem_append_right _ (.head _)

theorem importSpecifier_read (hkind : c.head.kind = "import_specifier") (hname : c.hasName = true)
    (hnames : ∀ name ∈ c.namesIn, ∃ n, Names src name n) :
    ∃ n, (c.read src).phrase.importSpecifier src = .ok n ∧ Imports src c n := by
  rw [hasName, hkind] at hname
  rw [namesIn, hkind] at hnames
  obtain ⟨name, given, hname, hgiven, ⟨imported, himported⟩, hread⟩ := exists_names hname hnames
  obtain ⟨binding, hbinding⟩ := exists_written hread
  refine ⟨_, ?_, .named hkind hname hgiven himported hbinding⟩
  simp only [Phrase.importSpecifier, givenName?_read, hgiven, Option.map_some]
  simp only [child?_read, hname, Option.map_some, bind_eq_ok, moduleName_read, identifier_read,
    build_read, pure_eq_ok]
  exact ⟨imported, himported, binding, hbinding, rfl⟩

theorem exportSpecifier_read (hkind : c.head.kind = "export_specifier") (hname : c.hasName = true)
    (hnames : ∀ name ∈ c.namesIn, ∃ n, Names src name n) :
    ∃ n, (c.read src).phrase.exportSpecifier src = .ok n ∧ Exports src c n := by
  rw [hasName, hkind] at hname
  rw [namesIn, hkind] at hnames
  obtain ⟨name, given, hname, hgiven, ⟨binding, hbinding⟩, ⟨exported, hexported⟩⟩ :=
    exists_names hname hnames
  refine ⟨_, ?_, .named hname hgiven hbinding hexported⟩
  simp only [Phrase.exportSpecifier, givenName?_read, hgiven, Option.map_some]
  simp only [child?_read, hname, Option.map_some, bind_eq_ok, moduleName_read, build_read,
    pure_eq_ok]
  exact ⟨binding, hbinding, exported, hexported, rfl⟩

/-- What a member of an import clause brings in. -/
theorem importBindings_read (hname : ∀ d ∈ c.specifiersIn, d.hasName = true)
    (hnames : ∀ d ∈ c.specifiersIn, ∀ name ∈ d.namesIn, ∃ n, Names src name n) :
    ∃ ns, Phrase.importBindings src (c.read src) = .ok ns ∧
      List.Forall₂ (Imports src) c.specifiersIn ns := by
  simp only [Phrase.importBindings, kind_read]
  split
  · rename_i hkind
    simp only [specifiersIn, hkind, List.forall_mem_singleton, namesIn] at hnames ⊢
    obtain ⟨binding, hbinding⟩ := exists_written hnames
    refine ⟨_, ?_, .cons (Imports.default hkind hbinding) .nil⟩
    simp only [bind_eq_ok, pure_eq_ok, identifier_read, build_read]
    exact ⟨binding, hbinding, rfl⟩
  · rename_i hkind
    simp only [specifiersIn, hkind, List.forall_mem_singleton, namesIn, hasName] at hname hnames ⊢
    obtain ⟨name, hstar, hnamed⟩ := (Option.any_eq_true _ _).1 hname
    obtain ⟨binding, hbinding⟩ := exists_written (hnames name (by rw [hstar]; exact .head _))
    refine ⟨_, ?_, .cons (Imports.star hkind hstar hbinding) .nil⟩
    simp only [lastNamed_read hstar, if_pos hnamed, bind_eq_ok, pure_eq_ok, Except.ok.injEq,
      exists_eq_left', identifier_read, build_read]
    exact ⟨binding, hbinding, rfl⟩
  · rename_i hkind
    simp only [specifiersIn, hkind] at hname hnames ⊢
    rw [named_of_kind_read, List.mapM_map]
    exact exists_mapM fun d hd =>
      importSpecifier_read (beq_iff_eq.1 (List.mem_filter.1 hd).2) (hname d hd) (hnames d hd)
  · rename_i hdefault hstar hnamed
    have hnone : c.specifiersIn = [] := by
      unfold specifiersIn
      split
      · exact absurd ‹_› hdefault
      · exact absurd ‹_› hstar
      · exact absurd ‹_› hnamed
      · rfl
    rw [hnone]
    exact ⟨[], rfl, .nil⟩

/-! ## Readings of statements -/

theorem importDeclaration_read (hkind : c.head.kind = "import_statement")
    (hname : c.hasNames = true) (h : Legible src c) :
    ∃ form, (c.read src).phrase.importDeclaration src = .ok (.mk c.head.span form) ∧
      Declares src c form := by
  obtain ⟨source, hsource⟩ := h.source
  obtain ⟨lists, hlists, hall⟩ := exists_mapM fun d hd =>
    have hmem :=
      fun e he => List.mem_append_left c.exportSpecifiers (List.mem_flatMap.2 ⟨d, hd, he⟩)
    importBindings_read (fun e he => List.all_eq_true.1 hname e (hmem e he)) fun e he =>
      h.names e (hmem e he)
  rw [← List.forall₂_map_left_iff] at hall
  refine ⟨_, ?_, .imports hkind (List.rel_flatten hall) hsource⟩
  simp only [Phrase.importDeclaration, named_of_kind_read, List.flatMap_map]
  simp only [named_read, ← List.map_flatMap, List.mapM_map, fieldNode_read, build_read, bind_eq_ok,
    pure_eq_ok]
  exact ⟨lists, hlists, source, hsource, rfl⟩

theorem find_clause_read (src : Source) (c : Concrete) : (c.read src).phrase.named.find?
    (fun r => r.kind == "namespace_export" || r.kind == "export_clause") = c.exportClause?.map
      (·.read src) := by
  rw [named_read, List.find?_map, exportClause?]
  congr 2
  funext d
  rw [Function.comp_apply, kind_read]

theorem exportClause_read (source : Option Node)
    (hname : ∀ d ∈ c.exportSpecifiers, d.hasName = true)
    (hnames : ∀ d ∈ c.exportSpecifiers, ∀ name ∈ d.namesIn, ∃ n, Names src name n)
    (hkeyword : ∀ d name, c.exportClause? = some d → d.head.kind = "namespace_export" →
      d.starName? = some name →
      name.head.named = true) :
    ∃ form, (c.read src).phrase.exportClause src source = .ok (.mk c.head.span form) ∧
      Clause src c source form := by
  unfold exportSpecifiers at hname hnames
  rw [Phrase.exportClause, find_clause_read]
  cases hclause : c.exportClause? with
  | none =>
    refine ⟨_, ?_, .all hclause⟩
    simp only [Option.map_none, build_read]
  | some d =>
    simp only [hclause] at hname hnames
    by_cases hkind : d.head.kind = "namespace_export"
    · simp only [hkind, beq_self_eq_true, if_true, List.forall_mem_singleton, hasName,
        namesIn] at hname hnames
      obtain ⟨name, hstar⟩ := Option.isSome_iff_exists.1 hname
      obtain ⟨exported, hexported⟩ := hnames name (by rw [hstar]; exact .head _)
      refine ⟨_, ?_, .allAs hclause hkind hstar hexported⟩
      simp only [Option.map_some, kind_read, hkind, beq_self_eq_true, if_true, lastNamed_read hstar,
        if_pos (hkeyword d name hclause hkind hstar), build_read, bind_eq_ok, pure_eq_ok,
        Except.ok.injEq, exists_eq_left', moduleName_read]
      exact ⟨exported, hexported, rfl⟩
    · rw [if_neg (mt beq_iff_eq.1 hkind)] at hname hnames
      obtain ⟨specifiers, hspecifiers, hall⟩ := exists_mapM fun e he =>
        exportSpecifier_read (beq_iff_eq.1 (List.mem_filter.1 he).2) (hname e he) (hnames e he)
      refine ⟨_, ?_, .named hclause hkind hall⟩
      simp only [Option.map_some, kind_read, beq_iff_eq, if_neg hkind, build_read,
        named_of_kind_read, List.mapM_map, bind_eq_ok, pure_eq_ok]
      exact ⟨specifiers, hspecifiers, rfl⟩

theorem hasToken_read (kind : String) (src : Source) (c : Concrete) :
    (c.read src).phrase.hasToken kind = c.children.any (·.head.kind == kind) := by
  rw [Phrase.hasToken, phrase_read, List.any_map]
  congr 1
  funext d
  rw [Function.comp_apply, kind_read]

theorem exportDeclaration_read (hkind : c.head.kind = "export_statement")
    (hname : c.hasNames = true) (h : Legible src c) (hkeyword : c.starKeyword = false) :
    ∃ form, (c.read src).phrase.exportDeclaration src = .ok (.mk c.head.span form) ∧
      Declares src c form := by
  obtain ⟨source, hsource⟩ := h.source
  obtain ⟨declaration, hdeclaration⟩ := h.declaration
  simp only [Phrase.exportDeclaration, (fieldNode_read "source").2 hsource, hasToken_read,
    child?_read, build_read, ← Option.map_or]
  cases hmark : c.children.any (·.head.kind == "default") with
  | true =>
    refine ⟨_, ?_, .default hkind hmark hdeclaration hsource⟩
    simp only [bind_eq_ok, pure_eq_ok, if_true, Except.ok.injEq, exists_eq_left']
    exact ⟨declaration, hdeclaration, rfl⟩
  | false =>
    cases hfield : c.field? "declaration" with
    | some d =>
      rw [hfield, Option.some_or] at hdeclaration
      refine ⟨_, ?_, .declaration hkind hmark (by rw [hfield]; rfl) (hfield ▸ hdeclaration) hsource⟩
      simp only [bind_eq_ok, pure_eq_ok, Option.map_some, Except.ok.injEq, exists_eq_left',
        Bool.false_eq_true, if_false]
      exact ⟨declaration, hdeclaration, rfl⟩
    | none =>
      have hmem : ∀ d ∈ c.exportSpecifiers, d ∈ c.importSpecifiers ++ c.exportSpecifiers :=
        fun _ hd => List.mem_append_right _ hd
      -- The keyword as the name of a whole module is the one name that is no named part.
      have hnamed : ∀ d name, c.exportClause? = some d → d.head.kind = "namespace_export" →
          d.starName? = some name → name.head.named = true := by
        intro d name hclause hstar hname
        rw [starKeyword, hkind, hmark, hfield, hclause] at hkeyword
        simpa [hstar, hname] using hkeyword
      obtain ⟨form, hform, hclause⟩ := exportClause_read source
        (fun d hd => List.all_eq_true.1 hname d (hmem d hd))
        (fun d hd => h.names d (hmem d hd)) hnamed
      exact ⟨form, hform, .clause hkind hmark hfield hsource hclause⟩

theorem exportDeclaration_keyword (hsource : ∃ source, Fills src (c.field? "source") source)
    (h : c.starKeyword = true) :
    (c.read src).phrase.exportDeclaration src = .error .emptyClause := by
  obtain ⟨source, hsource⟩ := hsource
  simp only [starKeyword, Bool.and_eq_true, Bool.not_eq_true', Option.isNone_iff_eq_none,
    Option.any_eq_true, beq_iff_eq] at h
  obtain ⟨⟨⟨-, hmark⟩, hfield⟩, d, hclause, hkind, name, hname, hnamed⟩ := h
  simp only [Phrase.exportDeclaration, (fieldNode_read "source").2 hsource, hasToken_read, hmark,
    child?_read, hfield, Phrase.exportClause, find_clause_read, hclause, Option.map_some,
    Option.map_none, kind_read, hkind, beq_self_eq_true, lastNamed_read hname, hnamed]
  rfl

theorem read_import (hkind : c.head.kind = "import_statement") :
    (c.read src).node = (c.read src).phrase.importDeclaration src >>= fun n => pure (some n) := by
  obtain ⟨⟨kind, named, span, field⟩, children⟩ := c
  obtain rfl : kind = "import_statement" := hkind
  rw [read]
  rfl

theorem read_export (hkind : c.head.kind = "export_statement") :
    (c.read src).node = (c.read src).phrase.exportDeclaration src >>= fun n => pure (some n) := by
  obtain ⟨⟨kind, named, span, field⟩, children⟩ := c
  obtain rfl : kind = "export_statement" := hkind
  rw [read]
  rfl

/-- An import or export statement with names whose texts can be read is read as what it declares,
with one specifier for each of its concrete ones. The one exception is a whole module that is
exported under the keyword `default`: such a statement is not read, although it declares
something. -/
theorem module_statement_read
    (hkind : c.head.kind = "import_statement" ∨ c.head.kind = "export_statement")
    (hnames : c.hasNames = true) (h : Legible src c) :
    (c.starKeyword = false →
      ∃ form, (c.read src).node = .ok (some (.mk c.head.span form)) ∧ Declares src c form) ∧
    (c.starKeyword = true → (c.read src).node = .error .emptyClause) := by
  rcases hkind with hkind | hkind
  · have hplain : c.starKeyword = false := by
      rw [starKeyword, hkind]
      rfl
    obtain ⟨form, hform, hdeclares⟩ := importDeclaration_read hkind hnames h
    refine ⟨fun _ => ⟨form, ?_, hdeclares⟩, fun hkeyword => ?_⟩
    · rw [read_import hkind, hform]
      rfl
    · cases hplain.symm.trans hkeyword
  · rw [read_export hkind]
    refine ⟨fun hkeyword => ?_, fun hkeyword => ?_⟩
    · obtain ⟨form, hform, hdeclares⟩ := exportDeclaration_read hkind hnames h hkeyword
      refine ⟨form, ?_, hdeclares⟩
      rw [hform]
      rfl
    · rw [exportDeclaration_keyword h.source hkeyword]
      rfl

/-- The statement `export * as default from "m"`. -/
def starDefault : Concrete :=
  let node := fun kind named start stop field children =>
    Concrete.mk ⟨kind, named, ⟨start, stop, 1, start⟩, field⟩ children
  node "export_statement" true 0 28 none [
    node "export" false 0 6 none [],
    node "namespace_export" true 7 19 none [
      node "*" false 7 8 none [], node "as" false 9 11 none [], node "default" false 12 19 none []],
    node "from" false 20 24 none [],
    node "string" true 25 28 (some "source") [node "string_fragment" true 26 27 none []]]

/-- The statement `export * as default from "m"` has texts that can be read, but it is not read. -/
theorem module_statement_read_default : starDefault.head.kind = "export_statement" ∧
    starDefault.hasNames = true ∧ starDefault.starKeyword = true ∧
    ∃ src : Source, src.text = Text.ofString "export * as default from \"m\"" ∧
    Legible src starDefault ∧
      (starDefault.read src).node = .error .emptyClause := by
  have hnames : starDefault.hasNames = true := by decide
  have hkeyword : starDefault.starKeyword = true := by decide
  have htexts : (Source.ofText? (Text.ofString "export * as default from \"m\"")).any
    (fun src => decide
      (src.text = Text.ofString "export * as default from \"m\"" ∧
        src.textOf ⟨12, 19, 1, 12⟩ = .ok (Text.ofString "default") ∧
        ((starDefault.read src).phrase.fieldNode "source").toBool = true)) = true :=
          by decide +kernel
  obtain ⟨src, -, htexts⟩ := (Option.any_eq_true _ _).1 htexts
  obtain ⟨htext, hname, hsource⟩ := of_decide_eq_true htexts
  have hfills : ∃ source, Fills src (starDefault.field? "source") source := by
    cases hread : (starDefault.read src).phrase.fieldNode "source" with
    | error fault =>
      rw [hread] at hsource
      cases hsource
    | ok source => exact ⟨source, (fieldNode_read _).1 hread⟩
  have hlegible : Legible src starDefault := by
    refine ⟨fun d hd name hmem => ?_, hfills, none, rfl⟩
    cases hd with
    | head =>
      cases hmem with
      | head => exact ⟨_, _, hname, rfl⟩
      | tail _ hmem => cases hmem
    | tail _ hd => cases hd
  exact ⟨rfl, hnames, hkeyword, src, htext, hlegible,
    (module_statement_read (.inr rfl) hnames hlegible).2 hkeyword⟩

end Concrete

end ApiTrace
