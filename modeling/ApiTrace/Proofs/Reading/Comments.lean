import ApiTrace.Syntax.Program

/-!
# Comments and readings

A rule looks at the children of a concrete node through few functions: those that count, those in a
field, whether there is a token. None of them sees a comment that stands in no field. `Reading.bare`
leaves these comments out, at all depths, and each rule gives the same for a phrase with and without
them. There is one exception: whether an increment comes before its operand is seen from the first
child, whatever it is. So phrases that differ in comments only stand for the same, as long as
increments begin alike (`Phrase.read_congr`).
-/

namespace ApiTrace

/-! ## Readings without comments -/

/-- Whether a concrete node is a comment that fills no field of its parent. -/
def Concrete.Head.isComment (head : Concrete.Head) : Bool :=
  Reading.skippedKinds.contains head.kind && head.field.isNone

namespace Reading

/-- Whether the concrete node is a comment that fills no field. -/
def isComment (r : Reading) : Bool := r.phrase.head.isComment

mutual

/-- The reading without the comments inside. -/
def bare : Reading → Reading
  | .mk head children node => .mk head (bareAll children) node

/-- Some readings without comments. -/
def bareAll : List Reading → List Reading
  | [] => []
  | r :: rs => if r.isComment then bareAll rs else r.bare :: bareAll rs

end

end Reading

/-- The phrase without the comments inside. -/
def Phrase.bare (p : Phrase) : Phrase := ⟨p.head, Reading.bareAll p.children⟩

namespace Reading

variable (r : Reading) (rs : List Reading)

@[simp] theorem phrase_bare : r.bare.phrase = r.phrase.bare := by
  obtain ⟨head, children, node⟩ := r
  rw [bare]
  rfl

@[simp] theorem node_bare : r.bare.node = r.node := by
  obtain ⟨head, children, node⟩ := r
  rw [bare]
  rfl

@[simp] theorem kind_bare : r.bare.kind = r.kind := by
  rw [kind, phrase_bare]
  rfl

@[simp] theorem span_bare : r.bare.span = r.span := by
  rw [span, phrase_bare]
  rfl

@[simp] theorem counts_bare : r.bare.counts = r.counts := by
  rw [counts, phrase_bare, kind_bare]
  rfl

theorem bareAll_eq : bareAll rs = (rs.filter (!·.isComment)).map bare := by
  induction rs with
  | nil => rw [bareAll]; rfl
  | cons r rs ih =>
    rw [bareAll, ih]
    cases h : r.isComment with
    | false => rw [List.filter_cons_of_pos (by simp [h])]; rfl
    | true => rw [List.filter_cons_of_neg (by simp [h])]; rfl

/-- Readings that no comment is among are all there without comments. -/
theorem filter_bareAll {p : Reading → Bool} (hbare : ∀ r : Reading, p r.bare = p r)
    (hcomment : ∀ r : Reading, r.isComment = true → p r = false) :
    (bareAll rs).filter p = (rs.filter p).map bare := by
  rw [bareAll_eq, List.filter_map, List.filter_filter]
  congr 1
  apply List.filter_congr
  intro r _
  show (p r.bare && !r.isComment) = p r
  rw [hbare]
  cases h : r.isComment with
  | false => simp
  | true => simp [hcomment r h]

variable {r}

theorem counts_of_isComment (h : r.isComment = true) : r.counts = false := by
  have hkind : skippedKinds.contains r.kind = true := (Bool.and_eq_true_iff.1 h).1
  rw [counts, hkind]
  exact Bool.and_false _

theorem field_of_isComment (h : r.isComment = true) (field : String) :
    (r.phrase.head.field == some field) = false := by
  have hnone : r.phrase.head.field = none :=
    Option.isNone_iff_eq_none.1 (Bool.and_eq_true_iff.1 h).2
  rw [hnone]
  rfl

theorem kind_of_isComment (h : r.isComment = true) {kind : String} (hkind : kind ∉ skippedKinds) :
    (r.kind == kind) = false := by
  have hmem : r.kind ∈ skippedKinds := List.contains_iff_mem.1 (Bool.and_eq_true_iff.1 h).1
  apply beq_eq_false_iff_ne.2
  rintro rfl
  exact hkind hmem

end Reading

/-! ## What a rule looks at -/

namespace Phrase

variable {α : Type} (p : Phrase) (src : Source) (field : String)

@[simp] theorem kind_bare : p.bare.kind = p.kind := rfl

@[simp] theorem span_bare : p.bare.span = p.span := rfl

@[simp] theorem build_bare (form : Form) : p.bare.build form = p.build form := rfl

@[simp] theorem text_bare : p.bare.text src = p.text src := rfl

@[simp] theorem identifier_bare : p.bare.identifier src = p.identifier src := rfl

@[simp] theorem named_bare : p.bare.named = p.named.map Reading.bare :=
  Reading.filter_bareAll _ Reading.counts_bare fun _ => Reading.counts_of_isComment

@[simp] theorem childrenIn_bare :
    p.bare.childrenIn field = (p.childrenIn field).map Reading.bare := by
  apply Reading.filter_bareAll
  · intro r
    rw [Reading.phrase_bare]
    rfl
  · intro r h
    exact Reading.field_of_isComment h field

@[simp] theorem child?_bare : p.bare.child? field = (p.child? field).map Reading.bare := by
  have hhead : ∀ q : Phrase, q.child? field = (q.childrenIn field).head? := fun q =>
    List.head?_filter.symm
  rw [hhead, hhead, childrenIn_bare, List.head?_map]

@[simp] theorem hasToken_bare {kind : String} (h : kind ∉ Reading.skippedKinds) :
    p.bare.hasToken kind = p.hasToken kind := by
  show (Reading.bareAll p.children).any (·.kind == kind) = p.children.any (·.kind == kind)
  rw [Reading.bareAll_eq, List.any_map, List.any_filter]
  congr 1
  funext r
  show (!r.isComment && r.bare.kind == kind) = (r.kind == kind)
  rw [r.kind_bare]
  cases hr : r.isComment with
  | false => rfl
  | true => exact (Reading.kind_of_isComment hr h).symm

@[simp] theorem nodeOf_map_bare (r : Option Reading) : nodeOf (r.map Reading.bare) = nodeOf r := by
  cases r with
  | none => rfl
  | some r => exact r.node_bare

@[simp] theorem nodeOf_some (r : Reading) : nodeOf (some r) = r.node := rfl

@[simp] theorem nodesOf_map_bare (rs : List Reading) :
    nodesOf (rs.map Reading.bare) = nodesOf rs := by
  induction rs with
  | nil => rfl
  | cons r rs ih =>
    rw [List.map_cons, nodesOf, nodesOf, r.node_bare, ih]

@[simp] theorem fieldNode_bare : p.bare.fieldNode field = p.fieldNode field := by
  rw [fieldNode, child?_bare, nodeOf_map_bare]
  rfl

@[simp] theorem firstNode_bare : p.bare.firstNode = p.firstNode := by
  rw [firstNode, named_bare, List.head?_map, nodeOf_map_bare]
  rfl

@[simp] theorem nodes_bare : p.bare.nodes = p.nodes := by
  rw [nodes, named_bare, nodesOf_map_bare]
  rfl

@[simp] theorem nodesIn_map_bare (r : Option Reading) :
    nodesIn (r.map Reading.bare) = nodesIn r := by
  cases r with
  | none => rfl
  | some r =>
    show r.bare.phrase.nodes = r.phrase.nodes
    rw [Reading.phrase_bare, nodes_bare]

@[simp] theorem fieldText_bare (absent : Text) :
    p.bare.fieldText src field absent = p.fieldText src field absent := by
  unfold fieldText
  rw [child?_bare]
  cases p.child? field with
  | none => rfl
  | some r =>
    show r.bare.phrase.text src = r.phrase.text src
    rw [Reading.phrase_bare, text_bare]

/-! ## Statements -/

@[simp] theorem detectedSourceType_bare : p.bare.detectedSourceType = p.detectedSourceType := by
  simp [detectedSourceType, List.any_map, Function.comp_def]

@[simp] theorem program_bare (sourceType : Option Text) :
    p.bare.program src sourceType = p.program src sourceType := by
  simp [program]

@[simp] theorem ifStatement_bare : p.bare.ifStatement = p.ifStatement := by
  unfold ifStatement
  rw [child?_bare]
  cases p.child? "alternative" <;> simp

@[simp] theorem loopPart_map_bare (part : Option Reading) :
    loopPart (part.map Reading.bare) = loopPart part := by
  cases part <;> simp [loopPart]

@[simp] theorem forStatement_bare : p.bare.forStatement = p.forStatement := by
  simp [forStatement]

@[simp] theorem loopVariable_bare : p.bare.loopVariable = p.loopVariable := by
  unfold loopVariable
  rw [child?_bare, child?_bare]
  cases p.child? "kind" <;> cases p.child? "left" <;> simp [nodeOf]

@[simp] theorem forEachStatement_bare : p.bare.forEachStatement = p.forEachStatement := by
  unfold forEachStatement
  rw [child?_bare, hasToken_bare p (by decide)]
  cases p.child? "operator" <;> simp

@[simp] theorem whileStatement_bare : p.bare.whileStatement = p.whileStatement := by
  simp [whileStatement]

@[simp] theorem doStatement_bare : p.bare.doStatement = p.doStatement := by
  simp [doStatement]

@[simp] theorem catchClause_bare : p.bare.catchClause = p.catchClause := by
  simp [catchClause]

@[simp] theorem tryStatement_bare : p.bare.tryStatement = p.tryStatement := by
  unfold tryStatement
  rw [child?_bare, child?_bare]
  cases p.child? "handler" <;> cases p.child? "finalizer" <;> simp

@[simp] theorem switchCase_bare : p.bare.switchCase = p.switchCase := by
  simp [switchCase]

@[simp] theorem switchStatement_bare : p.bare.switchStatement = p.switchStatement := by
  unfold switchStatement
  rw [child?_bare]
  cases p.child? "body" <;> simp [List.mapM_map, Function.comp_def]

@[simp] theorem labeledStatement_bare : p.bare.labeledStatement = p.labeledStatement := by
  simp [labeledStatement]

@[simp] theorem jumpStatement_bare (jump : Jump) :
    p.bare.jumpStatement jump = p.jumpStatement jump := by
  simp [jumpStatement]

@[simp] theorem ofFirst_bare (form : Option Node → Form) :
    p.bare.ofFirst form = p.ofFirst form := by
  simp [ofFirst]

/-! ## Declarations, functions and classes -/

@[simp] theorem variableDeclaration_bare : p.bare.variableDeclaration = p.variableDeclaration := by
  unfold variableDeclaration
  rw [child?_bare, named_bare, List.filter_map, nodesOf_map_bare]
  cases p.child? "kind" <;> simp [Function.comp_def]

@[simp] theorem variableDeclarator_bare : p.bare.variableDeclarator = p.variableDeclarator := by
  simp [variableDeclarator]

@[simp] theorem functionLike_bare (placement : Placement) :
    p.bare.functionLike placement = p.functionLike placement := by
  simp (disch := decide) [functionLike]

@[simp] theorem arrowFunction_bare : p.bare.arrowFunction = p.arrowFunction := by
  unfold arrowFunction
  rw [child?_bare, child?_bare, child?_bare, hasToken_bare p (by decide)]
  cases p.child? "parameter" <;> cases p.child? "body" <;> simp

@[simp] theorem methodFunction_bare : p.bare.methodFunction = p.methodFunction := by
  simp (disch := decide) [methodFunction, Function.comp_def]

@[simp] theorem propertyKey_map_bare (key : Option Reading) :
    propertyKey src (key.map Reading.bare) = propertyKey src key := by
  cases key <;> simp [propertyKey]

@[simp] theorem methodKind_bare (key : Option Node) : p.bare.methodKind key = p.methodKind key := by
  unfold methodKind
  rw [hasToken_bare p (by decide), hasToken_bare p (by decide)]

@[simp] theorem classMember_bare (r : Reading) : classMember src r.bare = classMember src r := by
  unfold classMember
  simp (disch := decide)

@[simp] theorem superClass_bare : p.bare.superClass = p.superClass := by
  simp [superClass, List.filter_map, List.foldlM_map, Function.comp_def]

@[simp] theorem classLike_bare (placement : Placement) :
    p.bare.classLike src placement = p.classLike src placement := by
  unfold classLike
  rw [child?_bare]
  cases p.child? "body" <;> simp [List.mapM_map, Function.comp_def]

/-! ## Literals and templates -/

@[simp] theorem stringLiteral_bare : p.bare.stringLiteral src = p.stringLiteral src := rfl

@[simp] theorem numberLiteral_bare : p.bare.numberLiteral src = p.numberLiteral src := rfl

@[simp] theorem wordLiteral_bare (value : Literal) :
    p.bare.wordLiteral value = p.wordLiteral value := rfl

@[simp] theorem regexLiteral_bare : p.bare.regexLiteral src = p.regexLiteral src := by
  simp [regexLiteral]

theorem templateFrom_map_bare (start stop : Nat) (rs : List Reading) :
    templateFrom src start stop (rs.map Reading.bare) = templateFrom src start stop rs := by
  induction rs generalizing start with
  | nil => rfl
  | cons r rs ih =>
    rw [List.map_cons, templateFrom, templateFrom, ih, r.span_bare, r.phrase_bare, named_bare]
    cases r.phrase.named <;> simp

@[simp] theorem template_bare : p.bare.template src = p.template src := by
  have hsubstitutions := Reading.filter_bareAll p.children
    (p := fun r => r.phrase.head.named && r.kind == "template_substitution")
    (fun r => by simp [bare])
    (fun r h => by rw [Reading.kind_of_isComment h (by decide), Bool.and_false])
  simp only [template]
  rw [show p.bare.children = Reading.bareAll p.children from rfl, hsubstitutions,
    templateFrom_map_bare]
  rfl

/-! ## Imports and exports -/

@[simp] theorem moduleName_map_bare (name : Option Reading) :
    moduleName src (name.map Reading.bare) = moduleName src name := by
  cases name <;> simp [moduleName]

@[simp] theorem lastNamed_bare_bind (next : Reading → Outcome α) :
    p.bare.lastNamed >>= next = p.lastNamed >>= fun r => next r.bare := by
  unfold lastNamed
  rw [named_bare, List.getLast?_map]
  cases p.named.getLast? <;> rfl

@[simp] theorem importSpecifier_bare : p.bare.importSpecifier src = p.importSpecifier src := by
  simp only [importSpecifier]
  rw [child?_bare, child?_bare, ← Option.map_or]
  cases (p.child? "alias").or (p.child? "name") <;> simp

@[simp] theorem importBindings_bare (r : Reading) :
    importBindings src r.bare = importBindings src r := by
  unfold importBindings
  simp [List.filter_map, List.mapM_map, Function.comp_def]

@[simp] theorem importDeclaration_bare :
    p.bare.importDeclaration src = p.importDeclaration src := by
  simp [importDeclaration, List.filter_map, List.flatMap_map, ← List.map_flatMap, List.mapM_map,
    Function.comp_def]

@[simp] theorem exportSpecifier_bare : p.bare.exportSpecifier src = p.exportSpecifier src := by
  simp [exportSpecifier, ← Option.map_or]

@[simp] theorem exportClause_bare (source : Option Node) :
    p.bare.exportClause src source = p.exportClause src source := by
  unfold exportClause
  rw [named_bare, List.find?_map]
  simp only [Function.comp_def, Reading.kind_bare]
  cases p.named.find? fun r => r.kind == "namespace_export" || r.kind == "export_clause" with
  | none => rfl
  | some clause => simp [moduleName, List.filter_map, List.mapM_map, Function.comp_def]

@[simp] theorem exportDeclaration_bare :
    p.bare.exportDeclaration src = p.exportDeclaration src := by
  unfold exportDeclaration
  rw [hasToken_bare p (by decide), child?_bare, child?_bare, ← Option.map_or]
  cases p.child? "declaration" <;> simp

/-! ## Expressions and patterns -/

@[simp] theorem memberExpression_bare (keyField : String) (computed : Bool) :
    p.bare.memberExpression keyField computed = p.memberExpression keyField computed := by
  simp (disch := decide) [memberExpression]

@[simp] theorem callExpression_bare : p.bare.callExpression = p.callExpression := by
  simp (disch := decide) [callExpression, Option.any_map]

@[simp] theorem newExpression_bare : p.bare.newExpression = p.newExpression := by
  simp [newExpression]

@[simp] theorem assignmentExpression_bare (plain : Bool) :
    p.bare.assignmentExpression src plain = p.assignmentExpression src plain := by
  simp [assignmentExpression]

@[simp] theorem binaryExpression_bare : p.bare.binaryExpression src = p.binaryExpression src := by
  simp [binaryExpression]

@[simp] theorem unaryExpression_bare : p.bare.unaryExpression src = p.unaryExpression src := by
  simp [unaryExpression]

@[simp] theorem conditionalExpression_bare :
    p.bare.conditionalExpression = p.conditionalExpression := by
  simp [conditionalExpression]

@[simp] theorem yieldExpression_bare : p.bare.yieldExpression = p.yieldExpression := by
  simp (disch := decide) [yieldExpression]

@[simp] theorem pairProperty_bare : p.bare.pairProperty src = p.pairProperty src := by
  simp [pairProperty]

@[simp] theorem shorthandProperty_bare :
    p.bare.shorthandProperty src = p.shorthandProperty src := rfl

@[simp] theorem methodProperty_bare : p.bare.methodProperty src = p.methodProperty src := by
  simp [methodProperty]

@[simp] theorem objectMember_bare (r : Reading) : objectMember src r.bare = objectMember src r := by
  unfold objectMember
  simp

@[simp] theorem objectExpression_bare : p.bare.objectExpression src = p.objectExpression src := by
  simp [objectExpression, List.mapM_map, Function.comp_def]

@[simp] theorem defaultProperty_bare : p.bare.defaultProperty src = p.defaultProperty src := by
  unfold defaultProperty
  rw [child?_bare]
  cases p.child? "left" <;> simp

@[simp] theorem patternMember_bare (r : Reading) :
    patternMember src r.bare = patternMember src r := by
  unfold patternMember
  simp

@[simp] theorem objectPattern_bare : p.bare.objectPattern src = p.objectPattern src := by
  simp [objectPattern, List.mapM_map, Function.comp_def]

@[simp] theorem assignmentPattern_bare : p.bare.assignmentPattern = p.assignmentPattern := by
  simp [assignmentPattern]

@[simp] theorem otherNode_bare : p.bare.otherNode src = p.otherNode src := by
  simp [otherNode, List.mapM_map, Function.comp_def]

@[simp] theorem privateName_bare : p.bare.privateName src = p.privateName src := rfl

end Phrase

mutual

theorem Reading.operands_bare : (r : Reading) → r.bare.operands = r.operands.map Reading.bare
  | .mk head children node => by
    rw [Reading.bare, Reading.operands, Reading.operands, Reading.operandsOf_bareAll children]
    split
    · rfl
    · rw [List.map_singleton, Reading.bare]

theorem Reading.operandsOf_bareAll :
    (rs : List Reading) → Reading.operandsOf (Reading.bareAll rs) = (Reading.operandsOf rs).map
      Reading.bare
  | [] => by rw [Reading.bareAll]; rfl
  | r :: rs => by
    have ih := Reading.operandsOf_bareAll rs
    rw [Reading.bareAll, Reading.operandsOf]
    cases h : r.isComment with
    | true =>
      rw [Reading.counts_of_isComment h]
      exact ih
    | false =>
      rw [if_neg (by simp), Reading.operandsOf, ih, r.counts_bare, r.operands_bare, List.map_append]
      split <;> rfl

end

namespace Phrase

@[simp] theorem sequenceExpression_bare (p : Phrase) :
    p.bare.sequenceExpression = p.sequenceExpression := by
  unfold sequenceExpression
  rw [show p.bare.children = Reading.bareAll p.children from rfl, Reading.operandsOf_bareAll,
    nodesOf_map_bare]
  rfl

/-! ## The rule for each kind -/

/-- Apart from increments, no rule sees comments. -/
theorem readNode_bare (p : Phrase) (src : Source) (h : p.kind ≠ "update_expression") :
    p.bare.readNode src = p.readNode src := by
  unfold readNode
  rw [kind_bare]
  -- The rule for increments is out of the question; each of the others has its own lemma.
  split <;> try contradiction
  all_goals simp

section

variable {p q : Phrase} {src : Source} (h : p.bare = q.bare)
include h

theorem kind_eq_of_bare : p.kind = q.kind := by
  rw [← kind_bare p, h, kind_bare]

/-- Two increments that differ in comments only are the same if they begin alike. -/
theorem updateExpression_congr
    (hfirst : p.children.head?.map Reading.kind = q.children.head?.map Reading.kind) :
    p.updateExpression src = q.updateExpression src := by
  have hbefore (p : Phrase) : (p.children.head?.any fun r => r.kind == "++" || r.kind == "--")
      = (p.children.head?.map Reading.kind).any fun kind => kind == "++" || kind == "--" := by
    rw [Option.any_map]
  have hbuild : p.build = q.build := by
    funext form
    rw [← build_bare p, h, build_bare]
  unfold updateExpression
  rw [hbefore p, hbefore q, hfirst, hbuild, ← fieldText_bare p, ← fieldNode_bare p, h,
    fieldText_bare, fieldNode_bare]

variable (hfirst : p.kind = "update_expression" →
  p.children.head?.map Reading.kind = q.children.head?.map Reading.kind)
include hfirst

theorem readNode_congr : p.readNode src = q.readNode src := by
  have hkind := kind_eq_of_bare h
  -- The first child may be a comment in both, so increments are not compared by way of their bare
  -- phrase.
  by_cases hupdate : p.kind = "update_expression"
  · have hp : p.readNode src = p.updateExpression src := by simp only [readNode, hupdate]
    have hq : q.readNode src = q.updateExpression src := by simp only [readNode, ← hkind, hupdate]
    rw [hp, hq]
    exact updateExpression_congr h (hfirst hupdate)
  · rw [← readNode_bare p src hupdate, h, readNode_bare q src (hkind ▸ hupdate)]

/-- Phrases that differ in comments only stand for the same. -/
theorem read_congr : p.read src = q.read src := by
  have hnode : p.firstNode = q.firstNode := by
    rw [← firstNode_bare p, h, firstNode_bare]
  unfold read
  rw [kind_eq_of_bare h, hnode, readNode_congr h hfirst]

end

end Phrase

end ApiTrace
