import ApiTrace.Proofs.Reading.Programs
import ApiTrace.Proofs.Scope.Wholeness

/-!
# What reading guarantees

Whatever is wrong with a concrete tree, some forms are always made in the same way: a declaration of
variables consists of declarators, an import or an export lists names, a class has members, and a
template has one text more than expressions at least. `Form.hasShape` says this of a form, and
`Node.Shaped names` of all nodes of a tree.

A `Reading.Invariant` is a property of nodes and of the spans that they stand in, with what it takes
for the rules to keep it. Every rule makes a node with the property of nodes with the property
(`Phrase.Keeps.read`), so all that is read has it (`Concrete.keeps_read`). Every program is shaped,
for one (`Node.ofConcrete_shaped`).
-/

namespace ApiTrace

/-! ## Shapes -/

/-- Whether a node is a name that modules exchange: an identifier or a text. -/
def Node.isModuleName (n : Node) : Bool :=
  match n.form with
  | .identifier _ | .literal (.string _) _ => true
  | _ => false

/-- Whether a node is a text between the expressions of a template. -/
def Node.isTemplateElement (n : Node) : Bool :=
  match n.form with
  | .templateElement _ => true
  | _ => false

/-- Whether a form is one that can come of reading, where `names` are the names of nodes without a
rule. -/
def Form.hasShape (names : Text → Bool) : Form → Bool
  | .variableDeclaration _ declarations => declarations.all fun n => Need.declarator.isMet n.form
  | .importDeclaration specifiers _ => specifiers.all fun n => Need.importSpecifier.isMet n.form
  | .importDefault binding | .importNamespace binding => Need.binding.isMet binding.form
  | .importSpecifier imported binding => imported.isModuleName && Need.binding.isMet binding.form
  | .exportNamed _ specifiers _ => specifiers.all fun n => Need.exportSpecifier.isMet n.form
  | .exportSpecifier binding exported => binding.isModuleName && exported.isModuleName
  | .classLike _ _ _ body => body.all fun n => Need.members.isMet n.form
  | .template quasis expressions =>
    expressions.length < quasis.length && quasis.all Node.isTemplateElement
  | .other name _ => names name
  | _ => true

variable {names : Text → Bool}

/-- A tree of forms that can come of reading. -/
inductive Node.Shaped (names : Text → Bool) : Node → Prop where
  | mk {span : Span} {f : Form} (shape : f.hasShape names = true)
      (parts : ∀ p ∈ f.parts, ∀ n ∈ p.nodes, n.Shaped names) : (Node.mk span f).Shaped names

theorem Node.Shaped.shape {n : Node} (h : n.Shaped names) : n.form.hasShape names = true := by
  cases h with
  | mk shape => exact shape

theorem Node.Shaped.parts {n : Node} (h : n.Shaped names) :
    ∀ p ∈ n.form.parts, ∀ c ∈ p.nodes, c.Shaped names := by
  cases h with
  | mk _ parts => exact parts

@[simp] theorem Part.nodes_attribute (name : String) (value : Attribute) :
    (Part.attribute name value).nodes = [] := rfl

@[simp] theorem Part.nodes_one (role : Role) (o : Option Node) :
    (Part.one role o).nodes = o.toList := rfl

@[simp] theorem Part.nodes_many (role : Role) (os : List (Option Node)) :
    (Part.many role os).nodes = os.filterMap id := rfl

@[simp] theorem Part.nodes_all (role : Role) (ns : List Node) : (Part.all role ns).nodes = ns := by
  simp [Part.all]

@[simp] theorem Part.nodes_flag (name : String) (b : Bool) : (Part.flag name b).nodes = [] := rfl

@[simp] theorem Part.nodes_text (name : String) (t : Text) : (Part.text name t).nodes = [] := rfl

/-! ### Places in shaped trees -/

/-- A child is a node of a part that has the role of its slot. -/
theorem Form.exists_part {f : Form} {slot : Slot} {n : Node} (h : (slot, n) ∈ f.children) :
    ∃ p ∈ f.parts, p.role? = some slot.role ∧ n ∈ p.nodes := by
  obtain ⟨p, hp, hn⟩ := List.mem_flatMap.1 h
  refine ⟨p, hp, Part.role?_of_mem_children (List.mem_map_of_mem (f := Prod.fst) hn), ?_⟩
  rw [← Part.children_map_snd]
  exact List.mem_map_of_mem (f := Prod.snd) hn

/-- A place below another one hangs in a node of the tree. -/
theorem Node.Shaped.of_mem_walk {n : Node} (h : n.Shaped names) {above : List Frame} {x : Site}
    (hx : x ∈ Site.walk ⟨n, above⟩) : x.node.Shaped names ∧ (x = ⟨n, above⟩ ∨ ∃ frame rest,
      x.above = frame :: rest ∧ frame.parent.Shaped names ∧
        (frame.slot, x.node) ∈ frame.parent.form.children) := by
  refine Site.walk_induction (P := fun x => x.node.Shaped names ∧ (x = ⟨n, above⟩ ∨ ∃ frame rest,
    x.above = frame :: rest ∧ frame.parent.Shaped names ∧
      (frame.slot, x.node) ∈ frame.parent.form.children))
    ⟨h, .inl rfl⟩ (fun p _ hp c hc => ?_) hx
  obtain ⟨⟨slot, m⟩, hmem, rfl⟩ := List.mem_map.1 hc
  obtain ⟨part, hpart, -, hnode⟩ := Form.exists_part hmem
  exact ⟨hp.1.parts part hpart m hnode, .inr ⟨⟨slot, p.node⟩, p.above, rfl, hp.1, hmem⟩⟩

/-! ## Invariants of reading -/

/-- The kinds of concrete nodes that have a rule of their own. -/
def Phrase.ruledKinds : List String :=
  ["program", "expression_statement", "empty_statement", "debugger_statement", "statement_block",
    "if_statement", "for_statement", "for_in_statement", "while_statement", "do_statement",
    "try_statement", "switch_statement", "return_statement", "throw_statement", "labeled_statement",
    "break_statement", "continue_statement", "lexical_declaration", "variable_declaration",
    "variable_declarator", "function_declaration", "generator_function_declaration",
    "function_expression", "function", "generator_function", "arrow_function", "class_declaration",
    "class", "import_statement", "export_statement", "identifier", "property_identifier",
    "shorthand_property_identifier", "shorthand_property_identifier_pattern",
    "statement_identifier", "undefined", "private_property_identifier", "this", "super", "string",
    "number", "true", "false", "null", "regex", "template_string", "member_expression",
    "subscript_expression", "call_expression", "new_expression", "assignment_expression",
    "augmented_assignment_expression", "binary_expression", "unary_expression", "update_expression",
    "ternary_expression", "sequence_expression", "await_expression", "yield_expression",
    "spread_element", "array", "object", "object_pattern", "array_pattern", "assignment_pattern",
      "rest_pattern"]

/-- The spans that a rule joins of two parts of a node, each with the parts that become parts of a
node there: the declaration in the head of a loop over members, and the function of a method. -/
def Concrete.Head.splices (head : Head) (parts : List Head) : List (Span × List Head) :=
  match head.kind with
  | "for_in_statement" =>
    match inField? parts "kind", inField? parts "left" with
    | some keyword, some left => [(keyword.span.between left.span, [left])]
    | _, _ => []
  | "method_definition" =>
    let params := inField? parts "parameters"
    let body := inField? parts "body"
    [(((params.map Head.span).getD head.span).between ((body.map Head.span).getD head.span),
      params.toList ++ body.toList)]
  | _ => []

/-- The span of a program. -/
def Source.span (src : Source) : Span := ⟨0, src.bytes.length, 1, 0⟩

namespace Reading

/-- A property of nodes and of the spans that they stand in. It is kept by all rules, since it goes
over to wider spans and from the parts of a form that can come of reading to its node. A program
covers the source and stands anywhere. -/
structure Invariant (src : Source) where
  /-- The names of nodes without a rule. -/
  names : Text → Bool
  /-- When a span is a part of another one. -/
  within : Span → Span → Prop
  /-- The property. -/
  holds : Span → Node → Prop
  widen : ∀ {s s' : Span} {n : Node}, within s s' → holds s n → holds s' n
  build : ∀ {s : Span} {f : Form}, f.hasShape names = true →
    (∀ part ∈ f.parts, ∀ n ∈ part.nodes, holds s n) → holds s (.mk s f)
  program : ∀ {s : Span} {body : List Node} {sourceType : Text},
    holds src.span (.mk src.span (.program body sourceType)) →
      holds s (.mk src.span (.program body sourceType))

namespace Invariant

variable {src : Source} {I : Invariant src} {s s' : Span} {n : Node} {ns : List Node}

/-- That some nodes have the property. -/
def All (I : Invariant src) (s : Span) (ns : List Node) : Prop := ∀ n ∈ ns, I.holds s n

@[simp] theorem All.nil : I.All s [] := List.forall_mem_nil _

@[simp] theorem all_singleton : I.All s [n] ↔ I.holds s n := List.forall_mem_singleton

theorem All.widen (h : I.All s ns) (hs : I.within s s') : I.All s' ns :=
  fun n hn => I.widen hs (h n hn)

/-- The node of a form of which all parts have the property. -/
theorem of_parts (I : Invariant src) {f : Form} (hshape : f.hasShape I.names = true)
    (hparts : ∀ part ∈ f.parts, I.All s part.nodes) : I.holds s (.mk s f) :=
  I.build hshape hparts

/-- What a concrete node with some parts must be like for its rule to keep the property. -/
structure Fits (I : Invariant src) (head : Concrete.Head) (parts : List Concrete.Head) : Prop where
  unruled : head.kind ∉ Phrase.ruledKinds → I.names (Text.camelCase head.kind) = true
  source : I.within head.span src.span
  inside : ∀ h ∈ parts, I.within h.span head.span
  spliced : ∀ splice ∈ head.splices parts, I.within splice.1 head.span ∧
    ∀ h ∈ splice.2, I.within h.span splice.1

end Invariant

/-- A reading of a tree whose nodes have a property. -/
inductive Keeps {src : Source} (I : Invariant src) : Reading → Prop where
  | mk {head : Concrete.Head} {children : List Reading} {node : Outcome (Option Node)}
      (read : node = Phrase.read src ⟨head, children⟩)
      (fits : I.Fits head (children.map (·.phrase.head)))
      (keeps : ∀ r ∈ children, Keeps I r)
      (nodes : ∀ n, node = .ok (some n) → I.holds head.span n) : Keeps I (.mk head children node)

end Reading

/-- A phrase whose children keep a property. -/
structure Phrase.Keeps {src : Source} (I : Reading.Invariant src) (p : Phrase) : Prop where
  fits : I.Fits p.head (p.children.map (·.phrase.head))
  children : ∀ r ∈ p.children, r.Keeps I

variable {src : Source} {I : Reading.Invariant src}

namespace Reading.Keeps

variable {r : Reading}

theorem phrase (h : r.Keeps I) : r.phrase.Keeps I := by
  cases h with
  | mk _ fits keeps _ => exact ⟨fits, keeps⟩

theorem node_eq (h : r.Keeps I) : r.node = r.phrase.read src := by
  cases h with
  | mk read _ _ _ => exact read

theorem holds (h : r.Keeps I) {n : Node} (hn : r.node = .ok (some n)) : I.holds r.span n := by
  cases h with
  | mk _ _ _ nodes => exact nodes n hn

theorem all (h : r.Keeps I) {o : Option Node} (ho : r.node = .ok o) : I.All r.span o.toList := by
  cases o with
  | none => exact .nil
  | some n => exact Invariant.all_singleton.2 (h.holds ho)

end Reading.Keeps

namespace Phrase

/-- A node of some readings is the node of one of them. -/
theorem exists_of_mem_nodesOf {rs : List Reading} {ns : List Node}
    (h : nodesOf rs = .ok ns) {n : Node} (hn : n ∈ ns) : ∃ r ∈ rs, r.node = .ok (some n) := by
  obtain ⟨os, hos, rfl⟩ := nodesOf_eq_ok h
  obtain ⟨o, ho, rfl⟩ := List.mem_filterMap.1 hn
  exact exists_of_mem_mapM hos ho

/-- The node of a form of which all parts have the property. -/
theorem kept_build {p : Phrase} {f : Form} (hshape : f.hasShape I.names = true)
    (hparts : ∀ part ∈ f.parts, I.All p.span part.nodes) : I.holds p.span (p.build f) :=
  I.of_parts hshape hparts

/-- The node of a form that is a list of nodes. -/
theorem kept_list {p : Phrase} {f : Form} {role : Role} {ns : List Node}
    (hshape : f.hasShape I.names = true) (hparts : f.parts = [.all role ns])
    (hns : I.All p.span ns) : I.holds p.span (p.build f) :=
  kept_build hshape (by simp [hparts, hns])

namespace Keeps

open Reading.Invariant (all_singleton)

variable {p : Phrase} {r : Reading} {field : String} {n : Node} {o : Option Node} {ns : List Node}

theorem named (h : p.Keeps I) (hr : r ∈ p.named) : r.Keeps I :=
  h.children r (List.mem_filter.1 hr).1

theorem child (h : p.Keeps I) (hr : p.child? field = some r) : r.Keeps I :=
  h.children r (List.mem_of_find?_eq_some hr)

theorem within (h : p.Keeps I) (hr : r ∈ p.children) : I.within r.span p.span :=
  h.fits.inside _ (List.mem_map_of_mem hr)

theorem withinNamed (h : p.Keeps I) (hr : r ∈ p.named) : I.within r.span p.span :=
  h.within (List.mem_filter.1 hr).1

theorem withinField (h : p.Keeps I) (hr : p.child? field = some r) : I.within r.span p.span :=
  h.within (List.mem_of_find?_eq_some hr)

/-- What a child stands for, in a span that the child is a part of. -/
theorem nodeOf {r : Option Reading} {s : Span} (h : ∀ r' ∈ r, r'.Keeps I ∧ I.within r'.span s)
    (ho : Phrase.nodeOf r = .ok o) : I.All s o.toList := by
  cases r with
  | none =>
    cases ho
    exact .nil
  | some r => exact ((h r rfl).1.all ho).widen (h r rfl).2

theorem fieldNode (h : p.Keeps I) (ho : p.fieldNode field = .ok o) : I.All p.span o.toList :=
  nodeOf (fun _ hr => ⟨h.child hr, h.withinField hr⟩) ho

theorem firstNode (h : p.Keeps I) (ho : p.firstNode = .ok o) : I.All p.span o.toList :=
  nodeOf (fun _ hr => ⟨h.named (List.mem_of_head? hr), h.withinNamed (List.mem_of_head? hr)⟩) ho

theorem nodesOf (h : p.Keeps I) {rs : List Reading} (hrs : rs ⊆ p.children)
    (hns : Phrase.nodesOf rs = .ok ns) :
    I.All p.span ns := by
  intro n hn
  obtain ⟨r, hr, hnode⟩ := exists_of_mem_nodesOf hns hn
  exact I.widen (h.within (hrs hr)) ((h.children r (hrs hr)).holds hnode)

theorem nodes (h : p.Keeps I) (hns : p.nodes = .ok ns) : I.All p.span ns :=
  h.nodesOf (List.filter_subset_self _) hns

theorem nodesWithin {r : Option Reading} {s : Span} (h : ∀ r' ∈ r, r'.Keeps I ∧ I.within r'.span s)
    (hns : Phrase.nodesIn r = .ok ns) : I.All s ns := by
  cases r with
  | none =>
    cases hns
    exact .nil
  | some r => exact ((h r rfl).1.phrase.nodes hns).widen (h r rfl).2

theorem nodesIn (h : p.Keeps I) (hns : Phrase.nodesIn (p.child? field) = .ok ns) :
    I.All p.span ns :=
  nodesWithin (fun _ hr => ⟨h.child hr, h.withinField hr⟩) hns

/-- What is read of the children that count, each by a rule that keeps the property. -/
theorem members (h : p.Keeps I) {f : Reading → Outcome (Option Node)}
    (hf : ∀ {r n}, r.Keeps I → f r = .ok (some n) → I.holds r.span n) {members : List (Option Node)}
    (hmembers : p.named.mapM f = .ok members) : I.All p.span (members.filterMap id) := by
  intro n hn
  obtain ⟨o, ho, rfl⟩ := List.mem_filterMap.1 hn
  obtain ⟨r, hr, hnode⟩ := exists_of_mem_mapM hmembers ho
  exact I.widen (h.withinNamed hr) (hf (h.named hr) hnode)

theorem inClause (h : p.Keeps I) {f : Phrase → Outcome (Option Node)}
    (hf : ∀ q : Phrase, q.Keeps I → f q = .ok o → I.All q.span o.toList)
    (ho : p.inClause field f = .ok o) : I.All p.span o.toList := by
  unfold Phrase.inClause at ho
  split at ho
  · rename_i clause hclause
    exact (hf _ (h.child hclause).phrase ho).widen (h.withinField hclause)
  · cases ho
    exact .nil

/-! ## Statements -/

theorem ofFirst (h : p.Keeps I) {form : Option Node → Form} {role : Role}
    (hshape : ∀ o, (form o).hasShape I.names = true) (hparts : ∀ o, (form o).parts = [.one role o])
    (hn : p.ofFirst form = .ok n) : I.holds p.span n := by
  simp only [Phrase.ofFirst, bind_eq_ok, pure_eq_ok] at hn
  obtain ⟨o, ho, rfl⟩ := hn
  exact kept_build (hshape o) (by simp [hparts, h.firstNode ho])

theorem program (h : p.Keeps I) {sourceType : Option Text} (hn : p.program src sourceType = .ok n) :
    I.holds p.span n := by
  simp only [Phrase.program, bind_eq_ok, pure_eq_ok] at hn
  obtain ⟨body, hbody, rfl⟩ := hn
  have hnodes := (h.nodes hbody).widen h.fits.source
  exact I.program (I.of_parts rfl (by simp [Form.parts, hnodes]))

theorem ifStatement (h : p.Keeps I) (hn : p.ifStatement = .ok n) : I.holds p.span n := by
  simp only [ifStatement_eq, bind_eq_ok, pure_eq_ok] at hn
  obtain ⟨alternate, halternate, test, htest, consequent, hconsequent, rfl⟩ := hn
  have hclause := h.inClause (fun q hq => hq.firstNode) halternate
  exact kept_build rfl (by simp [Form.parts, h.fieldNode htest, h.fieldNode hconsequent, hclause])

theorem whileStatement (h : p.Keeps I) (hn : p.whileStatement = .ok n) : I.holds p.span n := by
  simp only [Phrase.whileStatement, bind_eq_ok, pure_eq_ok] at hn
  obtain ⟨test, htest, body, hbody, rfl⟩ := hn
  exact kept_build rfl (by simp [Form.parts, h.fieldNode htest, h.fieldNode hbody])

theorem doStatement (h : p.Keeps I) (hn : p.doStatement = .ok n) : I.holds p.span n := by
  simp only [Phrase.doStatement, bind_eq_ok, pure_eq_ok] at hn
  obtain ⟨body, hbody, test, htest, rfl⟩ := hn
  exact kept_build rfl (by simp [Form.parts, h.fieldNode htest, h.fieldNode hbody])

theorem loopPart (h : p.Keeps I) (ho : loopPart (p.child? field) = .ok o) :
    I.All p.span o.toList := by
  rcases loopPart_eq_ok ho with rfl | ⟨r, hr, ho | ho⟩
  · exact .nil
  · exact ((h.child hr).phrase.firstNode ho).widen (h.withinField hr)
  · exact ((h.child hr).all ho).widen (h.withinField hr)

theorem forStatement (h : p.Keeps I) (hn : p.forStatement = .ok n) : I.holds p.span n := by
  simp only [Phrase.forStatement, bind_eq_ok, pure_eq_ok] at hn
  obtain ⟨init, hinit, test, htest, update, hupdate, body, hbody, rfl⟩ := hn
  exact kept_build rfl (by
    simp [Form.parts, h.loopPart hinit, h.loopPart htest, h.loopPart hupdate, h.fieldNode hbody])

theorem loopVariable (h : p.Keeps I) (hkind : p.kind = "for_in_statement")
    (ho : p.loopVariable = .ok o) :
    I.All p.span o.toList := by
  rcases loopVariable_eq_ok ho with ho | ⟨keyword, left, target, hkeyword, hleft, htarget, rfl⟩
  · exact h.fieldNode ho
  · have hsplices : p.head.splices (p.children.map (·.phrase.head)) =
        [(keyword.span.between left.span, [left.phrase.head])] := by
      have hhead : p.head.kind = "for_in_statement" := hkind
      simp [Concrete.Head.splices, hhead, inField?_map, hkeyword, hleft, Reading.span]
    obtain ⟨hwithin, hinside⟩ := h.fits.spliced _ (hsplices ▸ List.mem_singleton_self _)
    have hdeclarator : I.holds left.span (.mk left.span (.variableDeclarator target none)) :=
      I.of_parts rfl (by simp [Form.parts, (h.child hleft).all htarget])
    have hdeclaration := I.widen (hinside _ (.head _)) hdeclarator
    rw [Option.toList_some, all_singleton]
    exact I.widen hwithin (I.of_parts rfl (by simp [Form.parts, hdeclaration]))

theorem forEachStatement (h : p.Keeps I) (hkind : p.kind = "for_in_statement")
    (hn : p.forEachStatement = .ok n) :
    I.holds p.span n := by
  simp only [Phrase.forEachStatement, bind_eq_ok, pure_eq_ok] at hn
  obtain ⟨left, hleft, right, hright, body, hbody, rfl⟩ := hn
  exact kept_build rfl (by
    simp [Form.parts, h.loopVariable hkind hleft, h.fieldNode hright, h.fieldNode hbody])

theorem catchClause (h : p.Keeps I) (hn : p.catchClause = .ok n) : I.holds p.span n := by
  simp only [Phrase.catchClause, bind_eq_ok, pure_eq_ok] at hn
  obtain ⟨param, hparam, body, hbody, rfl⟩ := hn
  exact kept_build rfl (by simp [Form.parts, h.fieldNode hparam, h.fieldNode hbody])

theorem tryStatement (h : p.Keeps I) (hn : p.tryStatement = .ok n) : I.holds p.span n := by
  simp only [tryStatement_eq, bind_eq_ok, pure_eq_ok] at hn
  obtain ⟨handler, hhandler, finalizer, hfinalizer, block, hblock, rfl⟩ := hn
  have hcatch : I.All p.span handler.toList := by
    refine h.inClause (fun q hq ho => ?_) hhandler
    simp only [bind_eq_ok, pure_eq_ok] at ho
    obtain ⟨clause, hclause, rfl⟩ := ho
    exact all_singleton.2 (hq.catchClause hclause)
  have hfinally := h.inClause (fun q hq => hq.fieldNode) hfinalizer
  exact kept_build rfl (by simp [Form.parts, h.fieldNode hblock, hcatch, hfinally])

theorem switchCase (h : p.Keeps I) (hn : p.switchCase = .ok n) : I.holds p.span n := by
  simp only [Phrase.switchCase, bind_eq_ok, pure_eq_ok] at hn
  obtain ⟨test, htest, consequent, hconsequent, rfl⟩ := hn
  have hbody := h.nodesOf (List.filter_subset_self _) hconsequent
  exact kept_build rfl (by simp [Form.parts, h.fieldNode htest, hbody])

theorem switchStatement (h : p.Keeps I) (hn : p.switchStatement = .ok n) : I.holds p.span n := by
  obtain ⟨discriminant, cases, hdiscriminant, hcases, rfl⟩ := switchStatement_eq_ok hn
  have hall : I.All p.span cases := by
    rcases hcases with rfl | ⟨body, hbody, hcases⟩
    · exact .nil
    · intro n hn
      obtain ⟨r, hr, hcase⟩ := exists_of_mem_mapM hcases hn
      have hbodies := (h.child hbody).phrase
      have hkept := I.widen (hbodies.withinNamed hr) ((hbodies.named hr).phrase.switchCase hcase)
      exact I.widen (h.withinField hbody) hkept
  exact kept_build rfl (by simp [Form.parts, h.fieldNode hdiscriminant, hall])

theorem labeledStatement (h : p.Keeps I) (hn : p.labeledStatement = .ok n) : I.holds p.span n := by
  simp only [Phrase.labeledStatement, bind_eq_ok, pure_eq_ok] at hn
  obtain ⟨label, hlabel, body, hbody, rfl⟩ := hn
  exact kept_build rfl (by simp [Form.parts, h.fieldNode hlabel, h.fieldNode hbody])

theorem jumpStatement (h : p.Keeps I) {jump : Jump} (hn : p.jumpStatement jump = .ok n) :
    I.holds p.span n := by
  simp only [Phrase.jumpStatement, bind_eq_ok, pure_eq_ok] at hn
  obtain ⟨label, hlabel, rfl⟩ := hn
  exact kept_build rfl (by simp [Form.parts, h.fieldNode hlabel])

/-! ## Declarations, functions and classes -/

theorem variableDeclarator (h : p.Keeps I) (hn : p.variableDeclarator = .ok n) :
    I.holds p.span n := by
  simp only [Phrase.variableDeclarator, bind_eq_ok, pure_eq_ok] at hn
  obtain ⟨target, htarget, init, hinit, rfl⟩ := hn
  exact kept_build rfl (by simp [Form.parts, h.fieldNode htarget, h.fieldNode hinit])

theorem read_declarator (hkind : p.kind = "variable_declarator") :
    p.read src = do return some (← p.variableDeclarator) := by
  simp [Phrase.read, Phrase.readNode, hkind, Reading.skippedKinds]

/-- Only declarators are read as declarations. -/
theorem variableDeclaration (h : p.Keeps I) (hn : p.variableDeclaration = .ok n) :
    I.holds p.span n := by
  simp only [Phrase.variableDeclaration, bind_eq_ok, pure_eq_ok] at hn
  obtain ⟨declarations, hdeclarations, rfl⟩ := hn
  have hfiltered : p.named.filter (·.kind == "variable_declarator") ⊆ p.children :=
    List.Subset.trans (List.filter_subset_self _) (List.filter_subset_self _)
  refine kept_build (List.all_eq_true.2 fun n hn => ?_)
    (by simp [Form.parts, h.nodesOf hfiltered hdeclarations])
  obtain ⟨r, hr, hnode⟩ := exists_of_mem_nodesOf hdeclarations hn
  have hkind : r.phrase.kind = "variable_declarator" := beq_iff_eq.1 (List.mem_filter.1 hr).2
  rw [(h.children r (hfiltered hr)).node_eq, read_declarator hkind] at hnode
  simp only [Phrase.variableDeclarator, bind_eq_ok, pure_eq_ok, Option.some.injEq] at hnode
  obtain ⟨_, ⟨target, _, init, _, rfl⟩, rfl⟩ := hnode
  rfl

theorem functionLike (h : p.Keeps I) {placement : Placement}
    (hn : p.functionLike placement = .ok n) :
    I.holds p.span n := by
  simp only [Phrase.functionLike, bind_eq_ok, pure_eq_ok] at hn
  obtain ⟨name, hname, params, hparams, body, hbody, rfl⟩ := hn
  exact kept_build rfl (by simp [Form.parts, h.fieldNode hname, h.nodesIn hparams,
    h.fieldNode hbody])

theorem arrowFunction (h : p.Keeps I) (hn : p.arrowFunction = .ok n) : I.holds p.span n := by
  obtain ⟨params, body, isExpression, isAsync, hbody, hparams, rfl⟩ := arrowFunction_eq_ok hn
  have hall : I.All p.span (params.filterMap id) := by
    rcases hparams with ⟨param, hparam, heq⟩ | hparams
    · exact heq ▸ h.fieldNode hparam
    · exact h.nodesIn hparams
  exact kept_build rfl (by simpa [Form.parts, h.fieldNode hbody] using hall)

theorem methodFunction (h : p.Keeps I) (hkind : p.kind = "method_definition")
    (hn : p.methodFunction = .ok n) :
    I.holds p.span n := by
  simp only [Phrase.methodFunction, bind_eq_ok, pure_eq_ok] at hn
  obtain ⟨params, hparams, body, hbody, rfl⟩ := hn
  have hhead : p.head.kind = "method_definition" := hkind
  have hsplices := h.fits.spliced
  simp only [Concrete.Head.splices, hhead, inField?_map, List.forall_mem_singleton,
    Option.map_map] at hsplices
  obtain ⟨hwithin, hinside⟩ := hsplices
  have hkept := nodesWithin
    (fun r hr => ⟨h.child hr, hinside r.phrase.head (by simp [Option.mem_def.1 hr])⟩) hparams
  have hkept' :=
    nodeOf (fun r hr => ⟨h.child hr, hinside r.phrase.head (by simp [Option.mem_def.1 hr])⟩) hbody
  exact I.widen hwithin (I.of_parts rfl (by simp [Form.parts, hkept, hkept']))

theorem identifier (hn : p.identifier src = .ok n) : I.holds p.span n := by
  simp only [Phrase.identifier, bind_eq_ok, pure_eq_ok] at hn
  obtain ⟨name, _, rfl⟩ := hn
  exact kept_build rfl (by simp [Form.parts])

theorem propertyKey (h : p.Keeps I) {key : Option Node} {computed : Bool}
    (hkey : Phrase.propertyKey src (p.child? field) = .ok (key, computed)) :
    I.All p.span key.toList := by
  rcases propertyKey_eq_ok hkey with ⟨rfl, -⟩ | ⟨r, hr, ⟨-, -, hkey⟩ | ⟨-, ⟨id, hid, rfl⟩ | hkey⟩⟩
  · exact .nil
  · exact ((h.child hr).phrase.firstNode hkey).widen (h.withinField hr)
  · exact all_singleton.2 (I.widen (h.withinField hr) (identifier hid))
  · exact ((h.child hr).all hkey).widen (h.withinField hr)

theorem classMember (h : r.Keeps I) (hn : Phrase.classMember src r = .ok (some n)) :
    I.holds r.span n := by
  rcases classMember_eq_ok hn with
    ⟨key, computed, value, kind, isStatic, hkind, hkey, hvalue, rfl⟩ |
    ⟨key, computed, value, isStatic, -, hkey, hvalue, rfl⟩ | ⟨body, hbody, rfl⟩ | hn
  · exact kept_build rfl (by
      simp [Form.parts, h.phrase.propertyKey hkey, h.phrase.methodFunction hkind hvalue])
  · exact kept_build rfl
      (by simp [Form.parts, h.phrase.propertyKey hkey, h.phrase.fieldNode hvalue])
  · exact kept_build rfl (by simp [Form.parts, h.phrase.fieldNode hbody])
  · exact h.holds hn

theorem superClass (h : p.Keeps I) (ho : p.superClass = .ok o) : I.All p.span o.toList := by
  rcases superClass_eq_ok ho with ⟨clause, hclause, hnode⟩ | rfl
  · have hmem := heritage?_mem hclause
    exact ((h.children clause hmem).phrase.firstNode hnode).widen (h.within hmem)
  · exact .nil

theorem classLike (h : p.Keeps I) {placement : Placement} (hn : p.classLike src placement = .ok n) :
    I.holds p.span n := by
  obtain ⟨name, superClass, body, hname, hsuper, rfl | ⟨r, members, hr, hmembers, rfl⟩, rfl⟩ :=
    classLike_eq_ok hn
  · exact kept_build rfl (by simp [Form.parts, h.fieldNode hname, h.superClass hsuper])
  · have hclass : I.holds p.span (r.phrase.build (.classBody (members.filterMap id))) :=
      I.widen (h.withinField hr)
        (kept_list rfl rfl ((h.child hr).phrase.members classMember hmembers))
    refine kept_build rfl ?_
    simp only [Form.parts, List.forall_mem_cons, Part.nodes_one, Option.toList_some, all_singleton]
    exact ⟨h.fieldNode hname, h.superClass hsuper, hclass, List.forall_mem_nil _⟩

/-! ## Expressions and patterns -/

theorem memberExpression (h : p.Keeps I) {keyField : String} {computed : Bool}
    (hn : p.memberExpression keyField computed = .ok n) : I.holds p.span n := by
  simp only [Phrase.memberExpression, bind_eq_ok, pure_eq_ok] at hn
  obtain ⟨object, hobject, property, hproperty, rfl⟩ := hn
  exact kept_build rfl (by simp [Form.parts, h.fieldNode hobject, h.fieldNode hproperty])

theorem callExpression (h : p.Keeps I) (hn : p.callExpression = .ok n) : I.holds p.span n := by
  rcases callExpression_eq_ok hn with ⟨arguments, harguments, rfl⟩ |
    ⟨tag, quasi, htag, hquasi, rfl⟩ |
    ⟨callee, arguments, optional, hcallee, harguments, rfl⟩
  · have hfirst : I.All p.span arguments.head?.toList := fun n hn =>
      h.nodesIn harguments n (List.mem_of_head? (Option.mem_toList.1 hn))
    exact kept_build rfl (by simp [Form.parts, hfirst])
  · exact kept_build rfl (by simp [Form.parts, h.fieldNode htag, h.fieldNode hquasi])
  · exact kept_build rfl (by simp [Form.parts, h.fieldNode hcallee, h.nodesIn harguments])

theorem newExpression (h : p.Keeps I) (hn : p.newExpression = .ok n) : I.holds p.span n := by
  simp only [Phrase.newExpression, bind_eq_ok, pure_eq_ok] at hn
  obtain ⟨callee, hcallee, arguments, harguments, rfl⟩ := hn
  exact kept_build rfl (by simp [Form.parts, h.fieldNode hcallee, h.nodesIn harguments])

theorem assignmentExpression (h : p.Keeps I) {plain : Bool}
    (hn : p.assignmentExpression src plain = .ok n) : I.holds p.span n := by
  obtain ⟨operator, left, right, hleft, hright, rfl⟩ := assignmentExpression_eq_ok hn
  exact kept_build rfl (by simp [Form.parts, h.fieldNode hleft, h.fieldNode hright])

theorem binaryExpression (h : p.Keeps I) (hn : p.binaryExpression src = .ok n) :
    I.holds p.span n := by
  simp only [Phrase.binaryExpression, bind_eq_ok, pure_eq_ok] at hn
  obtain ⟨operator, _, left, hleft, right, hright, rfl⟩ := hn
  exact kept_build rfl (by simp [Form.parts, h.fieldNode hleft, h.fieldNode hright])

theorem unaryExpression (h : p.Keeps I) (hn : p.unaryExpression src = .ok n) :
    I.holds p.span n := by
  simp only [Phrase.unaryExpression, bind_eq_ok, pure_eq_ok] at hn
  obtain ⟨operator, _, argument, hargument, rfl⟩ := hn
  exact kept_build rfl (by simp [Form.parts, h.fieldNode hargument])

theorem updateExpression (h : p.Keeps I) (hn : p.updateExpression src = .ok n) :
    I.holds p.span n := by
  simp only [Phrase.updateExpression, bind_eq_ok, pure_eq_ok] at hn
  obtain ⟨operator, _, argument, hargument, rfl⟩ := hn
  exact kept_build rfl (by simp [Form.parts, h.fieldNode hargument])

theorem conditionalExpression (h : p.Keeps I) (hn : p.conditionalExpression = .ok n) :
    I.holds p.span n := by
  simp only [Phrase.conditionalExpression, bind_eq_ok, pure_eq_ok] at hn
  obtain ⟨test, htest, consequent, hconsequent, alternate, halternate, rfl⟩ := hn
  exact kept_build rfl (by
    simp [Form.parts, h.fieldNode htest, h.fieldNode hconsequent, h.fieldNode halternate])

theorem yieldExpression (h : p.Keeps I) (hn : p.yieldExpression = .ok n) : I.holds p.span n := by
  simp only [Phrase.yieldExpression, bind_eq_ok, pure_eq_ok] at hn
  obtain ⟨argument, hargument, rfl⟩ := hn
  exact kept_build rfl (by simp [Form.parts, h.firstNode hargument])

theorem pairProperty (h : p.Keeps I) (hn : p.pairProperty src = .ok n) : I.holds p.span n := by
  simp only [Phrase.pairProperty, bind_eq_ok, pure_eq_ok] at hn
  obtain ⟨⟨key, computed⟩, hkey, value, hvalue, rfl⟩ := hn
  exact kept_build rfl (by simp [Form.parts, h.propertyKey hkey, h.fieldNode hvalue])

theorem shorthandProperty (hn : p.shorthandProperty src = .ok n) : I.holds p.span n := by
  simp only [Phrase.shorthandProperty, bind_eq_ok, pure_eq_ok] at hn
  obtain ⟨name, hname, rfl⟩ := hn
  exact kept_build rfl (by simp [Form.parts, identifier hname])

theorem methodProperty (h : p.Keeps I) (hkind : p.kind = "method_definition")
    (hn : p.methodProperty src = .ok n) :
    I.holds p.span n := by
  simp only [Phrase.methodProperty, bind_eq_ok, pure_eq_ok] at hn
  obtain ⟨⟨key, computed⟩, hkey, kind, _, value, hvalue, rfl⟩ := hn
  exact kept_build rfl (by simp [Form.parts, h.propertyKey hkey, h.methodFunction hkind hvalue])

theorem objectMember (h : r.Keeps I) (hn : Phrase.objectMember src r = .ok (some n)) :
    I.holds r.span n := by
  rcases objectMember_eq_ok hn with ⟨-, hn⟩ | ⟨-, hn⟩ | ⟨hkind, hn⟩ | hn
  · exact h.phrase.pairProperty hn
  · exact shorthandProperty hn
  · exact h.phrase.methodProperty hkind hn
  · exact h.holds hn

theorem defaultProperty (h : p.Keeps I) (hn : p.defaultProperty src = .ok n) :
    I.holds p.span n := by
  obtain ⟨left, right, key, hleft, hright, hkey, rfl⟩ := defaultProperty_eq_ok hn
  have hvalue : I.holds p.span (p.build (.assignmentPattern left right)) :=
    kept_build rfl (by simp [Form.parts, h.fieldNode hleft, h.fieldNode hright])
  have hkey : I.All p.span key.toList := by
    rcases hkey with rfl | ⟨r, id, hr, hid, rfl⟩
    · exact .nil
    · exact all_singleton.2 (I.widen (h.withinField hr) (identifier hid))
  exact kept_build rfl (by simp [Form.parts, hkey, hvalue])

theorem patternMember (h : r.Keeps I) (hn : Phrase.patternMember src r = .ok (some n)) :
    I.holds r.span n := by
  rcases patternMember_eq_ok hn with ⟨-, hn⟩ | ⟨-, hn⟩ | ⟨-, hn⟩ | hn
  · exact h.phrase.pairProperty hn
  · exact shorthandProperty hn
  · exact h.phrase.defaultProperty hn
  · exact h.holds hn

theorem objectExpression (h : p.Keeps I) (hn : p.objectExpression src = .ok n) :
    I.holds p.span n := by
  simp only [Phrase.objectExpression, bind_eq_ok, pure_eq_ok] at hn
  obtain ⟨members, hmembers, rfl⟩ := hn
  exact kept_list rfl rfl (h.members objectMember hmembers)

theorem objectPattern (h : p.Keeps I) (hn : p.objectPattern src = .ok n) : I.holds p.span n := by
  simp only [Phrase.objectPattern, bind_eq_ok, pure_eq_ok] at hn
  obtain ⟨members, hmembers, rfl⟩ := hn
  exact kept_list rfl rfl (h.members patternMember hmembers)

theorem assignmentPattern (h : p.Keeps I) (hn : p.assignmentPattern = .ok n) :
    I.holds p.span n := by
  simp only [Phrase.assignmentPattern, bind_eq_ok, pure_eq_ok] at hn
  obtain ⟨left, hleft, right, hright, rfl⟩ := hn
  exact kept_build rfl (by simp [Form.parts, h.fieldNode hleft, h.fieldNode hright])

end Keeps

end Phrase

/-! ### Sequences -/

mutual

theorem Reading.Keeps.operands : ∀ {r : Reading}, r.Keeps I → ∀ r' ∈ r.operands, ∀ n,
    r'.node = .ok (some n) → I.holds r.span n
  | .mk head children node, h => by
    rw [Reading.operands]
    split
    · exact Reading.Keeps.operandsOf fun r hr =>
        ⟨h.phrase.children r hr, h.phrase.within hr⟩
    · exact List.forall_mem_singleton.2 fun n hn => h.holds hn

theorem Reading.Keeps.operandsOf {s : Span} :
    ∀ {rs : List Reading}, (∀ r ∈ rs, r.Keeps I ∧ I.within r.span s) →
    ∀ r' ∈ Reading.operandsOf rs, ∀ n, r'.node = .ok (some n) → I.holds s n
  | [], _ => List.forall_mem_nil _
  | r :: rs, h => by
    obtain ⟨⟨hr, hwithin⟩, hrs⟩ := List.forall_mem_cons.1 h
    rw [Reading.operandsOf]
    refine List.forall_mem_append.2 ⟨?_, Reading.Keeps.operandsOf hrs⟩
    split
    · exact fun r' hr' n hn => I.widen hwithin (hr.operands r' hr' n hn)
    · exact List.forall_mem_nil _

end

namespace Phrase.Keeps

open Reading.Invariant (all_singleton)

variable {p : Phrase} {r : Reading} {n : Node}

theorem sequenceExpression (h : p.Keeps I) (hn : p.sequenceExpression = .ok n) :
    I.holds p.span n := by
  simp only [Phrase.sequenceExpression, bind_eq_ok, pure_eq_ok] at hn
  obtain ⟨operands, hoperands, rfl⟩ := hn
  have hall : I.All p.span operands := by
    intro n hn
    obtain ⟨r, hr, hnode⟩ := exists_of_mem_nodesOf hoperands hn
    exact Reading.Keeps.operandsOf (fun r hr => ⟨h.children r hr, h.within hr⟩) r hr n hnode
  exact kept_build rfl (by simp [Form.parts, hall])

/-! ## Literals and templates -/

theorem literal (value : Literal) (raw : Text) : I.holds p.span (p.build (.literal value raw)) := by
  refine kept_build rfl ?_
  cases value <;> simp [Form.parts, Literal.parts]

theorem stringLiteral (hn : p.stringLiteral src = .ok n) : I.holds p.span n := by
  simp only [Phrase.stringLiteral, bind_eq_ok, pure_eq_ok] at hn
  obtain ⟨raw, _, value, _, rfl⟩ := hn
  exact literal _ _

theorem numberLiteral (hn : p.numberLiteral src = .ok n) : I.holds p.span n := by
  simp only [Phrase.numberLiteral, bind_eq_ok, pure_eq_ok] at hn
  obtain ⟨raw, _, value, _, rfl⟩ := hn
  exact literal _ _

theorem regexLiteral (hn : p.regexLiteral src = .ok n) : I.holds p.span n := by
  simp only [Phrase.regexLiteral, bind_eq_ok, pure_eq_ok] at hn
  obtain ⟨raw, _, pattern, _, flags, _, rfl⟩ := hn
  exact literal _ _

/-- A template has one text more than substitutions, and a substitution has at most one
expression. -/
theorem templateFrom (h : p.Keeps I) {rs : List Reading} (hrs : ∀ r ∈ rs, r ∈ p.children)
    {start stop : Nat} {texts : List Text} {expressions : List (Option Node)}
    (hn : Phrase.templateFrom src start stop rs = .ok (texts, expressions)) :
    expressions.length < texts.length ∧ I.All p.span (expressions.filterMap id) := by
  induction rs generalizing start texts expressions with
  | nil =>
    simp only [Phrase.templateFrom, bind_eq_ok, pure_eq_ok, Prod.mk.injEq] at hn
    obtain ⟨_, _, rfl, rfl⟩ := hn
    exact ⟨Nat.zero_lt_one, .nil⟩
  | cons r rs ih =>
    obtain ⟨hr, hrs⟩ := List.forall_mem_cons.1 hrs
    obtain ⟨text, rest, expression, others, hrest, ⟨o, ho, heq⟩, hle, rfl, rfl⟩ :=
      templateFrom_cons_eq_ok hn
    obtain ⟨hlength, hkept⟩ := ih hrs hrest
    refine ⟨by simp only [List.length_append, List.length_cons]; omega, ?_⟩
    rw [List.filterMap_append, heq]
    exact List.forall_mem_append.2 ⟨((h.children r hr).phrase.firstNode ho).widen (h.within hr),
      hkept⟩

theorem template (h : p.Keeps I) (hn : p.template src = .ok n) : I.holds p.span n := by
  simp only [Phrase.template, bind_eq_ok, pure_eq_ok] at hn
  obtain ⟨⟨texts, expressions⟩, htemplate, rfl⟩ := hn
  obtain ⟨hlength, hkept⟩ := h.templateFrom (fun r hr => (List.mem_filter.1 hr).1) htemplate
  have htexts : I.All p.span (texts.map fun t => p.build (.templateElement t)) := by
    intro n hn
    obtain ⟨t, _, rfl⟩ := List.mem_map.1 hn
    exact kept_build rfl (by simp [Form.parts])
  refine kept_build ?_ (by simpa [Form.parts, htexts] using hkept)
  simp [Form.hasShape, hlength, Node.isTemplateElement, Phrase.build, Node.form]

/-! ## Imports and exports -/

theorem isMet_identifier (hn : p.identifier src = .ok n) : Need.binding.isMet n.form = true := by
  simp only [Phrase.identifier, bind_eq_ok, pure_eq_ok] at hn
  obtain ⟨name, _, rfl⟩ := hn
  rfl

theorem moduleName {o : Option Reading} (hn : Phrase.moduleName src o = .ok n) :
    ∃ r, o = some r ∧ I.holds r.span n := by
  obtain ⟨r, hr, hn⟩ := moduleName_eq_ok hn
  exact ⟨r, hr, hn.elim stringLiteral identifier⟩

/-- A child in one field, or in another one if there is none. -/
theorem withinOr (h : p.Keeps I) {field field' : String}
    (hr : (p.child? field).or (p.child? field') = some r) :
    I.within r.span p.span := by
  rcases Option.or_eq_some_iff.1 hr with hr | ⟨-, hr⟩
  · exact h.withinField hr
  · exact h.withinField hr

theorem isModuleName {o : Option Reading} (hn : Phrase.moduleName src o = .ok n) :
    n.isModuleName = true := by
  obtain ⟨r, -, hn | hn⟩ := moduleName_eq_ok hn
  · simp only [Phrase.stringLiteral, bind_eq_ok, pure_eq_ok] at hn
    obtain ⟨raw, _, value, _, rfl⟩ := hn
    rfl
  · simp only [Phrase.identifier, bind_eq_ok, pure_eq_ok] at hn
    obtain ⟨name, _, rfl⟩ := hn
    rfl

theorem importSpecifier (h : p.Keeps I) (hn : p.importSpecifier src = .ok n) :
    I.holds p.span n ∧ Need.importSpecifier.isMet n.form = true := by
  obtain ⟨imported, binding, field, r, himported, hr, hbinding, rfl⟩ := importSpecifier_eq_ok hn
  obtain ⟨name, hname, hkept⟩ := moduleName (I := I) himported
  have hbound := I.widen (h.withinField hr) (identifier hbinding)
  refine ⟨kept_build ?_ (by simp [Form.parts, I.widen (h.withinField hname) hkept, hbound]), rfl⟩
  simp [Form.hasShape, isModuleName himported, isMet_identifier hbinding]

theorem importBindings (h : r.Keeps I) {ns : List Node}
    (hns : Phrase.importBindings src r = .ok ns) :
    ∀ n ∈ ns, I.holds r.span n ∧ Need.importSpecifier.isMet n.form = true := by
  unfold Phrase.importBindings at hns
  split at hns
  · simp only [bind_eq_ok, pure_eq_ok] at hns
    obtain ⟨binding, hbinding, rfl⟩ := hns
    refine List.forall_mem_singleton.2 ⟨?_, rfl⟩
    exact kept_build (isMet_identifier hbinding) (by simp [Form.parts, identifier hbinding])
  · simp only [bind_eq_ok, pure_eq_ok] at hns
    obtain ⟨name, hname, binding, hbinding, rfl⟩ := hns
    have hbound := I.widen (h.phrase.withinNamed (lastNamed_mem hname)) (identifier hbinding)
    refine List.forall_mem_singleton.2 ⟨?_, rfl⟩
    exact kept_build (isMet_identifier hbinding) (by simp [Form.parts, hbound])
  · intro n hn
    obtain ⟨r', hr', hspecifier⟩ := exists_of_mem_mapM hns hn
    have hmem := (List.mem_filter.1 hr').1
    obtain ⟨hkept, hmet⟩ := importSpecifier (h.phrase.named hmem).phrase hspecifier
    exact ⟨I.widen (h.phrase.withinNamed hmem) hkept, hmet⟩
  · cases hns
    exact List.forall_mem_nil _

theorem importDeclaration (h : p.Keeps I) (hn : p.importDeclaration src = .ok n) :
    I.holds p.span n := by
  simp only [Phrase.importDeclaration, bind_eq_ok, pure_eq_ok] at hn
  obtain ⟨specifiers, hspecifiers, source, hsource, rfl⟩ := hn
  have hall : ∀ n ∈ specifiers.flatten, I.holds p.span n ∧
      Need.importSpecifier.isMet n.form = true := by
    intro n hn
    obtain ⟨ns, hns, hn⟩ := List.mem_flatten.1 hn
    obtain ⟨r, hr, hbindings⟩ := exists_of_mem_mapM hspecifiers hns
    obtain ⟨clause, hclause, hr⟩ := List.mem_flatMap.1 hr
    have hmem := (List.mem_filter.1 hclause).1
    have hphrase := (h.named hmem).phrase
    obtain ⟨hkept, hmet⟩ := importBindings (hphrase.named hr) hbindings n hn
    exact ⟨I.widen (h.withinNamed hmem) (I.widen (hphrase.withinNamed hr) hkept), hmet⟩
  have hkept : I.All p.span specifiers.flatten := fun n hn => (hall n hn).1
  exact kept_build (List.all_eq_true.2 fun n hn => (hall n hn).2)
    (by simp [Form.parts, hkept, h.fieldNode hsource])

theorem exportSpecifier (h : p.Keeps I) (hn : p.exportSpecifier src = .ok n) :
    I.holds p.span n ∧ Need.exportSpecifier.isMet n.form = true := by
  simp only [Phrase.exportSpecifier, bind_eq_ok, pure_eq_ok] at hn
  obtain ⟨binding, hbinding, exported, hexported, rfl⟩ := hn
  obtain ⟨name, hname, hbound⟩ := moduleName (I := I) hbinding
  obtain ⟨other, hother, hkept⟩ := moduleName (I := I) hexported
  refine ⟨kept_build ?_ ?_, rfl⟩
  · simp [Form.hasShape, isModuleName hbinding, isModuleName hexported]
  · simp [Form.parts, I.widen (h.withinField hname) hbound, I.widen (h.withinOr hother) hkept]

theorem exportClause (h : p.Keeps I) {source : Option Node} (hsource : I.All p.span source.toList)
    (hn : p.exportClause src source = .ok n) : I.holds p.span n := by
  rcases exportClause_eq_ok hn with ⟨name, hname, rfl⟩ |
    ⟨clause, hclause, specifiers, hspecifiers, rfl⟩
  · have hname : I.All p.span name.toList := by
      intro exported hexported
      obtain ⟨clause, hclause, r, hr, hn⟩ := hname exported (Option.mem_toList.1 hexported)
      obtain ⟨_, heq, hkept⟩ := moduleName (I := I) hn
      obtain rfl := Option.some.inj heq
      exact I.widen (h.withinNamed hclause)
        (I.widen ((h.named hclause).phrase.withinNamed hr) hkept)
    exact kept_build rfl (by simp [Form.parts, hname, hsource])
  · have hall : ∀ n ∈ specifiers, I.holds p.span n ∧ Need.exportSpecifier.isMet n.form = true := by
      intro n hn
      obtain ⟨r, hr, hspecifier⟩ := exists_of_mem_mapM hspecifiers hn
      have hmem := (List.mem_filter.1 hr).1
      have hphrase := (h.named hclause).phrase
      obtain ⟨hkept, hmet⟩ := exportSpecifier (hphrase.named hmem).phrase hspecifier
      exact ⟨I.widen (h.withinNamed hclause) (I.widen (hphrase.withinNamed hmem) hkept), hmet⟩
    have hkept : I.All p.span specifiers := fun n hn => (hall n hn).1
    exact kept_build (List.all_eq_true.2 fun n hn => (hall n hn).2)
      (by simp [Form.parts, hkept, hsource])

theorem exportDeclaration (h : p.Keeps I) (hn : p.exportDeclaration src = .ok n) :
    I.holds p.span n := by
  rcases exportDeclaration_eq_ok hn with ⟨field, declaration, hdeclaration, rfl⟩ |
    ⟨declaration, hdeclaration, rfl⟩ |
    ⟨source, hsource, hn⟩
  · exact kept_build rfl (by simp [Form.parts, h.fieldNode hdeclaration])
  · exact kept_build rfl (by simp [Form.parts, h.fieldNode hdeclaration])
  · exact h.exportClause (h.fieldNode hsource) hn

/-! ## All rules -/

theorem otherNode (h : p.Keeps I) (hkind : p.kind ∉ ruledKinds)
    (hn : p.otherNode src = .ok n) : I.holds p.span n := by
  simp only [Phrase.otherNode, bind_eq_ok, pure_eq_ok] at hn
  obtain ⟨children, hchildren, rfl⟩ := hn
  have hkept : I.All p.span (children.filterMap id) := by
    refine h.members (fun {r n} hr hn => ?_) hchildren
    split at hn
    · simp only [bind_eq_ok, pure_eq_ok, Option.some.injEq] at hn
      obtain ⟨name, _, rfl⟩ := hn
      exact kept_build rfl (by simp [Form.parts])
    · exact hr.holds hn
  exact kept_list (h.fits.unruled hkind) rfl hkept

theorem privateName (hn : p.privateName src = .ok n) : I.holds p.span n := by
  simp only [Phrase.privateName, bind_eq_ok, pure_eq_ok] at hn
  obtain ⟨name, _, rfl⟩ := hn
  exact kept_build rfl (by simp [Form.parts])

theorem ofOk {n' : Node} (h : I.holds p.span n') (hn : (.ok n' : Outcome Node) = .ok n) :
    I.holds p.span n :=
  Except.ok.inj hn ▸ h

theorem leaf {f : Form} (hshape : f.hasShape I.names = true) (hparts : f.parts = []) :
    I.holds p.span (p.build f) :=
  kept_build hshape (by simp [hparts])

theorem readNode (h : p.Keeps I) (hn : p.readNode src = .ok n) : I.holds p.span n := by
  unfold Phrase.readNode at hn
  split at hn
  · exact h.program hn
  · exact h.ofFirst (fun _ => rfl) (fun _ => rfl) hn
  · exact ofOk (leaf rfl rfl) hn
  · exact ofOk (leaf rfl rfl) hn
  · simp only [bind_eq_ok, pure_eq_ok] at hn
    obtain ⟨body, hbody, rfl⟩ := hn
    exact kept_list rfl rfl (h.nodes hbody)
  · exact h.ifStatement hn
  · exact h.forStatement hn
  · exact h.forEachStatement ‹_› hn
  · exact h.whileStatement hn
  · exact h.doStatement hn
  · exact h.tryStatement hn
  · exact h.switchStatement hn
  · exact h.ofFirst (fun _ => rfl) (fun _ => rfl) hn
  · exact h.ofFirst (fun _ => rfl) (fun _ => rfl) hn
  · exact h.labeledStatement hn
  · exact h.jumpStatement hn
  · exact h.jumpStatement hn
  · exact h.variableDeclaration hn
  · exact h.variableDeclaration hn
  · exact h.variableDeclarator hn
  · exact h.functionLike hn
  · exact h.functionLike hn
  · exact h.functionLike hn
  · exact h.functionLike hn
  · exact h.functionLike hn
  · exact h.arrowFunction hn
  · exact h.classLike hn
  · exact h.classLike hn
  · exact h.importDeclaration hn
  · exact h.exportDeclaration hn
  · exact identifier hn
  · exact identifier hn
  · exact identifier hn
  · exact identifier hn
  · exact identifier hn
  · exact identifier hn
  · exact privateName hn
  · exact ofOk (leaf rfl rfl) hn
  · exact ofOk (leaf rfl rfl) hn
  · exact stringLiteral hn
  · exact numberLiteral hn
  · exact ofOk (literal _ _) hn
  · exact ofOk (literal _ _) hn
  · exact ofOk (literal _ _) hn
  · exact regexLiteral hn
  · exact h.template hn
  · exact h.memberExpression hn
  · exact h.memberExpression hn
  · exact h.callExpression hn
  · exact h.newExpression hn
  · exact h.assignmentExpression hn
  · exact h.assignmentExpression hn
  · exact h.binaryExpression hn
  · exact h.unaryExpression hn
  · exact h.updateExpression hn
  · exact h.conditionalExpression hn
  · exact h.sequenceExpression hn
  · exact h.ofFirst (fun _ => rfl) (fun _ => rfl) hn
  · exact h.yieldExpression hn
  · exact h.ofFirst (fun _ => rfl) (fun _ => rfl) hn
  · simp only [bind_eq_ok, pure_eq_ok] at hn
    obtain ⟨elements, helements, rfl⟩ := hn
    exact kept_list rfl rfl (h.nodes helements)
  · exact h.objectExpression hn
  · exact h.objectPattern hn
  · simp only [bind_eq_ok, pure_eq_ok] at hn
    obtain ⟨elements, helements, rfl⟩ := hn
    exact kept_list rfl rfl (h.nodes helements)
  · exact h.assignmentPattern hn
  · exact h.ofFirst (fun _ => rfl) (fun _ => rfl) hn
  · exact h.otherNode (by simp only [ruledKinds, List.mem_cons, List.not_mem_nil]; tauto) hn

theorem read (h : p.Keeps I) (hn : p.read src = .ok (some n)) : I.holds p.span n := by
  unfold Phrase.read at hn
  split at hn
  · cases hn
  · split at hn
    · exact all_singleton.1 (h.firstNode hn)
    · simp only [bind_eq_ok, pure_eq_ok, Option.some.injEq] at hn
      obtain ⟨n, hn, rfl⟩ := hn
      exact h.readNode hn

end Phrase.Keeps

/-! ## Trees -/

namespace Concrete

mutual

/-- The kinds of the nodes of a tree. -/
def kinds : Concrete → List String
  | .mk head children => head.kind :: kindsOf children

/-- The kinds of the nodes of some trees. -/
def kindsOf : List Concrete → List String
  | [] => []
  | c :: cs => c.kinds ++ kindsOf cs

end

variable {Q : Concrete → Prop}

mutual

/-- A property that fits every node of a tree is kept by all that is read of it. -/
theorem keeps_read (hfits : ∀ c, Q c → I.Fits c.head (c.children.map head))
    (hdown : ∀ c, Q c → ∀ d ∈ c.children, Q d) : ∀ c : Concrete, Q c → (c.read src).Keeps I
  | .mk head children, h => by
    have hkeeps := keeps_readAll hfits hdown children (hdown _ h)
    have hphrase : Phrase.Keeps I ⟨head, readAll src children⟩ :=
      ⟨heads_readAll src children ▸ hfits _ h, hkeeps⟩
    exact .mk rfl hphrase.fits hkeeps fun n hn => hphrase.read hn

theorem keeps_readAll (hfits : ∀ c, Q c → I.Fits c.head (c.children.map head))
    (hdown : ∀ c, Q c → ∀ d ∈ c.children, Q d) : ∀ cs : List Concrete, (∀ c ∈ cs, Q c) →
    ∀ r ∈ readAll src cs, r.Keeps I
  | [], _ => List.forall_mem_nil _
  | c :: cs, h => by
    obtain ⟨hc, hcs⟩ := List.forall_mem_cons.1 h
    exact List.forall_mem_cons.2 ⟨keeps_read hfits hdown c hc, keeps_readAll hfits hdown cs hcs⟩

end

theorem kinds_sub {c d : Concrete} (hd : d ∈ c.children) : d.kinds ⊆ c.kinds := by
  obtain ⟨head, children⟩ := c
  refine List.subset_cons_of_subset _ ?_
  induction children with
  | nil => cases hd
  | cons c cs ih =>
    rcases List.mem_cons.1 hd with rfl | hd
    · exact List.subset_append_left _ _
    · exact List.Subset.trans (ih hd) (List.subset_append_right _ _)

/-- Whether a name is that of the nodes that a kind of a tree without a rule stands for. -/
def unruledName (c : Concrete) (name : Text) : Bool :=
  c.kinds.any fun kind => kind ∉ Phrase.ruledKinds && Text.camelCase kind == name

end Concrete

/-- Being shaped is kept wherever a node stands. -/
def Reading.Invariant.shape (src : Source) (names : Text → Bool) : Invariant src where
  names := names
  within _ _ := True
  holds _ n := n.Shaped names
  widen _ h := h
  build := .mk
  program h := h

/-- **Every program that comes of reading is shaped.** -/
theorem Node.ofConcrete_shaped {src : Source} {sourceType : Option Text} {root : Concrete}
    {program : Node} (h : Node.ofConcrete src sourceType root = .ok program) :
    program.Shaped root.unruledName := by
  have hkeeps : (root.read src).Keeps (.shape src root.unruledName) := by
    refine Concrete.keeps_read (Q := fun c => c.kinds ⊆ root.kinds) (fun c hc => ?_)
      (fun c hc d hd => List.Subset.trans (Concrete.kinds_sub hd) hc) root (List.Subset.refl _)
    refine ⟨fun hunruled => ?_, trivial, fun _ _ => trivial,
      fun _ _ => ⟨trivial, fun _ _ => trivial⟩⟩
    obtain ⟨head, children⟩ := c
    exact List.any_eq_true.2 ⟨head.kind, hc (.head _), by simpa [Concrete.head] using hunruled⟩
  obtain ⟨head, children⟩ := root
  exact hkeeps.phrase.program h

end ApiTrace
