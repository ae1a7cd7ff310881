import ApiTrace.Proofs.Reading.Order

/-!
# Places of statements and declarations

Every rule for a statement, a declaration, a function or a class makes a node that keeps to the
place of its concrete node, if the readings of the children do.
-/

namespace ApiTrace.Phrase

variable {p : Phrase} {src : Source} {n : Node}

/-! ## Statements -/

theorem Sound.ofFirst (h : p.Sound) {form : Option Node → Form}
    (hform : ∀ o, ((form o).isGeneric && (form o).isPlain && !(form o).isPattern) = true)
    (hnodes : ∀ o, (form o).childNodes = o.toList) (hn : p.ofFirst form = .ok n) :
    n.Placed p.span.zone := by
  simp only [Phrase.ofFirst, bind_eq_ok, pure_eq_ok] at hn
  obtain ⟨o, ho, rfl⟩ := hn
  refine .generic (hform o) ?_
  rw [hnodes]
  exact h.firstNode ho

theorem Sound.program (h : p.Sound) {sourceType : Option Text}
    (hn : p.program src sourceType = .ok n) :
    n.Placed p.span.zone := by
  simp only [Phrase.program, bind_eq_ok, pure_eq_ok] at hn
  obtain ⟨body, hbody, rfl⟩ := hn
  exact .program (h.nodes hbody)

theorem ifStatement_eq (p : Phrase) : p.ifStatement = do
    let alternate ← p.inClause "alternative" firstNode
    let test ← p.fieldNode "condition"
    let consequent ← p.fieldNode "consequence"
    return p.build (.ifElse test consequent alternate) := by
  unfold ifStatement inClause
  cases p.child? "alternative" <;> rfl

theorem Sound.ifStatement (h : p.Sound) (hn : p.ifStatement = .ok n) : n.Placed p.span.zone := by
  simp only [ifStatement_eq, bind_eq_ok, pure_eq_ok] at hn
  obtain ⟨alternate, halternate, test, htest, consequent, hconsequent, rfl⟩ := hn
  have hclause := h.inClause (fun q hq => hq.firstNode) halternate
  exact h.generic rfl [("condition", test.toList), ("consequence", consequent.toList),
    ("alternative", alternate.toList)] rfl (by simp)
    (by simp [h.fieldNode htest, h.fieldNode hconsequent, hclause])

theorem Sound.whileStatement (h : p.Sound) (hn : p.whileStatement = .ok n) :
    n.Placed p.span.zone := by
  simp only [Phrase.whileStatement, bind_eq_ok, pure_eq_ok] at hn
  obtain ⟨test, htest, body, hbody, rfl⟩ := hn
  exact h.generic rfl [("condition", test.toList), ("body", body.toList)] rfl (by simp)
    (by simp [h.fieldNode htest, h.fieldNode hbody])

theorem Sound.doStatement (h : p.Sound) (hn : p.doStatement = .ok n) : n.Placed p.span.zone := by
  simp only [Phrase.doStatement, bind_eq_ok, pure_eq_ok] at hn
  obtain ⟨body, hbody, test, htest, rfl⟩ := hn
  exact h.generic rfl [("body", body.toList), ("condition", test.toList)] rfl (by simp)
    (by simp [h.fieldNode htest, h.fieldNode hbody])

theorem Sound.loopPart (h : p.Sound) {field : String} {o : Option Node}
    (ho : loopPart (p.child? field) = .ok o) : PlacedAll (p.fieldZone field) o.toList := by
  rcases loopPart_eq_ok ho with rfl | ⟨r, hr, ho | ho⟩
  · exact .nil
  · exact ((h.child hr).phrase.firstNode ho).mono (child_sub hr)
  · exact ((h.child hr).placedAll ho).mono (child_sub hr)

theorem Sound.forStatement (h : p.Sound) (hn : p.forStatement = .ok n) : n.Placed p.span.zone := by
  simp only [Phrase.forStatement, bind_eq_ok, pure_eq_ok] at hn
  obtain ⟨init, hinit, test, htest, update, hupdate, body, hbody, rfl⟩ := hn
  have hfields := h.fields [("initializer", init.toList), ("condition", test.toList),
    ("increment", update.toList), ("body", body.toList)] (by simp)
    (by simp [h.loopPart hinit, h.loopPart htest, h.loopPart hupdate, h.fieldNode hbody])
  exact .forLoop hfields (.refl _)

theorem Sound.loopVariable (h : p.Sound) {o : Option Node} (ho : p.loopVariable = .ok o) :
    PlacedAll (p.fieldZone "left") o.toList := by
  rcases loopVariable_eq_ok ho with ho | ⟨keyword, left, target, -, hleft, htarget, rfl⟩
  · exact h.fieldNode ho
  · have hdeclarator : (Node.mk left.span (.variableDeclarator target none)).Placed
        left.span.zone :=
      .variableDeclarator ((h.child hleft).placedAll htarget) (.nil (Z := Zone.none))
        (fun _ _ => id)
        (.refl _) (Zone.none_sub _)
    exact (PlacedAll.singleton (.variableDeclaration (.singleton hdeclarator))).mono
      (child_sub hleft)

theorem Sound.forEachStatement (h : p.Sound) (hn : p.forEachStatement = .ok n) :
    n.Placed p.span.zone := by
  simp only [Phrase.forEachStatement, bind_eq_ok, pure_eq_ok] at hn
  obtain ⟨left, hleft, right, hright, body, hbody, rfl⟩ := hn
  have hrest : PlacedAll ((p.fieldZone "right").join (p.fieldZone "body"))
      (right.toList ++ body.toList) :=
    (h.fieldNode hright).append (h.fieldNode hbody) (h.fieldZone_apart (by simp))
      (Zone.sub_join_left _ _) (Zone.sub_join_right _ _)
  refine .forEach (h.loopVariable hleft) hrest ?_ (h.fieldZone_sub _) ?_
  · exact Zone.apart_join (h.fieldZone_apart (by simp)) (h.fieldZone_apart (by simp))
  · exact Zone.join_sub (h.fieldZone_sub _) (h.fieldZone_sub _)

theorem Sound.catchClause (h : p.Sound) (hn : p.catchClause = .ok n) : n.Placed p.span.zone := by
  simp only [Phrase.catchClause, bind_eq_ok, pure_eq_ok] at hn
  obtain ⟨param, hparam, body, hbody, rfl⟩ := hn
  exact .catchClause (h.fieldNode hparam) (h.fieldNode hbody) (h.fieldZone_apart (by simp))
    (h.fieldZone_sub _) (h.fieldZone_sub _)

theorem tryStatement_eq (p : Phrase) : p.tryStatement = do
    let handler ← p.inClause "handler" fun clause => do return some (← clause.catchClause)
    let finalizer ← p.inClause "finalizer" (·.fieldNode "body")
    let block ← p.fieldNode "body"
    return p.build (.tryStatement block handler finalizer) := by
  unfold tryStatement inClause
  cases p.child? "handler" <;> cases p.child? "finalizer" <;> simp

theorem Sound.tryStatement (h : p.Sound) (hn : p.tryStatement = .ok n) : n.Placed p.span.zone := by
  simp only [tryStatement_eq, bind_eq_ok, pure_eq_ok] at hn
  obtain ⟨handler, hhandler, finalizer, hfinalizer, block, hblock, rfl⟩ := hn
  have hcatch : PlacedAll (p.fieldZone "handler") handler.toList := by
    refine h.inClause (fun q hq ho => ?_) hhandler
    simp only [bind_eq_ok, pure_eq_ok] at ho
    obtain ⟨clause, hclause, rfl⟩ := ho
    exact .singleton (hq.catchClause hclause)
  have hfinally : PlacedAll (p.fieldZone "finalizer") finalizer.toList :=
    h.inClause (fun q hq ho => (hq.fieldNode ho).mono (hq.fieldZone_sub _)) hfinalizer
  exact h.generic rfl [("body", block.toList), ("handler", handler.toList),
    ("finalizer", finalizer.toList)] rfl (by simp) (by simp [h.fieldNode hblock, hcatch, hfinally])

theorem Sound.switchCase (h : p.Sound) (hn : p.switchCase = .ok n) : n.Placed p.span.zone := by
  simp only [Phrase.switchCase, bind_eq_ok, pure_eq_ok] at hn
  obtain ⟨test, htest, consequent, hconsequent, rfl⟩ := hn
  have hbody : PlacedAll (p.fieldZone "body") consequent :=
    (h.row.sublist List.filter_sublist).placedAll_nodesOf hconsequent
  exact h.generic rfl [("value", test.toList), ("body", consequent)]
    (by simp [Form.childNodes, Form.parts, Part.all, Part.nodes]) (by simp)
    (by simp [h.fieldNode htest, hbody])

theorem Sound.switchStatement (h : p.Sound) (hn : p.switchStatement = .ok n) :
    n.Placed p.span.zone := by
  obtain ⟨discriminant, cases, hdiscriminant, hcases, rfl⟩ := switchStatement_eq_ok hn
  have hplaced : PlacedAll (p.fieldZone "body") cases := by
    rcases hcases with rfl | ⟨body, hbody, hcases⟩
    · exact .nil
    · have hsound := (h.child hbody).phrase
      have hnodes := (hsound.row.sublist List.filter_sublist).placedAll (g := fun n => [n])
        (fun r hr n hn => .singleton
          ((hsound.sound r (List.mem_filter.1 hr).1).phrase.switchCase hn))
        hcases
      rw [List.flatMap_singleton'] at hnodes
      exact hnodes.mono ((hsound.zones_sub_of_sublist List.filter_sublist).trans (child_sub hbody))
  exact .switch (h.fieldNode hdiscriminant) hplaced (h.fieldZone_apart (by simp))
    (h.fieldZone_sub _)
    (h.fieldZone_sub _)

theorem Sound.labeledStatement (h : p.Sound) (hn : p.labeledStatement = .ok n) :
    n.Placed p.span.zone := by
  simp only [Phrase.labeledStatement, bind_eq_ok, pure_eq_ok] at hn
  obtain ⟨label, _, body, hbody, rfl⟩ := hn
  exact .labeled ((h.fieldNode hbody).mono (h.fieldZone_sub _))

theorem placed_jumpStatement {jump : Jump} {Z : Zone} (hn : p.jumpStatement jump = .ok n) :
    n.Placed Z := by
  simp only [jumpStatement, bind_eq_ok, pure_eq_ok] at hn
  obtain ⟨label, _, rfl⟩ := hn
  exact .silent rfl fun _ => rfl

/-! ## Declarations -/

theorem Sound.variableDeclaration (h : p.Sound) (hn : p.variableDeclaration = .ok n) :
    n.Placed p.span.zone := by
  simp only [Phrase.variableDeclaration, bind_eq_ok, pure_eq_ok] at hn
  obtain ⟨declarations, hdeclarations, rfl⟩ := hn
  have hsublist : (p.named.filter (·.kind == "variable_declarator")).Sublist p.children :=
    List.filter_sublist.trans List.filter_sublist
  exact .variableDeclaration (((h.row.sublist hsublist).placedAll_nodesOf hdeclarations).mono
    (h.zones_sub_of_sublist hsublist))

theorem Sound.variableDeclarator (h : p.Sound) (hn : p.variableDeclarator = .ok n) :
    n.Placed p.span.zone := by
  simp only [Phrase.variableDeclarator, bind_eq_ok, pure_eq_ok] at hn
  obtain ⟨target, htarget, init, hinit, rfl⟩ := hn
  exact .variableDeclarator (h.fieldNode htarget) (h.fieldNode hinit) (h.fieldZone_apart (by simp))
    (h.fieldZone_sub _) (h.fieldZone_sub _)

/-! ## Functions -/

theorem Sound.functionLike (h : p.Sound) {placement : Placement}
    (hn : p.functionLike placement = .ok n) :
    n.Placed p.span.zone := by
  simp only [Phrase.functionLike, bind_eq_ok, pure_eq_ok] at hn
  obtain ⟨name, _, params, hparams, body, hbody, rfl⟩ := hn
  exact .function (h.nodesIn hparams) (h.fieldNode hbody) (h.fieldZone_apart (by simp))
    (h.fieldZone_sub _) (h.fieldZone_sub _)

theorem Sound.arrowFunction (h : p.Sound) (hn : p.arrowFunction = .ok n) :
    n.Placed p.span.zone := by
  obtain ⟨params, body, isExpression, isAsync, hbody, hparams, rfl⟩ := arrowFunction_eq_ok hn
  have finish : ∀ {field}, field ≠ "body" → PlacedAll (p.fieldZone field) (params.filterMap id) →
      (p.build (.arrowFunction params body isExpression isAsync)).Placed p.span.zone :=
    fun hne hparams => .arrowFunction hparams (h.fieldNode hbody) (h.fieldZone_apart hne)
      (h.fieldZone_sub _) (h.fieldZone_sub _)
  rcases hparams with ⟨param, hparam, heq⟩ | hparams
  · exact finish (by simp) (heq ▸ h.fieldNode hparam)
  · exact finish (by simp) (h.nodesIn hparams)

/-- The field of a concrete node, in terms of the heads of its parts. -/
theorem inField?_map (p : Phrase) (field : String) :
    Concrete.inField? (p.children.map (·.phrase.head)) field = (p.child? field).map
      (·.phrase.head) :=
  List.find?_map

theorem Sound.bounds (h : p.Sound) {r : Reading} (hr : r ∈ p.children) :
    p.span.start ≤ r.span.start ∧ r.span.start ≤ r.span.stop ∧ r.span.stop ≤ p.span.stop :=
  (Concrete.follow_spec h.follow).2 _ (List.mem_map_of_mem hr)

/-- The parts of a method are there, the parameters before the body. -/
theorem Sound.methodOrder (h : p.Sound) (hkind : p.kind = "method_definition") :
    ∃ params body, p.child? "parameters" = some params ∧ p.child? "body" = some body ∧
      params.span.stop ≤ body.span.start := by
  have horder := (Bool.and_eq_true_iff.1 h.order).2
  have hhead : p.head.kind = "method_definition" := hkind
  simp only [hhead, inField?_map] at horder
  cases hparams : p.child? "parameters" with
  | none => simp [hparams] at horder
  | some params =>
    cases hbody : p.child? "body" with
    | none => simp [hparams, hbody] at horder
    | some body =>
      simp only [hparams, hbody, Option.map_some, decide_eq_true_eq] at horder
      exact ⟨params, body, rfl, rfl, horder⟩

/-- The function of a method lies between its parameters and its body. -/
theorem Sound.methodFunction (h : p.Sound) {params body : Reading}
    (hparams : p.child? "parameters" = some params) (hbody : p.child? "body" = some body)
    (hle : params.span.stop ≤ body.span.start) (hn : p.methodFunction = .ok n) :
    n.Placed (params.span.between body.span).zone := by
  simp only [Phrase.methodFunction, hparams, hbody, bind_eq_ok, pure_eq_ok] at hn
  obtain ⟨paramNodes, hparamNodes, bodyNode, hbodyNode, rfl⟩ := hn
  have hparamsBounds := h.bounds (List.mem_of_find?_eq_some hparams)
  have hbodyBounds := h.bounds (List.mem_of_find?_eq_some hbody)
  refine .function ((h.child hparams).phrase.nodes hparamNodes)
    ((h.child hbody).placedAll hbodyNode)
    (Span.zone_apart hle) ?_ ?_
  · intro o ho
    have hstop : o < params.span.stop := ho.2
    exact ⟨ho.1, show o < body.span.stop by omega⟩
  · intro o ho
    have hstart : body.span.start ≤ o := ho.1
    exact ⟨show params.span.start ≤ o by omega, ho.2⟩

/-! ## Keys -/

/-- What is read of a key is read of a computed one, and lies where the key is. -/
theorem placed_propertyKey {o : Option Reading} (ho : ∀ r ∈ o, r.Sound) {key : Option Node}
    {computed : Bool} (hkey : propertyKey src o = .ok (key, computed)) :
    readKey computed key = none ∨
      ∃ r, o = some r ∧ r.kind = "computed_property_name" ∧
        PlacedAll r.span.zone (readKey computed key).toList := by
  rcases propertyKey_eq_ok hkey with ⟨rfl, rfl⟩ | ⟨r, rfl, ⟨hkind, rfl, hnode⟩ | ⟨rfl, -⟩⟩
  · exact .inl rfl
  · exact .inr ⟨r, rfl, hkind, (ho r rfl).phrase.firstNode hnode⟩
  · exact .inl rfl

theorem Sound.propertyKey (h : p.Sound) {field : String} {key : Option Node} {computed : Bool}
    (hkey : propertyKey src (p.child? field) = .ok (key, computed)) :
    PlacedAll (p.fieldZone field) (readKey computed key).toList := by
  rcases placed_propertyKey (fun r hr => h.child hr) hkey with hnone | ⟨r, hr, _, hplaced⟩
  · rw [hnone]
    exact .nil
  · exact hplaced.mono (child_sub hr)

/-- The key and the function of a method lie in it, apart from each other. -/
theorem Sound.methodParts (h : p.Sound) (hkind : p.kind = "method_definition") {key : Option Node}
    {computed : Bool} (hkey : Phrase.propertyKey src (p.child? "name") = .ok (key, computed))
    (hn : p.methodFunction = .ok n) :
    ∃ Z₁ Z₂ : Zone, PlacedAll Z₁ (readKey computed key).toList ∧ n.Placed Z₂ ∧ Z₁.Apart Z₂ ∧
      Z₁.Sub p.span.zone ∧ Z₂.Sub p.span.zone := by
  obtain ⟨params, body, hparams, hbody, hle⟩ := h.methodOrder hkind
  have hfunction := h.methodFunction hparams hbody hle hn
  have hsub : (params.span.between body.span).zone.Sub p.span.zone := by
    rintro o ⟨hstart, hstop⟩
    have hparamsBounds := h.bounds (List.mem_of_find?_eq_some hparams)
    have hbodyBounds := h.bounds (List.mem_of_find?_eq_some hbody)
    exact ⟨Nat.le_trans hparamsBounds.1 hstart, Nat.lt_of_lt_of_le hstop hbodyBounds.2.2⟩
  rcases placed_propertyKey (fun r hr => h.child hr) hkey with hnone |
    ⟨name, hname, hcomputed, hplaced⟩
  · rw [hnone]
    exact ⟨Zone.none, _, .nil, hfunction, Zone.none_apart _, Zone.none_sub _, hsub⟩
  · refine ⟨_, _, hplaced, hfunction, ?_, (child_sub hname).trans (h.fieldZone_sub _), hsub⟩
    rintro o ⟨hstart, hstop⟩ ⟨hstart', hstop'⟩
    have hapart := h.apart
    have hhead : p.head.kind = "method_definition" := hkind
    have hnameKind : name.phrase.head.kind = "computed_property_name" := hcomputed
    simp only [Concrete.Head.keepsApart, hhead, inField?_map, hname, hparams, hbody,
      Option.map_some, hnameKind, bne_self_eq_false, Bool.false_or, Bool.or_eq_true,
        decide_eq_true_eq] at hapart
    have hbefore : ¬ name.span.stop ≤ params.span.start := by
      have : params.span.start ≤ o := hstart'
      omega
    have hafter : ¬ body.span.stop ≤ name.span.start := by
      have : o < body.span.stop := hstop'
      omega
    exact hapart.elim hbefore hafter

/-! ## Classes -/

theorem placed_classMember {r : Reading} (h : r.Sound) (hn : classMember src r = .ok (some n)) :
    n.Placed r.span.zone := by
  rcases classMember_eq_ok hn with
    ⟨key, computed, value, kind, isStatic, hkind, hkey, hvalue, rfl⟩ |
    ⟨key, computed, value, isStatic, -, hkey, hvalue, rfl⟩ | ⟨body, hbody, rfl⟩ | hn
  · obtain ⟨Z₁, Z₂, hkey, hvalue, apart, sub₁, sub₂⟩ := h.phrase.methodParts hkind hkey hvalue
    exact .method hkey (.singleton hvalue) apart sub₁ sub₂
  · exact .field (h.phrase.propertyKey hkey) (h.phrase.fieldNode hvalue)
      (h.phrase.fieldZone_apart (by simp)) (h.phrase.fieldZone_sub _) (h.phrase.fieldZone_sub _)
  · exact .staticBlock (h.phrase.fieldNode hbody) (h.phrase.fieldZone_sub _)
  · exact h.placed hn

/-- The heritage clause of a class; of several ones the last counts. -/
def heritage? (p : Phrase) : Option Reading :=
  (p.named.filter (·.kind == "class_heritage")).getLast?

theorem heritage?_mem {clause : Reading} (h : p.heritage? = some clause) : clause ∈ p.children :=
  (List.mem_filter.1 (List.mem_filter.1 (List.mem_of_getLast? h)).1).1

theorem heritage?_head (p : Phrase) :
    ((p.children.map (·.phrase.head)).filter Concrete.Head.isHeritage).getLast? =
      p.heritage?.map (·.phrase.head) := by
  have hfilter : p.named.filter (·.kind == "class_heritage") =
      p.children.filter (Concrete.Head.isHeritage ∘ (·.phrase.head)) := by
    rw [named, List.filter_filter]
    refine List.filter_congr fun r _ => ?_
    by_cases hkind : r.kind = "class_heritage"
    · have hhead : r.phrase.head.kind = "class_heritage" := hkind
      simp [Concrete.Head.isHeritage, Reading.counts, Reading.skippedKinds, hkind, hhead]
    · have hfalse : (r.kind == "class_heritage") = false := beq_eq_false_iff_ne.2 hkind
      show (r.kind == "class_heritage" && r.counts) =
        (r.phrase.head.named && r.kind == "class_heritage")
      rw [hfalse, Bool.false_and, Bool.and_false]
  rw [heritage?, hfilter, List.filter_map, List.getLast?_map]

/-- What a class extends is what its heritage clause says. -/
theorem superClass_eq_ok {o : Option Node} (ho : p.superClass = .ok o) :
    (∃ clause, p.heritage? = some clause ∧ clause.phrase.firstNode = .ok o) ∨ o = none := by
  have hlast : ∀ (rs : List Reading) {init o},
      rs.foldlM (fun _ clause => clause.phrase.firstNode) init = .ok o →
      (∃ clause, rs.getLast? = some clause ∧ clause.phrase.firstNode = .ok o) ∨ rs = [] ∧
        o = init := by
    intro rs
    induction rs with
    | nil => exact fun ho => .inr ⟨rfl, (Except.ok.inj ho).symm⟩
    | cons r rs ih =>
      intro init o ho
      simp only [List.foldlM_cons, bind_eq_ok] at ho
      obtain ⟨o', ho', ho⟩ := ho
      left
      rcases ih ho with ⟨clause, hclause, hnode⟩ | ⟨rfl, rfl⟩
      · exact ⟨clause, by rw [List.getLast?_cons, hclause, Option.getD_some], hnode⟩
      · exact ⟨r, rfl, ho'⟩
  exact (hlast _ ho).imp_right And.right

theorem Sound.superClass (h : p.Sound) {o : Option Node} (ho : p.superClass = .ok o) :
    PlacedAll (Reading.zones p.heritage?.toList) o.toList := by
  rcases superClass_eq_ok ho with ⟨clause, hclause, hnode⟩ | rfl
  · rw [hclause]
    exact ((h.sound clause (heritage?_mem hclause)).phrase.firstNode hnode).mono
      (Reading.zone_sub_zones (List.mem_singleton.2 rfl))
  · exact .nil

theorem Sound.heritage_sub (h : p.Sound) : (Reading.zones p.heritage?.toList).Sub p.span.zone := by
  rintro o ⟨clause, hclause, ho⟩
  exact h.zones_sub o ⟨clause, heritage?_mem (Option.mem_toList.1 hclause), ho⟩

/-- The body of a class lies apart from its heritage clause. -/
theorem Sound.heritage_apart (h : p.Sound) (hkind : p.kind = "class_declaration" ∨ p.kind = "class")
    {body : Reading} (hbody : p.child? "body" = some body) :
    (Reading.zones p.heritage?.toList).Apart body.span.zone := by
  rintro o ⟨clause, hclause, ho⟩ ho'
  have hclause : p.heritage? = some clause := Option.mem_toList.1 hclause
  refine h.row.apart_of_ne (heritage?_mem hclause) (List.mem_of_find?_eq_some hbody) ?_ o ho ho'
  rintro rfl
  have hapart := h.apart
  have hclass : p.head.kind = "class_declaration" ∨ p.head.kind = "class" := hkind
  rcases hclass with hhead | hhead
  · simp only [Concrete.Head.keepsApart, hhead, inField?_map, heritage?_head, hbody, hclause,
      Option.map_some, bne_self_eq_false, Bool.false_eq_true] at hapart
  · simp only [Concrete.Head.keepsApart, hhead, inField?_map, heritage?_head, hbody, hclause,
      Option.map_some, bne_self_eq_false, Bool.false_eq_true] at hapart

theorem Sound.classLike (h : p.Sound) (hkind : p.kind = "class_declaration" ∨ p.kind = "class")
    {placement : Placement} (hn : p.classLike src placement = .ok n) : n.Placed p.span.zone := by
  obtain ⟨name, superClass, body, -, hsuper, rfl | ⟨r, members, hr, hmembers, rfl⟩, rfl⟩ :=
    classLike_eq_ok hn
  · exact .classLike (h.superClass hsuper) (.nil (Z := Zone.none)) (fun _ _ => id) h.heritage_sub
      (Zone.none_sub _)
  · have hplaced := (h.child hr).phrase.members placed_classMember hmembers
    exact .classLike (h.superClass hsuper) hplaced (h.heritage_apart hkind hr) h.heritage_sub
      ((child_sub hr).trans (h.fieldZone_sub _))

end ApiTrace.Phrase
