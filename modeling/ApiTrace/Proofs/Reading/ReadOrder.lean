import ApiTrace.Proofs.Flow.Stops
import ApiTrace.Proofs.Reading.SourceOrder
import ApiTrace.Proofs.Scope.Built

/-!
# Reads in source order

Every node that is read from a concrete tree in source order reads its variables in the order of the
source (`Concrete.Even`), and so the reads of each variable of the program come in source order
(`ScopeGraph.reads_in_source_order`).
-/

namespace ApiTrace

theorem mapM_of_forall₂ {ε α β : Type} {f : α → Except ε β} {as : List α} {bs : List β}
    (h : List.Forall₂ (fun a b => f a = .ok b) as bs) : as.mapM f = .ok bs := by
  induction h with
  | nil => rfl
  | cons hab _ ih => rw [List.mapM_cons, hab, ih]; rfl

namespace Concrete

variable {src : Source} {c d e : Concrete} {cs ds : List Concrete} {n : Node} {o : Option Node}
    {ns : List Node}
  {field : String}

namespace Parted

/-! ## Statements -/

theorem ofFirst (h : Parted src c) {form : Option Node → Form}
    (hf : ∀ o, (form o).identifierName? = none) (hnodes : ∀ o, (form o).codeNodes = o.toList)
    (hn : (c.read src).phrase.ofFirst form = .ok n) :
    n.Ascending c.zone := by
  simp only [Phrase.ofFirst, bind_eq_ok, pure_eq_ok] at hn
  obtain ⟨o, ho, rfl⟩ := hn
  exact .of_code (hf o) (hnodes o ▸ h.firstNode ho)

theorem ifStatement (h : Parted src c) (hkind : c.head.kind = "if_statement")
    (hn : (c.read src).phrase.ifStatement = .ok n) : n.Ascending c.zone := by
  simp only [Phrase.ifStatement_eq, bind_eq_ok, pure_eq_ok, build_read] at hn
  obtain ⟨alternate, halternate, test, htest, consequent, hconsequent, rfl⟩ := hn
  have hclause := h.inClause (fun d _ hd => hd.firstNode) halternate
  exact h.ofFields (h.fields hkind) rfl
    [("condition", test.toList), ("consequence", consequent.toList),
    ("alternative", alternate.toList)] rfl (.refl _)
      (by simp [h.fieldNode htest, h.fieldNode hconsequent, hclause])

theorem whileStatement (h : Parted src c) (hkind : c.head.kind = "while_statement")
    (hn : (c.read src).phrase.whileStatement = .ok n) : n.Ascending c.zone := by
  simp only [Phrase.whileStatement, bind_eq_ok, pure_eq_ok, build_read] at hn
  obtain ⟨test, htest, body, hbody, rfl⟩ := hn
  exact h.ofFields (h.fields hkind) rfl [("condition", test.toList), ("body", body.toList)]
    rfl (.refl _)
    (by simp [h.fieldNode htest, h.fieldNode hbody])

theorem doStatement (h : Parted src c) (hkind : c.head.kind = "do_statement")
    (hn : (c.read src).phrase.doStatement = .ok n) : n.Ascending c.zone := by
  simp only [Phrase.doStatement, bind_eq_ok, pure_eq_ok, build_read] at hn
  obtain ⟨body, hbody, test, htest, rfl⟩ := hn
  exact h.ofFields (h.fields hkind) rfl [("body", body.toList), ("condition", test.toList)]
    rfl (.refl _)
    (by simp [h.fieldNode htest, h.fieldNode hbody])

theorem loopPart (h : Parted src c)
    (ho : Phrase.loopPart ((c.read src).phrase.child? field) = .ok o) :
    AscendingAll (c.fieldZone field) o.toList := by
  rcases Phrase.loopPart_eq_ok ho with rfl | ⟨r, hr, ho | ho⟩
  · exact .nil
  · obtain ⟨d, hd, rfl⟩ := h.child hr
    exact (hd.1.parted.firstNode ho).mono hd.2
  · obtain ⟨d, hd, rfl⟩ := h.child hr
    exact (hd.1.ascendingAll ho).mono hd.2

theorem forStatement (h : Parted src c) (hkind : c.head.kind = "for_statement")
    (hn : (c.read src).phrase.forStatement = .ok n) : n.Ascending c.zone := by
  simp only [Phrase.forStatement, bind_eq_ok, pure_eq_ok, build_read] at hn
  obtain ⟨init, hinit, test, htest, update, hupdate, body, hbody, rfl⟩ := hn
  exact h.ofFields (h.fields hkind) rfl [("initializer", init.toList), ("condition", test.toList),
    ("increment", update.toList), ("body", body.toList)] rfl (.refl _)
    (by simp [h.loopPart hinit, h.loopPart htest, h.loopPart hupdate, h.fieldNode hbody])

theorem loopVariable (h : Parted src c) (ho : (c.read src).phrase.loopVariable = .ok o) :
    AscendingAll (c.fieldZone "left") o.toList := by
  rcases Phrase.loopVariable_eq_ok ho with ho | ⟨keyword, left, target, -, hleft, htarget, rfl⟩
  · exact h.fieldNode ho
  · -- The declaration and its declarator are made up for the loop, in the place of the variable.
    have hbound : AscendingAll (c.fieldZone "left") target.toList :=
      h.fieldNode (by rw [Phrase.fieldNode, hleft]; exact htarget)
    have hdeclarator : (Node.mk left.span (.variableDeclarator target none)).Ascending
        (c.fieldZone "left") := by
      refine .of_code rfl ?_
      simpa [Form.codeNodes, Form.childNodes, Form.parts, Part.nodes] using hbound
    refine .singleton (.of_code rfl ?_)
    simpa [Form.codeNodes, Form.childNodes, Form.parts, Part.all, Part.nodes, Part.text] using
      AscendingAll.singleton hdeclarator

theorem forEachStatement (h : Parted src c) (hkind : c.head.kind = "for_in_statement")
    (hn : (c.read src).phrase.forEachStatement = .ok n) : n.Ascending c.zone := by
  simp only [Phrase.forEachStatement, bind_eq_ok, pure_eq_ok, build_read] at hn
  obtain ⟨left, hleft, right, hright, body, hbody, rfl⟩ := hn
  exact h.ofFields (h.fields hkind) rfl [("left", left.toList), ("right", right.toList),
    ("body", body.toList)] rfl
    (.refl _) (by simp [h.loopVariable hleft, h.fieldNode hright, h.fieldNode hbody])

theorem catchClause (h : Parted src c) (horder : c.fieldsInOrder ["parameter", "body"] = true)
    (hn : (c.read src).phrase.catchClause = .ok n) : n.Ascending c.zone := by
  simp only [Phrase.catchClause, bind_eq_ok, pure_eq_ok, build_read] at hn
  obtain ⟨param, hparam, body, hbody, rfl⟩ := hn
  exact h.ofFields horder rfl [("parameter", param.toList), ("body", body.toList)] rfl (.refl _)
    (by simp [h.fieldNode hparam, h.fieldNode hbody])

theorem tryStatement (h : Parted src c) (hkind : c.head.kind = "try_statement")
    (hn : (c.read src).phrase.tryStatement = .ok n) : n.Ascending c.zone := by
  simp only [Phrase.tryStatement_eq, bind_eq_ok, pure_eq_ok, build_read] at hn
  obtain ⟨handler, hhandler, finalizer, hfinalizer, block, hblock, rfl⟩ := hn
  have hclauses := (Bool.and_eq_true_iff.1 h.order).2
  rw [hkind] at hclauses
  have hcatch : AscendingAll (c.fieldZone "handler") handler.toList := by
    refine h.inClause (fun d hd hparted ho => ?_) hhandler
    simp only [bind_eq_ok, pure_eq_ok] at ho
    obtain ⟨clause, hclause, rfl⟩ := ho
    exact .singleton (hparted.catchClause (Option.all_eq_true _ _ |>.1 hclauses d hd) hclause)
  have hfinally : AscendingAll (c.fieldZone "finalizer") finalizer.toList :=
    h.inClause (fun d _ hd ho => (hd.fieldNode ho).mono (fieldZone_sub d _)) hfinalizer
  exact h.ofFields (h.fields hkind) rfl [("body", block.toList), ("handler", handler.toList),
    ("finalizer", finalizer.toList)] rfl (.refl _) (by simp [h.fieldNode hblock, hcatch, hfinally])

theorem switchCase (h : Parted src c) (horder : c.fieldsInOrder ["value", "body"] = true)
    (hn : (c.read src).phrase.switchCase = .ok n) : n.Ascending c.zone := by
  simp only [Phrase.switchCase, bind_eq_ok, pure_eq_ok, build_read] at hn
  obtain ⟨test, htest, consequent, hconsequent, rfl⟩ := hn
  have hbody : AscendingAll (c.fieldZone "body") consequent := by
    have hparts : (c.read src).phrase.childrenIn "body" =
        (c.children.filter fun d => d.head.fills "body").map (·.read src) := by
      rw [phrase_read, Phrase.childrenIn, List.filter_map]
      congr 2
      funext d
      rw [Function.comp_apply, head_phrase_read]
      rfl
    rw [hparts] at hconsequent
    exact (h.wholeRow.sublist List.filter_sublist).nodesOf hconsequent
  exact h.ofFields horder rfl [("value", test.toList), ("body", consequent)]
    (by simp [Form.codeNodes, Form.childNodes, Form.parts, Part.all, Part.nodes]) (.refl _)
    (by simp [h.fieldNode htest, hbody])

theorem switchStatement (h : Parted src c) (hkind : c.head.kind = "switch_statement")
    (hn : (c.read src).phrase.switchStatement = .ok n) : n.Ascending c.zone := by
  obtain ⟨discriminant, cases, hdiscriminant, hcases, rfl⟩ := Phrase.switchStatement_eq_ok hn
  have hbody : AscendingAll (c.fieldZone "body") cases := by
    rcases hcases with rfl | ⟨r, hr, hcases⟩
    · exact .nil
    · rw [child?_read] at hr
      obtain ⟨d, hd, rfl⟩ := Option.map_eq_some_iff.1 hr
      have hclauses := (Bool.and_eq_true_iff.1 h.order).2
      rw [hkind] at hclauses
      have hall := List.all_eq_true.1 (Option.all_eq_true _ _ |>.1 hclauses d hd)
      have hparted := (h.inside d (mem_of_field? hd)).parted
      rw [named_read] at hcases
      have hnodes := (hparted.wholeRow.sublist List.filter_sublist).ascendingAll (g := fun n => [n])
        (fun e he heven n hn => .singleton (heven.parted.switchCase (hall e he) hn)) hcases
      rw [List.flatMap_singleton'] at hnodes
      exact hnodes.mono ((zones_sub List.filter_sublist).trans (zone_sub_fieldZone hd))
  rw [build_read]
  exact h.ofFields (h.fields hkind) rfl [("value", discriminant.toList), ("body", cases)]
    (by simp [Form.codeNodes, Form.childNodes, Form.parts, Part.all, Part.nodes]) (.refl _)
    (by simp [h.fieldNode hdiscriminant, hbody])

theorem labeledStatement (h : Parted src c) (hn : (c.read src).phrase.labeledStatement = .ok n) :
    n.Ascending c.zone := by
  simp only [Phrase.labeledStatement, bind_eq_ok, pure_eq_ok] at hn
  obtain ⟨label, _, body, hbody, rfl⟩ := hn
  exact .of_code rfl ((h.fieldNode hbody).mono (fieldZone_sub c _))

/-! ## Declarations and functions -/

theorem variableDeclaration (h : Parted src c)
    (hn : (c.read src).phrase.variableDeclaration = .ok n) :
    n.Ascending c.zone := by
  simp only [Phrase.variableDeclaration, bind_eq_ok, pure_eq_ok, named_of_kind_read] at hn
  obtain ⟨declarations, hdeclarations, rfl⟩ := hn
  have hsublist : (c.membersOf "variable_declarator").Sublist c.children :=
    List.filter_sublist.trans List.filter_sublist
  refine .of_code rfl ?_
  simpa [Form.codeNodes, Form.childNodes, Form.parts, Part.all, Part.nodes, Part.text] using
    ((h.wholeRow.sublist hsublist).nodesOf hdeclarations).mono (zones_sub hsublist)

theorem variableDeclarator (h : Parted src c) (hkind : c.head.kind = "variable_declarator")
    (hn : (c.read src).phrase.variableDeclarator = .ok n) : n.Ascending c.zone := by
  simp only [Phrase.variableDeclarator, bind_eq_ok, pure_eq_ok, build_read] at hn
  obtain ⟨target, htarget, init, hinit, rfl⟩ := hn
  exact h.ofFields (h.fields hkind) rfl [("name", target.toList), ("value", init.toList)]
    rfl (.refl _)
    (by simp [h.fieldNode htarget, h.fieldNode hinit])

theorem functionLike (h : Parted src c) (horder : c.fieldsInOrder ["parameters", "body"] = true)
    {placement : Placement} (hn : (c.read src).phrase.functionLike placement = .ok n) :
    n.Ascending c.zone := by
  simp only [Phrase.functionLike, bind_eq_ok, pure_eq_ok, build_read] at hn
  obtain ⟨name, _, params, hparams, body, hbody, rfl⟩ := hn
  exact h.ofFields horder rfl [("parameters", params), ("body", body.toList)]
    (by simp [Form.codeNodes]) (.refl _)
    (by simp [h.nodesIn hparams, h.fieldNode hbody])

theorem arrowFunction (h : Parted src c) (hkind : c.head.kind = "arrow_function")
    (hn : (c.read src).phrase.arrowFunction = .ok n) : n.Ascending c.zone := by
  obtain ⟨params, body, isExpression, isAsync, hbody, hparams, rfl⟩ := Phrase.arrowFunction_eq_ok hn
  have finish : ∀ {field}, [field, "body"].Sublist (readFields "arrow_function") →
      AscendingAll (c.fieldZone field) (params.filterMap id) →
      (Node.mk c.head.span (.arrowFunction params body isExpression isAsync)).Ascending c.zone :=
    fun {field} hsub hparams => h.ofFields (h.fields hkind) rfl
      [(field, params.filterMap id), ("body", body.toList)]
      (by simp [Form.codeNodes]) hsub (by simpa [h.fieldNode hbody] using hparams)
  rw [build_read]
  rcases hparams with ⟨param, hparam, heq⟩ | hparams
  · exact finish (by decide) (heq ▸ h.fieldNode hparam)
  · exact finish (by decide) (h.nodesIn hparams)

/-- What is read of a key is read of a computed one. -/
theorem propertyKey (h : Parted src c) {key : Option Node} {computed : Bool}
    (hkey : Phrase.propertyKey src ((c.read src).phrase.child? field) = .ok (key, computed)) :
    AscendingAll (c.fieldZone field) (readKey computed key).toList := by
  rcases Phrase.propertyKey_eq_ok hkey with ⟨rfl, rfl⟩ | ⟨r, hr, ⟨-, rfl, hnode⟩ | ⟨rfl, -⟩⟩
  · exact .nil
  · obtain ⟨d, hd, rfl⟩ := h.child hr
    exact (hd.1.parted.firstNode hnode).mono hd.2
  · exact .nil

/-- The key of a method comes before its function. -/
theorem methodParts (h : Parted src c) (hkind : c.head.kind = "method_definition")
    {key : Option Node} {computed : Bool}
    (hkey : Phrase.propertyKey src ((c.read src).phrase.child? "name") = .ok (key, computed))
    (hn : (c.read src).phrase.methodFunction = .ok n) :
    AscendingAll c.zone ((readKey computed key).toList ++ [n]) := by
  simp only [Phrase.methodFunction, bind_eq_ok, pure_eq_ok] at hn
  obtain ⟨params, hparams, body, hbody, rfl⟩ := hn
  have hall :=
    h.inFields (h.fields hkind) [("name", (readKey computed key).toList), ("parameters", params),
    ("body", body.toList)] (.refl _)
      (by simp [h.propertyKey hkey, h.nodesIn hparams, h.fieldNode hbody])
  simp only [List.flatMap_cons, List.flatMap_nil, List.append_nil] at hall
  obtain ⟨Z₁, Z₂, hkey, hcode, before, sub₁, sub₂⟩ := hall.split
  exact hkey.append (.singleton (.of_code rfl hcode)) before sub₁ sub₂

/-! ## Classes -/

theorem classMember (h : Even src c) (hn : Phrase.classMember src (c.read src) = .ok (some n)) :
    n.Ascending c.zone := by
  have hparted := h.parted
  rcases Phrase.classMember_eq_ok hn with
    ⟨key, computed, value, kind, isStatic, hkind, hkey, hvalue, rfl⟩ |
    ⟨key, computed, value, isStatic, hkind, hkey, hvalue, rfl⟩ | ⟨body, hbody, rfl⟩ | hn
  · rw [kind_read] at hkind
    exact .of_code rfl (hparted.methodParts hkind hkey hvalue)
  · rw [kind_read] at hkind
    rw [build_read]
    exact hparted.ofFields (hparted.fields hkind) rfl [("property", (readKey computed key).toList),
      ("value", value.toList)] (by simp [Form.codeNodes]) (.refl _)
      (by simp [hparted.propertyKey hkey, hparted.fieldNode hvalue])
  · refine .of_code rfl ?_
    simpa [Form.codeNodes, Form.childNodes, Form.parts, Part.nodes] using
      (hparted.fieldNode hbody).mono (fieldZone_sub c _)
  · exact (h.ascendingAll hn).ascending

theorem superClass (h : Parted src c) (ho : (c.read src).phrase.superClass = .ok o) :
    AscendingAll (zones (c.children.filter fun d => d.head.isHeritage)) o.toList := by
  rcases Phrase.superClass_eq_ok ho with ⟨clause, hclause, hnode⟩ | rfl
  · rw [Phrase.heritage?, named_of_kind_read, List.getLast?_map] at hclause
    obtain ⟨d, hd, rfl⟩ := Option.map_eq_some_iff.1 hclause
    obtain ⟨hmem, hkind⟩ := List.mem_filter.1 (List.mem_of_getLast? hd)
    obtain ⟨hmem, hcounts⟩ := List.mem_filter.1 hmem
    have hheritage : d.head.isHeritage = true :=
      Bool.and_eq_true_iff.2 ⟨(Bool.and_eq_true_iff.1 hcounts).1, hkind⟩
    exact ((h.inside d hmem).parted.firstNode hnode).mono fun o ho =>
      ⟨d, List.mem_filter.2 ⟨hmem, hheritage⟩, ho⟩
  · exact .nil

theorem classLike (h : Parted src c)
    (hkind : c.head.kind = "class_declaration" ∨ c.head.kind = "class") {placement : Placement}
    (hn : (c.read src).phrase.classLike src placement = .ok n) : n.Ascending c.zone := by
  have horder : inSequence [Head.isHeritage, Head.fills "body"] (c.children.map head) = true := by
    have hclause := (Bool.and_eq_true_iff.1 h.order).2
    rcases hkind with hkind | hkind
    · rw [hkind] at hclause
      exact hclause
    · rw [hkind] at hclause
      exact hclause
  obtain ⟨name, superClass, body, -, hsuper, hclass, rfl⟩ := Phrase.classLike_eq_ok hn
  have hbody : AscendingAll (c.fieldZone "body") body.toList := by
    rcases hclass with rfl | ⟨r, members, hr, hmembers, rfl⟩
    · exact .nil
    · obtain ⟨d, hd, rfl⟩ := h.child hr
      have hall := hd.1.parted.members (fun _ heven _ => classMember heven) hmembers
      refine .singleton (.of_code rfl ?_)
      simpa [Form.codeNodes, Form.childNodes, Form.parts, Part.all, Part.nodes] using hall.mono hd.2
  refine .of_code rfl ?_
  simpa [Form.codeNodes] using h.sequence horder [(Head.isHeritage, superClass.toList),
    (Head.fills "body", body.toList)] (.refl _) (List.forall_mem_cons.2 ⟨h.superClass hsuper,
      List.forall_mem_singleton.2 hbody⟩)

/-! ## Expressions -/

theorem memberExpression (h : Parted src c)
    (hn : (c.read src).phrase.memberExpression field false = .ok n) :
    n.Ascending c.zone := by
  simp only [Phrase.memberExpression, bind_eq_ok, pure_eq_ok] at hn
  obtain ⟨base, hbase, key, _, rfl⟩ := hn
  refine .of_code rfl ?_
  simpa [Form.codeNodes, readKey] using (h.fieldNode hbase).mono (fieldZone_sub c _)

theorem subscriptExpression (h : Parted src c) (hkind : c.head.kind = "subscript_expression")
    (hn : (c.read src).phrase.memberExpression "index" true = .ok n) : n.Ascending c.zone := by
  simp only [Phrase.memberExpression, bind_eq_ok, pure_eq_ok, build_read] at hn
  obtain ⟨base, hbase, key, hkey, rfl⟩ := hn
  exact h.ofFields (h.fields hkind) rfl [("object", base.toList), ("index", key.toList)]
    (by simp [Form.codeNodes, readKey]) (.refl _) (by simp [h.fieldNode hbase, h.fieldNode hkey])

theorem callExpression (h : Parted src c) (hkind : c.head.kind = "call_expression")
    (hn : (c.read src).phrase.callExpression = .ok n) : n.Ascending c.zone := by
  rcases Phrase.callExpression_eq_ok hn with ⟨arguments, harguments, rfl⟩ |
    ⟨tag, quasi, htag, hquasi, rfl⟩ |
    ⟨callee, arguments, optional, hcallee, harguments, rfl⟩
  all_goals rw [build_read]
  · -- Of what is imported dynamically only the first argument is kept.
    refine .of_code rfl ?_
    have hall := (h.nodesIn harguments).mono (fieldZone_sub c _)
    cases hall with
    | nil => exact .nil
    | cons head _ _ sub₁ _ => exact .singleton fun above => (head above).mono sub₁
  · exact h.ofFields (h.fields hkind) rfl [("function", tag.toList), ("arguments", quasi.toList)]
      rfl (.refl _)
      (by simp [h.fieldNode htag, h.fieldNode hquasi])
  · exact h.ofFields (h.fields hkind) rfl [("function", callee.toList), ("arguments", arguments)]
      (by simp [Form.codeNodes, Form.childNodes, Form.parts, Part.all, Part.nodes, Part.flag])
      (.refl _)
      (by simp [h.fieldNode hcallee, h.nodesIn harguments])

theorem newExpression (h : Parted src c) (hkind : c.head.kind = "new_expression")
    (hn : (c.read src).phrase.newExpression = .ok n) : n.Ascending c.zone := by
  simp only [Phrase.newExpression, bind_eq_ok, pure_eq_ok, build_read] at hn
  obtain ⟨callee, hcallee, arguments, harguments, rfl⟩ := hn
  exact h.ofFields (h.fields hkind) rfl [("constructor", callee.toList), ("arguments", arguments)]
    (by simp [Form.codeNodes, Form.childNodes, Form.parts, Part.all, Part.nodes]) (.refl _)
    (by simp [h.fieldNode hcallee, h.nodesIn harguments])

theorem assignmentExpression (h : Parted src c) (horder : c.fieldsInOrder ["left", "right"] = true)
    {plain : Bool} (hn : (c.read src).phrase.assignmentExpression src plain = .ok n) :
    n.Ascending c.zone := by
  obtain ⟨operator, left, right, hleft, hright, rfl⟩ := Phrase.assignmentExpression_eq_ok hn
  rw [build_read]
  exact h.ofFields horder rfl [("left", left.toList), ("right", right.toList)] rfl (.refl _)
    (by simp [h.fieldNode hleft, h.fieldNode hright])

theorem binaryExpression (h : Parted src c) (hkind : c.head.kind = "binary_expression")
    (hn : (c.read src).phrase.binaryExpression src = .ok n) : n.Ascending c.zone := by
  simp only [Phrase.binaryExpression, bind_eq_ok, pure_eq_ok, build_read] at hn
  obtain ⟨operator, _, left, hleft, right, hright, rfl⟩ := hn
  exact h.ofFields (h.fields hkind) rfl [("left", left.toList), ("right", right.toList)]
    rfl (.refl _)
    (by simp [h.fieldNode hleft, h.fieldNode hright])

theorem unaryExpression (h : Parted src c) (hn : (c.read src).phrase.unaryExpression src = .ok n) :
    n.Ascending c.zone := by
  simp only [Phrase.unaryExpression, bind_eq_ok, pure_eq_ok] at hn
  obtain ⟨operator, _, argument, hargument, rfl⟩ := hn
  refine .of_code rfl ?_
  simpa [Form.codeNodes, Form.childNodes, Form.parts, Part.nodes, Part.text] using
    (h.fieldNode hargument).mono (fieldZone_sub c _)

theorem updateExpression (h : Parted src c)
    (hn : (c.read src).phrase.updateExpression src = .ok n) :
    n.Ascending c.zone := by
  simp only [Phrase.updateExpression, bind_eq_ok, pure_eq_ok] at hn
  obtain ⟨operator, _, argument, hargument, rfl⟩ := hn
  refine .of_code rfl ?_
  simpa [Form.codeNodes, Form.childNodes, Form.parts, Part.nodes, Part.text, Part.flag] using
    (h.fieldNode hargument).mono (fieldZone_sub c _)

theorem conditionalExpression (h : Parted src c) (hkind : c.head.kind = "ternary_expression")
    (hn : (c.read src).phrase.conditionalExpression = .ok n) : n.Ascending c.zone := by
  simp only [Phrase.conditionalExpression, bind_eq_ok, pure_eq_ok, build_read] at hn
  obtain ⟨test, htest, consequent, hconsequent, alternate, halternate, rfl⟩ := hn
  exact h.ofFields (h.fields hkind) rfl
    [("condition", test.toList), ("consequence", consequent.toList),
      ("alternative", alternate.toList)] rfl (.refl _)
    (by simp [h.fieldNode htest, h.fieldNode hconsequent, h.fieldNode halternate])

end Parted

mutual

/-- The operands of a nested sequence are trees in it, in a row. -/
theorem operands_read :
    ∀ c : Concrete, Even src c → ∃ ds, (c.read src).operands = ds.map (·.read src) ∧ Row src ds ∧
    ∀ d ∈ ds, ∀ h ∈ d.heads, h ∈ c.heads
  | .mk head children, heven => by
    rw [read, Reading.operands, ← read]
    split
    · obtain ⟨ds, hds, hrow, hsub⟩ := operandsOf_read children heven.parted.wholeRow
      refine ⟨ds, ?_, hrow, fun d hd h hh => ?_⟩
      · rw [readAll_eq_map, hds]
      · rw [heads]
        exact .tail _ (hsub d hd h hh)
    · exact ⟨[.mk head children], rfl,
        ⟨List.forall_mem_singleton.2 heven, List.pairwise_singleton _ _⟩,
          List.forall_mem_singleton.2 fun _ => id⟩

theorem operandsOf_read :
    ∀ cs : List Concrete, Row src cs → ∃ ds, Reading.operandsOf (cs.map (·.read src)) =
    ds.map (·.read src) ∧ Row src ds ∧ ∀ d ∈ ds, ∀ h ∈ d.heads, h ∈ headsOf cs
  | [], _ => ⟨[], rfl, ⟨List.forall_mem_nil _, .nil⟩, List.forall_mem_nil _⟩
  | c :: cs, hrow => by
    obtain ⟨ds, hds, hrest, hsub⟩ := operandsOf_read cs (hrow.sublist (List.sublist_cons_self c cs))
    rw [List.map_cons, Reading.operandsOf, hds]
    split
    · obtain ⟨es, hes, hfirst, hsub'⟩ := operands_read c (hrow.even c (.head _))
      -- The operands in `c` come before those in the trees after it, which all come after `c`.
      refine ⟨es ++ ds, ?_, ⟨?_, ?_⟩, ?_⟩
      · rw [hes, List.map_append]
      · exact List.forall_mem_append.2 ⟨hfirst.even, hrest.even⟩
      · refine List.pairwise_append.2
          ⟨hfirst.ordered, hrest.ordered, fun e he d hd => before_iff.2 ?_⟩
        intro h hh h' hh'
        obtain ⟨c', hc', hin⟩ := mem_headsOf.1 (hsub d hd h' hh')
        exact before_iff.1 (List.rel_of_pairwise_cons hrow.ordered hc') h (hsub' e he h hh) h' hin
      · rw [headsOf]
        exact List.forall_mem_append.2 ⟨fun e he h hh => List.mem_append_left _ (hsub' e he h hh),
          fun d hd h hh => List.mem_append_right _ (hsub d hd h hh)⟩
    · refine ⟨ds, rfl, hrest, fun d hd h hh => ?_⟩
      rw [headsOf]
      exact List.mem_append_right _ (hsub d hd h hh)

end

namespace Parted

theorem sequenceExpression (h : Parted src c)
    (hn : (c.read src).phrase.sequenceExpression = .ok n) :
    n.Ascending c.zone := by
  obtain ⟨head, children⟩ := c
  simp only [Phrase.sequenceExpression, bind_eq_ok, pure_eq_ok, phrase_read] at hn
  obtain ⟨ds, hds, hrow, hsub⟩ := operandsOf_read children h.wholeRow
  obtain ⟨operands, hoperands, rfl⟩ := hn
  rw [show (Concrete.mk head children).children = children from rfl, hds] at hoperands
  refine .of_code rfl ?_
  have hzone : (zones ds).Sub (zone (.mk head children)) := by
    rintro o ⟨d, hd, ho⟩
    refine zone_sub (fun x hx => ?_) o ho
    rw [heads]
    exact .tail _ (hsub d hd x hx)
  simpa [Form.codeNodes, Form.childNodes, Form.parts, Part.all, Part.nodes]
    using (hrow.nodesOf hoperands).mono hzone

theorem yieldExpression (h : Parted src c) (hn : (c.read src).phrase.yieldExpression = .ok n) :
    n.Ascending c.zone := by
  simp only [Phrase.yieldExpression, bind_eq_ok, pure_eq_ok] at hn
  obtain ⟨argument, hargument, rfl⟩ := hn
  refine .of_code rfl ?_
  simpa [Form.codeNodes, Form.childNodes, Form.parts, Part.nodes, Part.flag]
    using h.firstNode hargument

/-! ## Objects and patterns -/

theorem identifier (h : Parted src c) (hkind : Phrase.identifierKinds.contains c.head.kind = true)
    (hn : (c.read src).phrase.identifier src = .ok n) : n.Ascending c.zone := by
  have hsharp := (Bool.and_eq_true_iff.1 h.sharp).1
  rw [hkind, Bool.not_true, Bool.false_or, decide_eq_true_eq] at hsharp
  obtain ⟨name, _, rfl⟩ := identifier_read.1 hn
  exact .identifier (zone_head hsharp)

theorem pairProperty (h : Parted src c) (horder : c.fieldsInOrder ["key", "value"] = true)
    (hn : (c.read src).phrase.pairProperty src = .ok n) : n.Ascending c.zone := by
  simp only [Phrase.pairProperty, bind_eq_ok, pure_eq_ok, build_read] at hn
  obtain ⟨⟨key, computed⟩, hkey, value, hvalue, rfl⟩ := hn
  exact h.ofFields horder rfl [("key", (readKey computed key).toList), ("value", value.toList)]
    (by simp [Form.codeNodes]) (.refl _) (by simp [h.propertyKey hkey, h.fieldNode hvalue])

theorem shorthandProperty (h : Parted src c)
    (hkind : Phrase.identifierKinds.contains c.head.kind = true)
    (hn : (c.read src).phrase.shorthandProperty src = .ok n) : n.Ascending c.zone := by
  simp only [Phrase.shorthandProperty, bind_eq_ok, pure_eq_ok] at hn
  obtain ⟨name, hname, rfl⟩ := hn
  exact .of_code rfl (.singleton (h.identifier hkind hname))

theorem methodProperty (h : Parted src c) (hkind : c.head.kind = "method_definition")
    (hn : (c.read src).phrase.methodProperty src = .ok n) : n.Ascending c.zone := by
  simp only [Phrase.methodProperty, bind_eq_ok, pure_eq_ok] at hn
  obtain ⟨⟨key, computed⟩, hkey, kind, _, value, hvalue, rfl⟩ := hn
  exact .of_code rfl (h.methodParts hkind hkey hvalue)

theorem defaultProperty (h : Parted src c) (hkind : c.head.kind = "object_assignment_pattern")
    (hn : (c.read src).phrase.defaultProperty src = .ok n) : n.Ascending c.zone := by
  obtain ⟨left, right, key, hleft, hright, -, rfl⟩ := Phrase.defaultProperty_eq_ok hn
  simp only [build_read]
  refine .of_code rfl (.singleton ?_)
  exact h.ofFields (h.fields hkind) rfl [("left", left.toList), ("right", right.toList)]
    rfl (.refl _)
    (by simp [h.fieldNode hleft, h.fieldNode hright])

theorem objectMember (h : Even src c) (hn : Phrase.objectMember src (c.read src) = .ok (some n)) :
    n.Ascending c.zone := by
  have hways := Phrase.objectMember_eq_ok hn
  rw [kind_read] at hways
  rcases hways with ⟨hkind, hn⟩ | ⟨hkind, hn⟩ | ⟨hkind, hn⟩ | hn
  · exact h.parted.pairProperty (h.parted.fields hkind) hn
  · exact h.parted.shorthandProperty (by rw [hkind]; decide) hn
  · exact h.parted.methodProperty hkind hn
  · exact (h.ascendingAll hn).ascending

theorem patternMember (h : Even src c) (hn : Phrase.patternMember src (c.read src) = .ok (some n)) :
    n.Ascending c.zone := by
  have hways := Phrase.patternMember_eq_ok hn
  rw [kind_read] at hways
  rcases hways with ⟨hkind, hn⟩ | ⟨hkind, hn⟩ | ⟨hkind, hn⟩ | hn
  · exact h.parted.pairProperty (h.parted.fields hkind) hn
  · exact h.parted.shorthandProperty (by rw [hkind]; decide) hn
  · exact h.parted.defaultProperty hkind hn
  · exact (h.ascendingAll hn).ascending

theorem objectExpression (h : Parted src c)
    (hn : (c.read src).phrase.objectExpression src = .ok n) :
    n.Ascending c.zone := by
  simp only [Phrase.objectExpression, bind_eq_ok, pure_eq_ok] at hn
  obtain ⟨members, hmembers, rfl⟩ := hn
  refine .of_code rfl ?_
  simpa [Form.codeNodes, Form.childNodes, Form.parts, Part.all, Part.nodes] using
    h.members (fun _ heven _ => objectMember heven) hmembers

theorem objectPattern (h : Parted src c) (hn : (c.read src).phrase.objectPattern src = .ok n) :
    n.Ascending c.zone := by
  simp only [Phrase.objectPattern, bind_eq_ok, pure_eq_ok] at hn
  obtain ⟨members, hmembers, rfl⟩ := hn
  refine .of_code rfl ?_
  simpa [Form.codeNodes, Form.childNodes, Form.parts, Part.all, Part.nodes] using
    h.members (fun _ heven _ => patternMember heven) hmembers

theorem assignmentPattern (h : Parted src c) (hkind : c.head.kind = "assignment_pattern")
    (hn : (c.read src).phrase.assignmentPattern = .ok n) : n.Ascending c.zone := by
  simp only [Phrase.assignmentPattern, bind_eq_ok, pure_eq_ok, build_read] at hn
  obtain ⟨left, hleft, right, hright, rfl⟩ := hn
  exact h.ofFields (h.fields hkind) rfl [("left", left.toList), ("right", right.toList)]
    rfl (.refl _)
    (by simp [h.fieldNode hleft, h.fieldNode hright])

/-! ## Templates -/

/-- What stands in the substitutions of a template stands in a row. -/
theorem contents (h : Parted src c) : Row src (c.substitutions.filterMap content?) ∧
    (zones (c.substitutions.filterMap content?)).Sub c.zone := by
  have hinside : ∀ d ∈ c.substitutions, ∀ e, d.content? = some e → e ∈ d.children :=
    fun d _ e he => List.mem_of_find?_eq_some he
  have hchild : ∀ d ∈ c.substitutions, d ∈ c.children := fun d hd => (List.mem_filter.1 hd).1
  refine ⟨⟨fun e he => ?_, ?_⟩, ?_⟩
  · obtain ⟨d, hd, he⟩ := List.mem_filterMap.1 he
    exact (h.inside d (hchild d hd)).parted.inside e (hinside d hd e he)
  · refine List.pairwise_filterMap.2 ?_
    refine (h.row.sublist List.filter_sublist).imp_of_mem fun {d d'} hd hd' hbefore e he e' he' =>
      before_iff.2 ?_
    exact fun x hx x' hx' =>
      before_iff.1 hbefore x (heads_of_mem (hinside d hd e he) hx) x'
        (heads_of_mem (hinside d' hd' e' he') hx')
  · rintro o ⟨e, he, ho⟩
    obtain ⟨d, hd, he⟩ := List.mem_filterMap.1 he
    exact zone_sub_of_mem (hchild d hd) o (zone_sub_of_mem (hinside d hd e he) o ho)

theorem template (h : Parted src c) (hn : (c.read src).phrase.template src = .ok n) :
    n.Ascending c.zone := by
  simp only [Phrase.template, phrase_read, filter_read, bind_eq_ok, pure_eq_ok, Phrase.build,
    Phrase.span] at hn
  obtain ⟨⟨texts, expressions⟩, hfrom, rfl⟩ := hn
  obtain ⟨hrow, hsub⟩ := h.contents
  have hexpressions := (hrow.options (fun d _ heven n hn => (heven.ascendingAll hn).ascending)
    (mapM_of_forall₂ (List.forall₂_map_left_iff.2
      (consists_of_templateFrom hfrom).expressions))).mono hsub
  refine .of_code rfl ?_
  -- The texts read nothing, so they stand in no zone, which lies before every other.
  have htexts : AscendingAll Zone.none
      (texts.map fun t => Node.mk c.head.span (.templateElement t)) := by
    clear hfrom
    induction texts with
    | nil => exact .nil
    | cons t ts ih =>
      exact .cons (.silent fun _ => rfl) ih (fun _ _ ho => ho.elim) (.refl _) (.refl _)
  simpa [Form.codeNodes, Form.childNodes, Form.parts, Part.all, Part.nodes] using
    htexts.append hexpressions (fun _ _ ho => ho.elim) (Zone.none_sub _) (.refl _)

/-! ## Modules -/

theorem exportSpecifier (h : Parted src c) (hkind : c.head.kind = "export_specifier")
    (hn : (c.read src).phrase.exportSpecifier src = .ok n) :
    AscendingAll c.zone n.binding?.toList := by
  have hsharp := (Bool.and_eq_true_iff.1 h.sharp).2
  simp only [hkind, bne_self_eq_false, Bool.false_or] at hsharp
  simp only [Phrase.exportSpecifier, child?_read, bind_eq_ok, pure_eq_ok] at hn
  obtain ⟨binding, hbinding, exported, _, rfl⟩ := hn
  cases hd : c.field? "name" with
  | none =>
    rw [hd] at hbinding
    cases hbinding
  | some d =>
    rw [hd, Option.map_some, moduleName_read, Names] at hbinding
    rw [hd, Option.all_some, decide_eq_true_eq] at hsharp
    refine .singleton ?_
    split at hbinding
    · obtain ⟨_, _, _, _, rfl⟩ := hbinding
      exact .silent fun _ => rfl
    · obtain ⟨_, _, rfl⟩ := hbinding
      exact .identifier (zone_sub_of_mem (mem_of_field? hd) _ (zone_head hsharp))

theorem exportClause (h : Parted src c) {source : Option Node}
    (hn : (c.read src).phrase.exportClause src source = .ok n) : n.Ascending c.zone := by
  rcases Phrase.exportClause_eq_ok hn with ⟨name, -, rfl⟩ |
    ⟨clause, hclause, specifiers, hspecifiers, rfl⟩
  · exact .of_code rfl .nil
  · rw [named_read] at hclause
    obtain ⟨d, hd, rfl⟩ := List.mem_map.1 hclause
    rw [named_of_kind_read] at hspecifiers
    have hmem := (List.mem_filter.1 hd).1
    have hsublist : (d.membersOf "export_specifier").Sublist d.children :=
      List.filter_sublist.trans List.filter_sublist
    have hall := (((h.inside d hmem).parted.wholeRow.sublist hsublist).ascendingAll
      (fun e he heven n => heven.parted.exportSpecifier (beq_iff_eq.1 (List.mem_filter.1 he).2))
      hspecifiers).mono ((zones_sub hsublist).trans (zone_sub_of_mem hmem))
    refine .of_code rfl ?_
    rw [Form.codeNodes]
    split
    · -- What is exported from another module is no variable of this one.
      exact .nil
    · rwa [Option.toList_none, List.nil_append, List.filterMap_eq_flatMap_toList]

theorem exportDeclaration (h : Parted src c)
    (hn : (c.read src).phrase.exportDeclaration src = .ok n) :
    n.Ascending c.zone := by
  rcases Phrase.exportDeclaration_eq_ok hn with ⟨field, declaration, hdeclaration, rfl⟩ |
    ⟨declaration, hdeclaration, rfl⟩ | ⟨source, -, hn⟩
  · refine .of_code rfl ?_
    simpa [Form.codeNodes, Form.childNodes, Form.parts, Part.nodes] using
      (h.fieldNode hdeclaration).mono (fieldZone_sub c _)
  · refine .of_code rfl ?_
    simpa [Form.codeNodes] using (h.fieldNode hdeclaration).mono (fieldZone_sub c _)
  · exact h.exportClause hn

/-! ## All kinds of nodes -/

theorem otherNode (h : Parted src c) (hn : (c.read src).phrase.otherNode src = .ok n) :
    n.Ascending c.zone := by
  simp only [Phrase.otherNode, bind_eq_ok, pure_eq_ok] at hn
  obtain ⟨children, hchildren, rfl⟩ := hn
  refine .of_code rfl ?_
  have hall := h.members (fun d heven n hn => ?_) hchildren
  · simpa [Form.codeNodes, Form.childNodes, Form.parts, Part.all, Part.nodes] using hall
  · split at hn
    · simp only [bind_eq_ok, pure_eq_ok, Option.some.injEq] at hn
      obtain ⟨_, _, rfl⟩ := hn
      exact .silent fun _ => rfl
    · exact (heven.ascendingAll hn).ascending

theorem readNode (h : Parted src c) (hn : (c.read src).phrase.readNode src = .ok n) :
    n.Ascending c.zone := by
  unfold Phrase.readNode at hn
  rw [Phrase.kind, head_phrase_read] at hn
  split at hn
  · simp only [Phrase.program, bind_eq_ok, pure_eq_ok] at hn
    obtain ⟨body, hbody, rfl⟩ := hn
    refine .of_code rfl ?_
    simpa [Form.codeNodes, Form.childNodes, Form.parts, Part.all, Part.nodes, Part.text]
      using h.nodes hbody
  · exact h.ofFirst (fun _ => rfl)
      (by simp [Form.codeNodes, Form.childNodes, Form.parts, Part.nodes]) hn
  · exact Except.ok.inj hn ▸ .silent fun _ => rfl
  · exact Except.ok.inj hn ▸ .silent fun _ => rfl
  · simp only [bind_eq_ok, pure_eq_ok] at hn
    obtain ⟨nodes, hnodes, rfl⟩ := hn
    refine .of_code rfl ?_
    simpa [Form.codeNodes, Form.childNodes, Form.parts, Part.all, Part.nodes] using h.nodes hnodes
  · exact h.ifStatement ‹_› hn
  · exact h.forStatement ‹_› hn
  · exact h.forEachStatement ‹_› hn
  · exact h.whileStatement ‹_› hn
  · exact h.doStatement ‹_› hn
  · exact h.tryStatement ‹_› hn
  · exact h.switchStatement ‹_› hn
  · exact h.ofFirst (fun _ => rfl)
      (by simp [Form.codeNodes, Form.childNodes, Form.parts, Part.nodes]) hn
  · exact h.ofFirst (fun _ => rfl)
      (by simp [Form.codeNodes, Form.childNodes, Form.parts, Part.nodes]) hn
  · exact h.labeledStatement hn
  iterate 2
    simp only [Phrase.jumpStatement, bind_eq_ok, pure_eq_ok] at hn
    obtain ⟨_, _, rfl⟩ := hn
    exact .of_code rfl .nil
  · exact h.variableDeclaration hn
  · exact h.variableDeclaration hn
  · exact h.variableDeclarator ‹_› hn
  iterate 5
    rename_i hkind
    exact h.functionLike (h.fields hkind) hn
  · exact h.arrowFunction ‹_› hn
  · exact h.classLike (.inl ‹_›) hn
  · exact h.classLike (.inr ‹_›) hn
  · simp only [Phrase.importDeclaration, bind_eq_ok, pure_eq_ok] at hn
    obtain ⟨_, _, _, _, rfl⟩ := hn
    exact .of_code rfl .nil
  · exact h.exportDeclaration hn
  iterate 6
    rename_i hkind
    exact h.identifier (by rw [hkind]; decide) hn
  · simp only [Phrase.privateName, bind_eq_ok, pure_eq_ok] at hn
    obtain ⟨_, _, rfl⟩ := hn
    exact .silent fun _ => rfl
  · exact Except.ok.inj hn ▸ .silent fun _ => rfl
  · exact Except.ok.inj hn ▸ .silent fun _ => rfl
  · simp only [Phrase.stringLiteral, bind_eq_ok, pure_eq_ok] at hn
    obtain ⟨_, _, _, _, rfl⟩ := hn
    exact .silent fun _ => rfl
  · simp only [Phrase.numberLiteral, bind_eq_ok, pure_eq_ok] at hn
    obtain ⟨_, _, _, _, rfl⟩ := hn
    exact .silent fun _ => rfl
  · exact Except.ok.inj hn ▸ .silent fun _ => rfl
  · exact Except.ok.inj hn ▸ .silent fun _ => rfl
  · exact Except.ok.inj hn ▸ .silent fun _ => rfl
  · simp only [Phrase.regexLiteral, bind_eq_ok, pure_eq_ok] at hn
    obtain ⟨_, _, _, _, _, _, rfl⟩ := hn
    exact .silent fun _ => rfl
  · exact h.template hn
  · exact h.memberExpression hn
  · exact h.subscriptExpression ‹_› hn
  · exact h.callExpression ‹_› hn
  · exact h.newExpression ‹_› hn
  iterate 2
    rename_i hkind
    exact h.assignmentExpression (h.fields hkind) hn
  · exact h.binaryExpression ‹_› hn
  · exact h.unaryExpression hn
  · exact h.updateExpression hn
  · exact h.conditionalExpression ‹_› hn
  · exact h.sequenceExpression hn
  · exact h.ofFirst (fun _ => rfl)
      (by simp [Form.codeNodes, Form.childNodes, Form.parts, Part.nodes]) hn
  · exact h.yieldExpression hn
  · exact h.ofFirst (fun _ => rfl)
      (by simp [Form.codeNodes, Form.childNodes, Form.parts, Part.nodes]) hn
  · simp only [bind_eq_ok, pure_eq_ok] at hn
    obtain ⟨nodes, hnodes, rfl⟩ := hn
    refine .of_code rfl ?_
    simpa [Form.codeNodes, Form.childNodes, Form.parts, Part.all, Part.nodes] using h.nodes hnodes
  · exact h.objectExpression hn
  · exact h.objectPattern hn
  · simp only [bind_eq_ok, pure_eq_ok] at hn
    obtain ⟨nodes, hnodes, rfl⟩ := hn
    refine .of_code rfl ?_
    simpa [Form.codeNodes, Form.childNodes, Form.parts, Part.all, Part.nodes] using h.nodes hnodes
  · exact h.assignmentPattern ‹_› hn
  · exact h.ofFirst (fun _ => rfl)
      (by simp [Form.codeNodes, Form.childNodes, Form.parts, Part.nodes]) hn
  · exact h.otherNode hn

theorem read (h : Parted src c) (hn : (c.read src).node = .ok (some n)) : n.Ascending c.zone := by
  have hrule : (c.read src).node = (c.read src).phrase.read src := by
    obtain ⟨head, children⟩ := c
    rw [Concrete.read]
    rfl
  rw [hrule, Phrase.read] at hn
  split at hn
  · cases hn
  · split at hn
    · exact (h.firstNode hn).ascending
    · simp only [bind_eq_ok, pure_eq_ok, Option.some.injEq, exists_eq_right] at hn
      exact h.readNode hn

end Parted

mutual

/-- Every node of a tree in source order reads in ascending order. -/
theorem even_of_inSourceOrder : ∀ c : Concrete, c.inSourceOrder = true → Even src c
  | .mk head children, h => by
    rw [inSourceOrder, Bool.and_eq_true] at h
    have inside := even_of_inSourceOrderAll children h.2
    exact .mk h.1 inside fun n hn => (parted_of_isOrderly h.1 inside).read hn

theorem even_of_inSourceOrderAll :
    ∀ cs : List Concrete, inSourceOrderAll cs = true → ∀ c ∈ cs, Even src c
  | [], _ => List.forall_mem_nil _
  | c :: cs, h => by
    rw [inSourceOrderAll, Bool.and_eq_true] at h
    exact List.forall_mem_cons.2 ⟨even_of_inSourceOrder c h.1, even_of_inSourceOrderAll cs h.2⟩

end

end Concrete

/-! ## Reads of a scope graph -/

namespace ScopeGraph

variable {program : Node} {g : ScopeGraph}

end ScopeGraph

namespace Tracer

variable {ι : Type} {t : Tracer} {x : VariableId}

end Tracer

end ApiTrace
