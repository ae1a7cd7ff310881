import ApiTrace.Proofs.Outcome
import ApiTrace.Syntax.Program

/-!
# Rules that go several ways

What a rule has read when it succeeds, for the rules that go several ways. Everything that is proved
of all nodes that are read asks this of the same rules, so it is said once for each.
-/

namespace ApiTrace.Phrase

variable {p : Phrase} {r : Reading} {src : Source} {n : Node} {o : Option Node}

theorem loopPart_eq_ok {part : Option Reading} (ho : loopPart part = .ok o) :
    o = none ∨ ∃ r, part = some r ∧ (r.phrase.firstNode = .ok o ∨ r.node = .ok o) := by
  unfold loopPart at ho
  split at ho
  · exact .inl (Except.ok.inj ho).symm
  · rename_i r
    split at ho
    · exact .inl (Except.ok.inj ho).symm
    · split at ho
      · exact .inr ⟨r, rfl, .inl ho⟩
      · exact .inr ⟨r, rfl, .inr ho⟩

/-- The variable of a loop, which a keyword before it declares. -/
theorem loopVariable_eq_ok (ho : p.loopVariable = .ok o) : p.fieldNode "left" = .ok o ∨
    ∃ keyword left target, p.child? "kind" = some keyword ∧ p.child? "left" = some left ∧
    left.node = .ok target ∧
      o = some (.mk (keyword.span.between left.span)
        (.variableDeclaration keyword.kind [.mk left.span (.variableDeclarator target none)])) := by
  unfold loopVariable at ho
  split at ho
  · exact .inl ho
  · cases ho
  · rename_i keyword left hkeyword hleft
    simp only [bind_eq_ok, pure_eq_ok] at ho
    obtain ⟨target, htarget, rfl⟩ := ho
    exact .inr ⟨keyword, left, target, hkeyword, hleft, htarget, rfl⟩

/-- A key is computed, a plain name, or what stands there. -/
theorem propertyKey_eq_ok {name : Option Reading} {key : Option Node} {computed : Bool}
    (h : propertyKey src name = .ok (key, computed)) :
    key = none ∧ computed = false ∨ ∃ r, name = some r ∧
      (r.kind = "computed_property_name" ∧ computed = true ∧ r.phrase.firstNode = .ok key ∨
        computed = false ∧ ((∃ id, r.phrase.identifier src = .ok id ∧ key = some id) ∨
          r.node = .ok key)) := by
  unfold propertyKey at h
  split at h
  · cases h
    exact .inl ⟨rfl, rfl⟩
  · rename_i r
    refine .inr ⟨r, rfl, ?_⟩
    split at h
    · rename_i hkind
      simp only [bind_eq_ok, pure_eq_ok, Prod.mk.injEq] at h
      obtain ⟨_, hkey, rfl, rfl⟩ := h
      exact .inl ⟨beq_iff_eq.1 hkind, rfl, hkey⟩
    · split at h
      · simp only [bind_eq_ok, pure_eq_ok, Prod.mk.injEq] at h
        obtain ⟨id, hid, rfl, rfl⟩ := h
        exact .inr ⟨rfl, .inl ⟨id, hid, rfl⟩⟩
      · simp only [bind_eq_ok, pure_eq_ok, Prod.mk.injEq] at h
        obtain ⟨_, hkey, rfl, rfl⟩ := h
        exact .inr ⟨rfl, .inr hkey⟩

theorem switchStatement_eq_ok (hn : p.switchStatement = .ok n) :
    ∃ discriminant cases, p.fieldNode "value" = .ok discriminant ∧
    (cases = [] ∨ ∃ body, p.child? "body" = some body ∧
        body.phrase.named.mapM (fun r => r.phrase.switchCase) = .ok cases) ∧
      n = p.build (.switch discriminant cases) := by
  unfold switchStatement at hn
  split at hn
  · rename_i body hbody
    simp only [bind_eq_ok, pure_eq_ok] at hn
    obtain ⟨cases, hcases, discriminant, hdiscriminant, rfl⟩ := hn
    exact ⟨discriminant, cases, hdiscriminant, .inr ⟨body, hbody, hcases⟩, rfl⟩
  · simp only [bind_eq_ok, pure_eq_ok] at hn
    obtain ⟨_, rfl, discriminant, hdiscriminant, rfl⟩ := hn
    exact ⟨discriminant, [], hdiscriminant, .inl rfl, rfl⟩

/-- An arrow function has one parameter without parentheses, or a list. -/
theorem arrowFunction_eq_ok (hn : p.arrowFunction = .ok n) :
    ∃ params body isExpression isAsync, p.fieldNode "body" = .ok body ∧
      ((∃ param, p.fieldNode "parameter" = .ok param ∧ params.filterMap id = param.toList) ∨
        nodesIn (p.child? "parameters") = .ok (params.filterMap id)) ∧
      n = p.build (.arrowFunction params body isExpression isAsync) := by
  cases hsingle : p.child? "parameter" with
  | some single =>
    simp only [arrowFunction, hsingle, bind_eq_ok, pure_eq_ok] at hn
    obtain ⟨param, hparam, _, rfl, body, hbody, rfl⟩ := hn
    exact ⟨_, body, _, _, hbody, .inl ⟨param, by rwa [fieldNode, hsingle], by cases param <;> rfl⟩,
      rfl⟩
  | none =>
    simp only [arrowFunction, hsingle, bind_eq_ok, pure_eq_ok] at hn
    obtain ⟨params, hparams, _, rfl, body, hbody, rfl⟩ := hn
    exact ⟨_, body, _, _, hbody, .inr (by simpa using hparams), rfl⟩

/-- A member of a class is a method, a field, a static initializer, or what stands there. -/
theorem classMember_eq_ok (hn : classMember src r = .ok (some n)) :
    (∃ key computed value kind isStatic, r.kind = "method_definition" ∧
      propertyKey src (r.phrase.child? "name") = .ok (key, computed) ∧
      r.phrase.methodFunction = .ok value ∧
      n = r.phrase.build (.method key computed (some value) kind isStatic)) ∨
    (∃ key computed value isStatic, r.kind = "field_definition" ∧
      propertyKey src (r.phrase.child? "property") = .ok (key, computed) ∧
      r.phrase.fieldNode "value" = .ok value ∧
      n = r.phrase.build (.field key computed value isStatic)) ∨
    (∃ body, r.phrase.fieldNode "body" = .ok body ∧ n = r.phrase.build (.staticBlock body)) ∨
    r.node = .ok (some n) := by
  unfold classMember at hn
  split at hn
  all_goals try simp only [bind_eq_ok, pure_eq_ok, Option.some.injEq] at hn
  · obtain ⟨⟨key, computed⟩, hkey, value, hvalue, kind, -, rfl⟩ := hn
    exact .inl ⟨key, computed, value, kind, _, ‹_›, hkey, hvalue, rfl⟩
  · obtain ⟨⟨key, computed⟩, hkey, value, hvalue, rfl⟩ := hn
    exact .inr (.inl ⟨key, computed, value, _, ‹_›, hkey, hvalue, rfl⟩)
  · obtain ⟨body, hbody, rfl⟩ := hn
    exact .inr (.inr (.inl ⟨body, hbody, rfl⟩))
  · exact .inr (.inr (.inr hn))

theorem classLike_eq_ok {placement : Placement} (hn : p.classLike src placement = .ok n) :
    ∃ name superClass body, p.fieldNode "name" = .ok name ∧ p.superClass = .ok superClass ∧
      (body = none ∨ ∃ r members, p.child? "body" = some r ∧
        r.phrase.named.mapM (classMember src) = .ok members ∧
        body = some (r.phrase.build (.classBody (members.filterMap id)))) ∧
      n = p.build (.classLike placement name superClass body) := by
  simp only [classLike, bind_eq_ok] at hn
  obtain ⟨superClass, hsuper, hn⟩ := hn
  split at hn
  · simp only [bind_eq_ok, pure_eq_ok] at hn
    obtain ⟨_, rfl, name, hname, rfl⟩ := hn
    exact ⟨name, superClass, none, hname, hsuper, .inl rfl, rfl⟩
  · rename_i r hr
    simp only [bind_eq_ok, pure_eq_ok] at hn
    obtain ⟨members, hmembers, _, rfl, name, hname, rfl⟩ := hn
    exact ⟨name, superClass, _, hname, hsuper, .inr ⟨r, members, hr, hmembers, rfl⟩, rfl⟩

theorem callExpression_eq_ok (hn : p.callExpression = .ok n) :
    (∃ arguments, nodesIn (p.child? "arguments") = .ok arguments ∧
      n = p.build (.importCall arguments.head?)) ∨
    (∃ tag quasi, p.fieldNode "function" = .ok tag ∧ p.fieldNode "arguments" = .ok quasi ∧
      n = p.build (.taggedTemplate tag quasi)) ∨
    ∃ callee arguments optional, p.fieldNode "function" = .ok callee ∧
      nodesIn (p.child? "arguments") = .ok arguments ∧
        n = p.build (.call callee arguments optional) := by
  simp only [callExpression] at hn
  split at hn
  · simp only [bind_eq_ok, pure_eq_ok] at hn
    obtain ⟨arguments, harguments, rfl⟩ := hn
    exact .inl ⟨arguments, harguments, rfl⟩
  · split at hn
    · simp only [bind_eq_ok, pure_eq_ok] at hn
      obtain ⟨tag, htag, quasi, hquasi, rfl⟩ := hn
      exact .inr (.inl ⟨tag, quasi, htag, hquasi, rfl⟩)
    · simp only [bind_eq_ok, pure_eq_ok] at hn
      obtain ⟨callee, hcallee, arguments, harguments, rfl⟩ := hn
      exact .inr (.inr ⟨callee, arguments, _, hcallee, harguments, rfl⟩)

theorem assignmentExpression_eq_ok {plain : Bool} (hn : p.assignmentExpression src plain = .ok n) :
    ∃ operator left right, p.fieldNode "left" = .ok left ∧ p.fieldNode "right" = .ok right ∧
      n = p.build (.assignment operator left right) := by
  cases plain with
  | true =>
    simp only [assignmentExpression, if_true, bind_eq_ok, pure_eq_ok] at hn
    obtain ⟨operator, _, left, hleft, right, hright, rfl⟩ := hn
    exact ⟨operator, left, right, hleft, hright, rfl⟩
  | false =>
    simp only [assignmentExpression, Bool.false_eq_true, if_false, bind_eq_ok, pure_eq_ok] at hn
    obtain ⟨operator, _, left, hleft, right, hright, rfl⟩ := hn
    exact ⟨operator, left, right, hleft, hright, rfl⟩

theorem objectMember_eq_ok (hn : objectMember src r = .ok (some n)) :
    r.kind = "pair" ∧ r.phrase.pairProperty src = .ok n ∨
    r.kind = "shorthand_property_identifier" ∧ r.phrase.shorthandProperty src = .ok n ∨
    r.kind = "method_definition" ∧ r.phrase.methodProperty src = .ok n ∨ r.node = .ok (some n) := by
  unfold objectMember at hn
  split at hn
  all_goals try simp only [bind_eq_ok, pure_eq_ok, Option.some.injEq, exists_eq_right] at hn
  · exact .inl ⟨‹_›, hn⟩
  · exact .inr (.inl ⟨‹_›, hn⟩)
  · exact .inr (.inr (.inl ⟨‹_›, hn⟩))
  · exact .inr (.inr (.inr hn))

theorem patternMember_eq_ok (hn : patternMember src r = .ok (some n)) :
    r.kind = "pair_pattern" ∧ r.phrase.pairProperty src = .ok n ∨
    r.kind = "shorthand_property_identifier_pattern" ∧ r.phrase.shorthandProperty src = .ok n ∨
    r.kind = "object_assignment_pattern" ∧ r.phrase.defaultProperty src = .ok n ∨
    r.node = .ok (some n) := by
  unfold patternMember at hn
  split at hn
  all_goals try simp only [bind_eq_ok, pure_eq_ok, Option.some.injEq, exists_eq_right] at hn
  · exact .inl ⟨‹_›, hn⟩
  · exact .inr (.inl ⟨‹_›, hn⟩)
  · exact .inr (.inr (.inl ⟨‹_›, hn⟩))
  · exact .inr (.inr (.inr hn))

theorem defaultProperty_eq_ok (hn : p.defaultProperty src = .ok n) :
    ∃ left right key, p.fieldNode "left" = .ok left ∧ p.fieldNode "right" = .ok right ∧
      (key = none ∨ ∃ r id, p.child? "left" = some r ∧ r.phrase.identifier src = .ok id ∧
        key = some id) ∧
      n = p.build (.property key (some (p.build (.assignmentPattern left right))) false true false
        .init) := by
  simp only [defaultProperty, bind_eq_ok] at hn
  obtain ⟨left, hleft, right, hright, hn⟩ := hn
  split at hn
  · rename_i r hr
    split at hn
    · simp only [bind_eq_ok, pure_eq_ok] at hn
      obtain ⟨id, hid, _, rfl, rfl⟩ := hn
      exact ⟨left, right, some id, hleft, hright, .inr ⟨r, id, hr, hid, rfl⟩, rfl⟩
    · simp only [bind_eq_ok, pure_eq_ok] at hn
      obtain ⟨_, rfl, rfl⟩ := hn
      exact ⟨left, right, none, hleft, hright, .inl rfl, rfl⟩
  · simp only [bind_eq_ok, pure_eq_ok] at hn
    obtain ⟨_, rfl, rfl⟩ := hn
    exact ⟨left, right, none, hleft, hright, .inl rfl, rfl⟩

/-- A substitution of a template gives the text before it and, unless it is empty, its
expression. -/
theorem templateFrom_cons_eq_ok {rs : List Reading} {start stop : Nat} {texts : List Text}
    {expressions : List (Option Node)}
    (h : templateFrom src start stop (r :: rs) = .ok (texts, expressions)) :
    ∃ text rest expression others, templateFrom src r.span.stop stop rs = .ok (rest, others) ∧
      (∃ o, r.phrase.firstNode = .ok o ∧ expression.filterMap id = o.toList) ∧
      expression.length ≤ 1 ∧
      texts = text :: rest ∧ expressions = expression ++ others := by
  simp only [templateFrom, bind_eq_ok] at h
  obtain ⟨text, _, h⟩ := h
  split at h
  · rename_i hnamed
    simp only [bind_eq_ok, pure_eq_ok, Prod.mk.injEq] at h
    obtain ⟨_, rfl, ⟨rest, others⟩, hrest, rfl, rfl⟩ := h
    exact ⟨text, rest, [], others, hrest, ⟨none, by rw [firstNode, hnamed]; rfl, rfl⟩,
      Nat.zero_le 1, rfl, rfl⟩
  · rename_i hnamed
    simp only [bind_eq_ok, pure_eq_ok, Prod.mk.injEq] at h
    obtain ⟨o, ho, _, rfl, ⟨rest, others⟩, hrest, rfl, rfl⟩ := h
    exact ⟨text, rest, [o], others, hrest, ⟨o, by rwa [firstNode, hnamed], by cases o <;> rfl⟩,
      Nat.le_refl 1, rfl, rfl⟩

theorem moduleName_eq_ok {name : Option Reading} (hn : moduleName src name = .ok n) :
    ∃ r, name = some r ∧ (r.phrase.stringLiteral src = .ok n ∨
      r.phrase.identifier src = .ok n) := by
  unfold moduleName at hn
  split at hn
  · cases hn
  · rename_i r
    split at hn
    · exact ⟨r, rfl, .inl hn⟩
    · exact ⟨r, rfl, .inr hn⟩

theorem importSpecifier_eq_ok (hn : p.importSpecifier src = .ok n) :
    ∃ imported binding field r, moduleName src (p.child? "name") = .ok imported ∧
    p.child? field = some r ∧
      r.phrase.identifier src = .ok binding ∧ n = p.build (.importSpecifier imported binding) := by
  simp only [importSpecifier, bind_eq_ok] at hn
  obtain ⟨imported, himported, hn⟩ := hn
  split at hn
  · rename_i r hr
    simp only [bind_eq_ok, pure_eq_ok] at hn
    obtain ⟨binding, hbinding, rfl⟩ := hn
    rcases Option.or_eq_some_iff.1 hr with hr | ⟨-, hr⟩
    · exact ⟨imported, binding, _, r, himported, hr, hbinding, rfl⟩
    · exact ⟨imported, binding, _, r, himported, hr, hbinding, rfl⟩
  · cases hn

theorem lastNamed_mem (h : p.lastNamed = .ok r) : r ∈ p.named := by
  unfold lastNamed at h
  split at h
  · rename_i hlast
    exact Except.ok.inj h ▸ List.mem_of_getLast? hlast
  · cases h

theorem exportClause_eq_ok {source : Option Node} (hn : p.exportClause src source = .ok n) :
    (∃ name : Option Node, (∀ exported ∈ name, ∃ clause ∈ p.named, ∃ r ∈ clause.phrase.named,
        moduleName src (some r) = .ok exported) ∧ n = p.build (.exportAll name source)) ∨
    ∃ clause ∈ p.named, ∃ specifiers,
      (clause.phrase.named.filter (·.kind == "export_specifier")).mapM
        (·.phrase.exportSpecifier src) = .ok specifiers ∧
      n = p.build (.exportNamed none specifiers source) := by
  unfold exportClause at hn
  split at hn
  · exact .inl ⟨none, fun _ h => (Option.some_ne_none _ h.symm).elim, (Except.ok.inj hn).symm⟩
  · rename_i clause hclause
    split at hn
    · simp only [bind_eq_ok, pure_eq_ok] at hn
      obtain ⟨name, hname, exported, hexported, rfl⟩ := hn
      exact .inl ⟨some exported,
        fun _ h => ⟨clause, List.mem_of_find?_eq_some hclause, name, lastNamed_mem hname,
          Option.some.inj h ▸ hexported⟩, rfl⟩
    · simp only [bind_eq_ok, pure_eq_ok] at hn
      obtain ⟨specifiers, hspecifiers, rfl⟩ := hn
      exact .inr ⟨clause, List.mem_of_find?_eq_some hclause, specifiers, hspecifiers, rfl⟩

theorem exportDeclaration_eq_ok (hn : p.exportDeclaration src = .ok n) :
    (∃ field declaration, p.fieldNode field = .ok declaration ∧
      n = p.build (.exportDefault declaration)) ∨
    (∃ declaration, p.fieldNode "declaration" = .ok declaration ∧
      n = p.build (.exportNamed declaration [] none)) ∨
    ∃ source, p.fieldNode "source" = .ok source ∧ p.exportClause src source = .ok n := by
  simp only [exportDeclaration, bind_eq_ok] at hn
  obtain ⟨source, hsource, hn⟩ := hn
  split at hn
  · simp only [bind_eq_ok, pure_eq_ok] at hn
    obtain ⟨declaration, hdeclaration, rfl⟩ := hn
    left
    cases hr : p.child? "declaration" with
    | none => exact ⟨"value", declaration, by rwa [hr, Option.none_or] at hdeclaration, rfl⟩
    | some r =>
      exact ⟨"declaration", declaration, by rwa [hr, Option.some_or, ← hr] at hdeclaration, rfl⟩
  · right
    split at hn
    · rename_i r hr
      simp only [bind_eq_ok, pure_eq_ok] at hn
      obtain ⟨declaration, hdeclaration, rfl⟩ := hn
      exact .inl ⟨declaration, by rwa [fieldNode, hr], rfl⟩
    · exact .inr ⟨source, hsource, hn⟩

end ApiTrace.Phrase
