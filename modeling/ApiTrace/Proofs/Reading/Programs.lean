import ApiTrace.Proofs.Reading.Expressions

/-!
# Places of programs

Templates, imports and exports, and then all rules together: reading a concrete tree in source order
gives sound readings (`Concrete.sound_read`), so the nodes of its program keep to zones of which no
two have an offset in common (`Node.ofConcrete_placed`).
-/

namespace ApiTrace

namespace Phrase

variable {p : Phrase} {src : Source} {n : Node}

/-! ## Literals and templates -/

theorem placed_literal {Z : Zone} (value : Literal) (raw : Text) :
    (p.build (.literal value raw)).Placed Z :=
  placed_leaf rfl (by cases value <;> rfl)

theorem placed_stringLiteral {Z : Zone} (hn : p.stringLiteral src = .ok n) : n.Placed Z := by
  simp only [stringLiteral, bind_eq_ok, pure_eq_ok] at hn
  obtain ⟨raw, _, value, _, rfl⟩ := hn
  exact placed_literal _ _

theorem placed_numberLiteral {Z : Zone} (hn : p.numberLiteral src = .ok n) : n.Placed Z := by
  simp only [numberLiteral, bind_eq_ok, pure_eq_ok] at hn
  obtain ⟨raw, _, value, _, rfl⟩ := hn
  exact placed_literal _ _

theorem placed_regexLiteral {Z : Zone} (hn : p.regexLiteral src = .ok n) : n.Placed Z := by
  simp only [regexLiteral, bind_eq_ok, pure_eq_ok] at hn
  obtain ⟨raw, _, pattern, _, flags, _, rfl⟩ := hn
  exact placed_literal _ _

/-- The expressions of a template lie in its substitutions. -/
theorem placed_templateFrom {rs : List Reading} (h : Reading.Row rs) {start stop : Nat}
    {texts : List Text} {expressions : List (Option Node)}
    (hn : templateFrom src start stop rs = .ok (texts, expressions)) :
    PlacedAll (Reading.zones rs) (expressions.filterMap id) := by
  induction rs generalizing start texts expressions with
  | nil =>
    simp only [templateFrom, bind_eq_ok, pure_eq_ok, Prod.mk.injEq] at hn
    obtain ⟨_, _, _, rfl⟩ := hn
    exact .nil
  | cons r rs ih =>
    obtain ⟨text, rest, expression, others, hrest, ⟨o, ho, heq⟩, -, rfl, rfl⟩ :=
      templateFrom_cons_eq_ok hn
    rw [List.filterMap_append, heq]
    exact ((h.sound r (.head _)).phrase.firstNode ho).append
      (ih (h.sublist (List.sublist_cons_self r rs)) hrest)
      h.head_apart (Reading.zone_sub_zones (.head _))
        (Reading.zones_sub (List.subset_cons_self r rs))

theorem Sound.template (h : p.Sound) (hn : p.template src = .ok n) : n.Placed p.span.zone := by
  simp only [Phrase.template, bind_eq_ok, pure_eq_ok] at hn
  obtain ⟨⟨texts, expressions⟩, hexpressions, rfl⟩ := hn
  have htexts : PlacedAll Zone.none (texts.map fun t => p.build (.templateElement t)) := by
    clear hexpressions
    induction texts with
    | nil => exact .nil
    | cons t texts ih => exact .cons (placed_leaf rfl rfl) ih (fun _ _ => id) (.refl _) (.refl _)
  have hplaced := placed_templateFrom (h.row.sublist List.filter_sublist) hexpressions
  refine .generic rfl ?_
  simpa [Form.childNodes, Form.parts, Part.all, Part.nodes] using
    htexts.append hplaced (Zone.none_apart _) (Zone.none_sub _)
      (h.zones_sub_of_sublist List.filter_sublist)

/-! ## Imports and exports -/

theorem span_identifier (hn : p.identifier src = .ok n) : n.span = p.span := by
  simp only [identifier, bind_eq_ok, pure_eq_ok] at hn
  obtain ⟨name, _, rfl⟩ := hn
  rfl

theorem span_moduleName {o : Option Reading} (hn : moduleName src o = .ok n) :
    ∃ r, o = some r ∧ n.span = r.span := by
  obtain ⟨r, hr, hn | hn⟩ := moduleName_eq_ok hn
  · simp only [stringLiteral, bind_eq_ok, pure_eq_ok] at hn
    obtain ⟨raw, _, value, _, rfl⟩ := hn
    exact ⟨r, hr, rfl⟩
  · exact ⟨r, hr, span_identifier hn⟩

/-- A name in the place of one of the readings below a phrase. -/
theorem mem_zone_of_span {Z : Zone} {s : Span} (hspan : n.span = s) (hsub : s.zone.Sub Z)
    (hlt : n.start < n.stop) : Z n.start := by
  subst hspan
  exact hsub _ ⟨Nat.le_refl _, hlt⟩

theorem Sound.child_zone (h : p.Sound) {field : String} {r : Reading}
    (hr : p.child? field = some r) :
    r.span.zone.Sub p.span.zone :=
  (child_sub hr).trans (h.fieldZone_sub _)

theorem Sound.named_zone (h : p.Sound) {r : Reading} (hr : r ∈ p.named) :
    r.span.zone.Sub p.span.zone :=
  (Reading.zone_sub_zones (List.mem_filter.1 hr).1).trans h.zones_sub

theorem Sound.named (h : p.Sound) {r : Reading} (hr : r ∈ p.named) : r.Sound :=
  h.sound r (List.mem_filter.1 hr).1

theorem Sound.importSpecifier (h : p.Sound) (hn : p.importSpecifier src = .ok n) :
    BindingsIn p.span.zone [n] := by
  obtain ⟨imported, binding, field, r, -, hr, hbinding, rfl⟩ := importSpecifier_eq_ok hn
  rintro n hn binding' hbinding' hlt
  obtain rfl := List.mem_singleton.1 hn
  cases hbinding'
  exact mem_zone_of_span (span_identifier hbinding) (h.child_zone hr) hlt

theorem bindingsIn_importBindings {r : Reading} (h : r.Sound) {ns : List Node}
    (hns : importBindings src r = .ok ns) : BindingsIn r.span.zone ns := by
  unfold importBindings at hns
  split at hns
  · simp only [bind_eq_ok, pure_eq_ok] at hns
    obtain ⟨binding, hbinding, rfl⟩ := hns
    rintro n hn binding' hbinding' hlt
    obtain rfl := List.mem_singleton.1 hn
    cases hbinding'
    exact mem_zone_of_span (span_identifier hbinding) (.refl _) hlt
  · simp only [bind_eq_ok, pure_eq_ok] at hns
    obtain ⟨name, hname, binding, hbinding, rfl⟩ := hns
    rintro n hn binding' hbinding' hlt
    obtain rfl := List.mem_singleton.1 hn
    cases hbinding'
    exact mem_zone_of_span (span_identifier hbinding)
      (h.phrase.named_zone (lastNamed_mem hname)) hlt
  · intro n hn
    obtain ⟨r', hr', hspecifier⟩ := exists_of_mem_mapM hns hn
    have hnamed := (List.mem_filter.1 hr').1
    intro binding hbinding hlt
    exact h.phrase.named_zone hnamed _ ((h.phrase.named hnamed).phrase.importSpecifier hspecifier n
      (List.mem_singleton.2 rfl) binding hbinding hlt)
  · rw [← Except.ok.inj hns]
    exact List.forall_mem_nil _

theorem Sound.importDeclaration (h : p.Sound) (hn : p.importDeclaration src = .ok n) :
    n.Placed p.span.zone := by
  simp only [Phrase.importDeclaration, bind_eq_ok, pure_eq_ok] at hn
  obtain ⟨specifiers, hspecifiers, source, _, rfl⟩ := hn
  refine .importDeclaration fun n hn binding hbinding hlt => ?_
  obtain ⟨ns, hns, hn⟩ := List.mem_flatten.1 hn
  obtain ⟨r, hr, hbindings⟩ := exists_of_mem_mapM hspecifiers hns
  obtain ⟨clause, hclause, hr⟩ := List.mem_flatMap.1 hr
  have hnamed := (List.mem_filter.1 hclause).1
  have hsound := (h.named hnamed).phrase
  exact h.named_zone hnamed _ (hsound.named_zone hr _
    (bindingsIn_importBindings (hsound.named hr) hbindings n hn binding hbinding hlt))

theorem Sound.exportSpecifier (h : p.Sound) (hn : p.exportSpecifier src = .ok n) {binding : Node}
    (hbinding : n.binding? = some binding) (hlt : binding.start < binding.stop) :
    p.span.zone binding.start := by
  simp only [Phrase.exportSpecifier, bind_eq_ok, pure_eq_ok] at hn
  obtain ⟨name, hname, exported, _, rfl⟩ := hn
  cases hbinding
  obtain ⟨r, hr, hspan⟩ := span_moduleName hname
  exact mem_zone_of_span hspan (h.child_zone hr) hlt

theorem Sound.exportClause (h : p.Sound) {source : Option Node}
    (hn : p.exportClause src source = .ok n) : n.Placed p.span.zone := by
  rcases exportClause_eq_ok hn with ⟨name, -, rfl⟩ | ⟨clause, hnamed, specifiers, hspecifiers, rfl⟩
  · exact .silent rfl fun _ => rfl
  · refine .exportNamed .nil fun n hn binding hbinding hlt => ?_
    obtain ⟨r, hr, hspecifier⟩ := exists_of_mem_mapM hspecifiers hn
    have hsound := (h.named hnamed).phrase
    have hmem := (List.mem_filter.1 hr).1
    exact h.named_zone hnamed _ (hsound.named_zone hmem _
      ((hsound.named hmem).phrase.exportSpecifier hspecifier hbinding hlt))

theorem Sound.exportDeclaration (h : p.Sound) (hn : p.exportDeclaration src = .ok n) :
    n.Placed p.span.zone := by
  rcases exportDeclaration_eq_ok hn with ⟨field, declaration, hdeclaration, rfl⟩ |
    ⟨declaration, hdeclaration, rfl⟩ |
    ⟨source, -, hn⟩
  · refine .generic rfl ?_
    simpa [Form.childNodes, Form.parts, Part.nodes]
      using (h.fieldNode hdeclaration).mono (h.fieldZone_sub _)
  · exact .exportNamed ((h.fieldNode hdeclaration).mono (h.fieldZone_sub _)) (List.forall_mem_nil _)
  · exact h.exportClause hn

/-! ## All rules -/

theorem Sound.otherNode (h : p.Sound) (hn : p.otherNode src = .ok n) : n.Placed p.span.zone := by
  simp only [Phrase.otherNode, bind_eq_ok, pure_eq_ok] at hn
  obtain ⟨children, hchildren, rfl⟩ := hn
  refine .other (fun hlt => ⟨Nat.le_refl _, hlt⟩) (h.members ?_ hchildren)
  intro r n hr hn
  split at hn
  · simp only [bind_eq_ok, pure_eq_ok, Option.some.injEq] at hn
    obtain ⟨name, _, rfl⟩ := hn
    exact placed_leaf rfl rfl
  · exact hr.placed hn

theorem placed_privateName {Z : Zone} (hn : p.privateName src = .ok n) : n.Placed Z := by
  simp only [privateName, bind_eq_ok, pure_eq_ok] at hn
  obtain ⟨name, _, rfl⟩ := hn
  exact placed_leaf rfl rfl

theorem placed_ok {Z : Zone} {n' : Node} (h : n'.Placed Z) (hn : (.ok n' : Outcome Node) = .ok n) :
    n.Placed Z :=
  Except.ok.inj hn ▸ h

theorem Sound.readNode (h : p.Sound) (hn : p.readNode src = .ok n) : n.Placed p.span.zone := by
  unfold Phrase.readNode at hn
  split at hn
  · exact h.program hn
  · exact h.ofFirst (fun _ => rfl) (by simp [Form.childNodes, Form.parts, Part.nodes]) hn
  · exact placed_ok (placed_leaf rfl rfl) hn
  · exact placed_ok (placed_leaf rfl rfl) hn
  · simp only [bind_eq_ok, pure_eq_ok] at hn
    obtain ⟨body, hbody, rfl⟩ := hn
    exact .block (h.nodes hbody) (.refl _)
  · exact h.ifStatement hn
  · exact h.forStatement hn
  · exact h.forEachStatement hn
  · exact h.whileStatement hn
  · exact h.doStatement hn
  · exact h.tryStatement hn
  · exact h.switchStatement hn
  · exact h.ofFirst (fun _ => rfl) (by simp [Form.childNodes, Form.parts, Part.nodes]) hn
  · exact h.ofFirst (fun _ => rfl) (by simp [Form.childNodes, Form.parts, Part.nodes]) hn
  · exact h.labeledStatement hn
  · exact placed_jumpStatement hn
  · exact placed_jumpStatement hn
  · exact h.variableDeclaration hn
  · exact h.variableDeclaration hn
  · exact h.variableDeclarator hn
  · exact h.functionLike hn
  · exact h.functionLike hn
  · exact h.functionLike hn
  · exact h.functionLike hn
  · exact h.functionLike hn
  · exact h.arrowFunction hn
  · exact h.classLike (.inl ‹_›) hn
  · exact h.classLike (.inr ‹_›) hn
  · exact h.importDeclaration hn
  · exact h.exportDeclaration hn
  · exact placed_identifier hn
  · exact placed_identifier hn
  · exact placed_identifier hn
  · exact placed_identifier hn
  · exact placed_identifier hn
  · exact placed_identifier hn
  · exact placed_privateName hn
  · exact placed_ok (placed_leaf rfl rfl) hn
  · exact placed_ok (placed_leaf rfl rfl) hn
  · exact placed_stringLiteral hn
  · exact placed_numberLiteral hn
  · exact placed_ok (placed_literal _ _) hn
  · exact placed_ok (placed_literal _ _) hn
  · exact placed_ok (placed_literal _ _) hn
  · exact placed_regexLiteral hn
  · exact h.template hn
  · exact h.memberExpression (by simp) hn
  · exact h.memberExpression (by simp) hn
  · exact h.callExpression hn
  · exact h.newExpression hn
  · exact h.assignmentExpression hn
  · exact h.assignmentExpression hn
  · exact h.binaryExpression hn
  · exact h.unaryExpression hn
  · exact h.updateExpression hn
  · exact h.conditionalExpression hn
  · exact h.sequenceExpression hn
  · exact h.ofFirst (fun _ => rfl) (by simp [Form.childNodes, Form.parts, Part.nodes]) hn
  · exact h.yieldExpression hn
  · exact h.ofFirst (fun _ => rfl) (by simp [Form.childNodes, Form.parts, Part.nodes]) hn
  · simp only [bind_eq_ok, pure_eq_ok] at hn
    obtain ⟨elements, helements, rfl⟩ := hn
    refine .generic rfl ?_
    simpa [Form.childNodes, Form.parts, Part.all, Part.nodes] using h.nodes helements
  · exact h.objectExpression hn
  · exact h.objectPattern hn
  · simp only [bind_eq_ok, pure_eq_ok] at hn
    obtain ⟨elements, helements, rfl⟩ := hn
    exact .arrayPattern (h.nodes helements)
  · exact h.assignmentPattern hn
  · simp only [Phrase.ofFirst, bind_eq_ok, pure_eq_ok] at hn
    obtain ⟨argument, hargument, rfl⟩ := hn
    exact .restElement (h.firstNode hargument)
  · exact h.otherNode hn

theorem Sound.read (h : p.Sound) (hn : p.read src = .ok (some n)) : n.Placed p.span.zone := by
  unfold Phrase.read at hn
  split at hn
  · cases hn
  · split at hn
    · exact (h.firstNode hn).placed
    · simp only [bind_eq_ok, pure_eq_ok, Option.some.injEq] at hn
      obtain ⟨n, hn, rfl⟩ := hn
      exact h.readNode hn

end Phrase

/-! ## Trees -/

namespace Concrete

theorem heads_readAll (src : Source) (cs : List Concrete) :
    (readAll src cs).map (·.phrase.head) = cs.map Concrete.head := by
  induction cs with
  | nil => rfl
  | cons c cs ih =>
    obtain ⟨head, children⟩ := c
    simp only [readAll, List.map_cons, ih]
    rfl

mutual

theorem sound_read (src : Source) : ∀ c : Concrete, c.every Head.inOrder = true →
    c.every Head.keepsApart = true → (c.read src).Sound
  | .mk head children, horder, hapart => by
    simp only [every, Bool.and_eq_true] at horder hapart
    rw [← heads_readAll src] at horder hapart
    have hsound := sound_readAll src children horder.2 hapart.2
    have hphrase : Phrase.Sound ⟨head, readAll src children⟩ := ⟨horder.1, hapart.1, hsound⟩
    exact .mk horder.1 hapart.1 hsound fun n hn => hphrase.read hn

theorem sound_readAll (src : Source) : ∀ cs : List Concrete, everyOf Head.inOrder cs = true →
    everyOf Head.keepsApart cs = true → ∀ r ∈ readAll src cs, r.Sound
  | [], _, _ => List.forall_mem_nil _
  | c :: cs, horder, hapart => by
    simp only [everyOf, Bool.and_eq_true] at horder hapart
    exact List.forall_mem_cons.2
      ⟨sound_read src c horder.1 hapart.1, sound_readAll src cs horder.2 hapart.2⟩

end

end Concrete

/-- The statements of the program of a tree in source order keep to their places in the tree. -/
theorem Node.ofConcrete_placed {src : Source} {sourceType : Option Text} {root : Concrete}
    {program : Node} (horder : root.every Concrete.Head.inOrder = true)
    (hapart : root.every Concrete.Head.keepsApart = true)
    (h : Node.ofConcrete src sourceType root = .ok program) :
    ∃ body kind, program = .mk ⟨0, src.bytes.length, 1, 0⟩ (.program body kind) ∧
      PlacedAll root.head.span.zone body := by
  obtain ⟨head, children⟩ := root
  have hsound := (Concrete.sound_read src _ horder hapart).phrase
  simp only [Node.ofConcrete, Phrase.program, bind_eq_ok, pure_eq_ok] at h
  obtain ⟨body, hbody, rfl⟩ := h
  exact ⟨body, _, rfl, hsound.nodes hbody⟩

end ApiTrace
