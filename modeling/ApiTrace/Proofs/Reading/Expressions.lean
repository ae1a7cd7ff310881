import ApiTrace.Proofs.Reading.Statements

/-!
# Places of expressions, patterns and modules

The rules for everything that is no statement: each makes a node that keeps to the place of its
concrete node. The operands of nested sequences are laid out flat, and still each keeps to its own
place.
-/

namespace ApiTrace

namespace Phrase

variable {p : Phrase} {src : Source} {n : Node}

theorem placed_identifier (hn : p.identifier src = .ok n) : n.Placed p.span.zone := by
  simp only [identifier, bind_eq_ok, pure_eq_ok] at hn
  obtain ⟨name, _, rfl⟩ := hn
  exact .identifier fun hlt => ⟨Nat.le_refl _, hlt⟩

/-- A node without children. -/
theorem placed_leaf {f : Form} {Z : Zone} (hf : (f.isGeneric && f.isPlain && !f.isPattern) = true)
    (hnodes : f.childNodes = []) : (p.build f).Placed Z := by
  refine .generic hf ?_
  rw [hnodes]
  exact .nil

/-! ## Access and calls -/

theorem Sound.memberExpression (h : p.Sound) {keyField : String} (hfield : keyField ≠ "object")
    {computed : Bool} (hn : p.memberExpression keyField computed = .ok n) :
    n.Placed p.span.zone := by
  simp only [Phrase.memberExpression, bind_eq_ok, pure_eq_ok] at hn
  obtain ⟨object, hobject, property, hproperty, rfl⟩ := hn
  exact .access (h.fieldNode hobject) (h.fieldNode hproperty) (h.fieldZone_apart hfield.symm)
    (h.fieldZone_sub _) (h.fieldZone_sub _)

theorem Sound.callExpression (h : p.Sound) (hn : p.callExpression = .ok n) :
    n.Placed p.span.zone := by
  rcases callExpression_eq_ok hn with ⟨arguments, harguments, rfl⟩ |
    ⟨tag, quasi, htag, hquasi, rfl⟩ |
    ⟨callee, arguments, optional, hcallee, harguments, rfl⟩
  · exact h.generic rfl [("arguments", arguments.head?.toList)] rfl (by simp)
      (by simp [(h.nodesIn harguments).head?])
  · exact h.generic rfl [("function", tag.toList), ("arguments", quasi.toList)] rfl (by simp)
      (by simp [h.fieldNode htag, h.fieldNode hquasi])
  · exact h.generic rfl [("function", callee.toList), ("arguments", arguments)]
      (by simp [Form.childNodes, Form.parts, Part.all, Part.nodes, Part.flag]) (by simp)
      (by simp [h.fieldNode hcallee, h.nodesIn harguments])

theorem Sound.newExpression (h : p.Sound) (hn : p.newExpression = .ok n) :
    n.Placed p.span.zone := by
  simp only [Phrase.newExpression, bind_eq_ok, pure_eq_ok] at hn
  obtain ⟨callee, hcallee, arguments, harguments, rfl⟩ := hn
  exact h.generic rfl [("constructor", callee.toList), ("arguments", arguments)]
    (by simp [Form.childNodes, Form.parts, Part.all, Part.nodes]) (by simp)
    (by simp [h.fieldNode hcallee, h.nodesIn harguments])

/-! ## Operators -/

theorem Sound.assignmentExpression (h : p.Sound) {plain : Bool}
    (hn : p.assignmentExpression src plain = .ok n) : n.Placed p.span.zone := by
  obtain ⟨operator, left, right, hleft, hright, rfl⟩ := assignmentExpression_eq_ok hn
  exact .assignment (h.fieldNode hleft) (h.fieldNode hright) (h.fieldZone_apart (by simp))
    (h.fieldZone_sub _) (h.fieldZone_sub _)

theorem Sound.binaryExpression (h : p.Sound) (hn : p.binaryExpression src = .ok n) :
    n.Placed p.span.zone := by
  simp only [Phrase.binaryExpression, bind_eq_ok, pure_eq_ok] at hn
  obtain ⟨operator, _, left, hleft, right, hright, rfl⟩ := hn
  exact h.generic rfl [("left", left.toList), ("right", right.toList)] rfl (by simp)
    (by simp [h.fieldNode hleft, h.fieldNode hright])

theorem Sound.unaryExpression (h : p.Sound) (hn : p.unaryExpression src = .ok n) :
    n.Placed p.span.zone := by
  simp only [Phrase.unaryExpression, bind_eq_ok, pure_eq_ok] at hn
  obtain ⟨operator, _, argument, hargument, rfl⟩ := hn
  exact h.generic rfl [("argument", argument.toList)] rfl (by simp)
    (by simp [h.fieldNode hargument])

theorem Sound.updateExpression (h : p.Sound) (hn : p.updateExpression src = .ok n) :
    n.Placed p.span.zone := by
  simp only [Phrase.updateExpression, bind_eq_ok, pure_eq_ok] at hn
  obtain ⟨operator, _, argument, hargument, rfl⟩ := hn
  exact .update ((h.fieldNode hargument).mono (h.fieldZone_sub _))

theorem Sound.conditionalExpression (h : p.Sound) (hn : p.conditionalExpression = .ok n) :
    n.Placed p.span.zone := by
  simp only [Phrase.conditionalExpression, bind_eq_ok, pure_eq_ok] at hn
  obtain ⟨test, htest, consequent, hconsequent, alternate, halternate, rfl⟩ := hn
  exact h.generic rfl [("condition", test.toList), ("consequence", consequent.toList),
    ("alternative", alternate.toList)] rfl (by simp)
    (by simp [h.fieldNode htest, h.fieldNode hconsequent, h.fieldNode halternate])

theorem Sound.yieldExpression (h : p.Sound) (hn : p.yieldExpression = .ok n) :
    n.Placed p.span.zone := by
  simp only [Phrase.yieldExpression, bind_eq_ok, pure_eq_ok] at hn
  obtain ⟨argument, hargument, rfl⟩ := hn
  refine .generic rfl ?_
  simpa [Form.childNodes, Form.parts, Part.nodes, Part.flag] using h.firstNode hargument

end Phrase

/-! ### Sequences -/

namespace Reading

theorem Row.append {rs rs' : List Reading} (h : Row rs) (h' : Row rs')
    (apart : (zones rs).Apart (zones rs')) : Row (rs ++ rs') := by
  refine ⟨fun r hr => ?_, List.pairwise_append.2 ⟨h.apart, h'.apart, fun r hr r' hr' => ?_⟩⟩
  · rcases List.mem_append.1 hr with hr | hr
    · exact h.sound r hr
    · exact h'.sound r hr
  · exact apart.mono (zone_sub_zones hr) (zone_sub_zones hr')

mutual

/-- The operands of a nested sequence lie in it. -/
theorem Sound.operands :
    ∀ {r : Reading}, r.Sound → Row r.operands ∧ (zones r.operands).Sub r.span.zone
  | .mk head children node, h => by
    rw [Reading.operands]
    split
    · obtain ⟨hrow, hsub⟩ := Row.operandsOf h.phrase.row
      exact ⟨hrow, hsub.trans h.phrase.zones_sub⟩
    · refine ⟨⟨List.forall_mem_singleton.2 h, List.pairwise_singleton _ _⟩, ?_⟩
      rintro o ⟨r, hr, ho⟩
      obtain rfl := List.mem_singleton.1 hr
      exact ho

/-- The operands among some children lie where the children do. -/
theorem Row.operandsOf : ∀ {rs : List Reading}, Row rs →
    Row (operandsOf rs) ∧ (zones (operandsOf rs)).Sub (zones rs)
  | [], h => ⟨h, .refl _⟩
  | r :: rs, h => by
    have hrest := Row.operandsOf (h.sublist (List.sublist_cons_self r rs))
    have hsub : (zones (Reading.operandsOf rs)).Sub (zones (r :: rs)) :=
      hrest.2.trans (zones_sub (List.subset_cons_self r rs))
    rw [Reading.operandsOf]
    split
    · have hhead := (h.sound r (.head _)).operands
      refine ⟨hhead.1.append hrest.1 (h.head_apart.mono hhead.2 hrest.2), ?_⟩
      rintro o ⟨r', hr', ho⟩
      rcases List.mem_append.1 hr' with hr' | hr'
      · exact zone_sub_zones (.head _) o (hhead.2 o ⟨r', hr', ho⟩)
      · exact hsub o ⟨r', hr', ho⟩
    · exact ⟨hrest.1, hsub⟩

end

end Reading

namespace Phrase

variable {p : Phrase} {src : Source} {n : Node}

theorem Sound.sequenceExpression (h : p.Sound) (hn : p.sequenceExpression = .ok n) :
    n.Placed p.span.zone := by
  simp only [Phrase.sequenceExpression, bind_eq_ok, pure_eq_ok] at hn
  obtain ⟨operands, hoperands, rfl⟩ := hn
  obtain ⟨hrow, hsub⟩ := h.row.operandsOf
  refine .generic rfl ?_
  simpa [Form.childNodes, Form.parts, Part.all, Part.nodes] using
    (hrow.placedAll_nodesOf hoperands).mono (hsub.trans h.zones_sub)

/-! ## Objects and patterns -/

theorem Sound.pairProperty (h : p.Sound) (hn : p.pairProperty src = .ok n) :
    n.Placed p.span.zone := by
  simp only [Phrase.pairProperty, bind_eq_ok, pure_eq_ok] at hn
  obtain ⟨⟨key, computed⟩, hkey, value, hvalue, rfl⟩ := hn
  exact .property (h.propertyKey hkey) (h.fieldNode hvalue) (h.fieldZone_apart (by simp))
    (h.fieldZone_sub _) (h.fieldZone_sub _)

/-- A property whose key is not read. -/
theorem placed_keyless {Z : Zone} {key value : Option Node} {shorthand isMethod : Bool}
    {kind : PropertyKind} (hvalue : PlacedAll Z value.toList) :
    (p.build (.property key value false shorthand isMethod kind)).Placed Z :=
  .property (.nil (Z := Zone.none)) hvalue (Zone.none_apart _) (Zone.none_sub _) (.refl _)

theorem placed_shorthandProperty (hn : p.shorthandProperty src = .ok n) : n.Placed p.span.zone := by
  simp only [shorthandProperty, bind_eq_ok, pure_eq_ok] at hn
  obtain ⟨name, hname, rfl⟩ := hn
  exact placed_keyless (.singleton (placed_identifier hname))

theorem Sound.methodProperty (h : p.Sound) (hkind : p.kind = "method_definition")
    (hn : p.methodProperty src = .ok n) : n.Placed p.span.zone := by
  simp only [Phrase.methodProperty, bind_eq_ok, pure_eq_ok] at hn
  obtain ⟨⟨key, computed⟩, hkey, kind, _, value, hvalue, rfl⟩ := hn
  obtain ⟨Z₁, Z₂, hkey, hvalue, apart, sub₁, sub₂⟩ := h.methodParts hkind hkey hvalue
  exact .property hkey (.singleton hvalue) apart sub₁ sub₂

theorem placed_objectMember {r : Reading} (h : r.Sound) (hn : objectMember src r = .ok (some n)) :
    n.Placed r.span.zone := by
  rcases objectMember_eq_ok hn with ⟨-, hn⟩ | ⟨-, hn⟩ | ⟨hkind, hn⟩ | hn
  · exact h.phrase.pairProperty hn
  · exact placed_shorthandProperty hn
  · exact h.phrase.methodProperty hkind hn
  · exact h.placed hn

theorem Sound.defaultProperty (h : p.Sound) (hn : p.defaultProperty src = .ok n) :
    n.Placed p.span.zone := by
  obtain ⟨left, right, key, hleft, hright, -, rfl⟩ := defaultProperty_eq_ok hn
  refine placed_keyless (.singleton ?_)
  exact .assignmentPattern (h.fieldNode hleft) (h.fieldNode hright) (h.fieldZone_apart (by simp))
    (h.fieldZone_sub _) (h.fieldZone_sub _)

theorem placed_patternMember {r : Reading} (h : r.Sound) (hn : patternMember src r = .ok (some n)) :
    n.Placed r.span.zone := by
  rcases patternMember_eq_ok hn with ⟨-, hn⟩ | ⟨-, hn⟩ | ⟨-, hn⟩ | hn
  · exact h.phrase.pairProperty hn
  · exact placed_shorthandProperty hn
  · exact h.phrase.defaultProperty hn
  · exact h.placed hn

theorem Sound.objectExpression (h : p.Sound) (hn : p.objectExpression src = .ok n) :
    n.Placed p.span.zone := by
  simp only [Phrase.objectExpression, bind_eq_ok, pure_eq_ok] at hn
  obtain ⟨members, hmembers, rfl⟩ := hn
  refine .generic rfl ?_
  simpa [Form.childNodes, Form.parts, Part.all, Part.nodes]
    using h.members placed_objectMember hmembers

theorem Sound.objectPattern (h : p.Sound) (hn : p.objectPattern src = .ok n) :
    n.Placed p.span.zone := by
  simp only [Phrase.objectPattern, bind_eq_ok, pure_eq_ok] at hn
  obtain ⟨members, hmembers, rfl⟩ := hn
  exact .objectPattern (h.members placed_patternMember hmembers)

theorem Sound.assignmentPattern (h : p.Sound) (hn : p.assignmentPattern = .ok n) :
    n.Placed p.span.zone := by
  simp only [Phrase.assignmentPattern, bind_eq_ok, pure_eq_ok] at hn
  obtain ⟨left, hleft, right, hright, rfl⟩ := hn
  exact .assignmentPattern (h.fieldNode hleft) (h.fieldNode hright) (h.fieldZone_apart (by simp))
    (h.fieldZone_sub _) (h.fieldZone_sub _)

end Phrase

end ApiTrace
