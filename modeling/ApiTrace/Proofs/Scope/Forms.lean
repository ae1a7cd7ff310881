import ApiTrace.Proofs.Scope.Placement

/-!
# Placement by form

What follows for a node of each form from the placement of its parts. Most forms have no meaning as
patterns, bodies or declarators beyond their own (`Node.Placed.plain`), and most do to names what
their children do (`Node.Placed.generic`). The forms that open a scope come last.
-/

namespace ApiTrace

open ScopeEvent

/-! ## Nodes in unusual places -/

/-- Whether a form is taken apart where a pattern is expected. -/
def Form.isPattern : Form → Bool
  | .identifier _ | .objectPattern _ | .arrayPattern _ | .assignmentPattern .. | .restElement _
  | .other .. => true
  | _ => false

/-- Whether a form has no meaning of its own as a body, declarator, declaration or property. -/
def Form.isPlain : Form → Bool
  | .block _ | .program .. | .classBody _ | .variableDeclaration .. | .variableDeclarator ..
  | .property .. => false
  | _ => true

section Defaults

variable {Z : Zone} {span : Span} {f : Form}

theorem laid_fault {base : List Frame} {depth : Nat} (fault : ScopeFault) :
    Laid base depth Z [.fault fault] :=
  .points fun e he => by
    obtain rfl := List.mem_singleton.1 he
    exact isPoint_fault _

theorem visitBindings_of_not_pattern (hf : f.isPattern = false) (above : List Frame)
    (bind : Site → List ScopeEvent) : visitBindings above bind (.mk span f) = [] := by
  cases f with
  | identifier | objectPattern | arrayPattern | assignmentPattern | restElement | other => cases hf
  | _ => rfl

theorem visitInside_of_not_pattern (hf : f.isPattern = false) (above : List Frame) :
    visitInside above (.mk span f) = visitForm ⟨.mk span f, above⟩ f := by
  cases f with
  | identifier | objectPattern | arrayPattern | assignmentPattern | restElement | other => cases hf
  | _ => rfl

/-- What is no pattern binds nothing and is read as it is. -/
theorem split_of_not_pattern (hf : f.isPattern = false)
    (hvisit : ∀ {above depth}, depth ≤ above.length →
      Laid above depth Z (visitForm ⟨.mk span f, above⟩ f))
    {base above : List Frame} {depth : Nat} {bind : Site → List ScopeEvent}
    (hd : depth ≤ base.length) (hclear : Clear base above) :
    Split base depth Z (visitBindings above bind (.mk span f))
      (visitInside above (.mk span f)) := by
  rw [visitBindings_of_not_pattern hf, visitInside_of_not_pattern hf]
  exact .of_inside ((hvisit (Nat.le_trans hd hclear.length_le)).mono hclear (.refl _))

/-- What is no property with a key is a member of an object pattern as the pattern that it is. -/
theorem visitPropertyBindings_of_not_property (hf : ∀ key value computed shorthand isMethod kind,
      f ≠ .property key value computed shorthand isMethod kind) (self : Site)
    (bind : Site → List ScopeEvent) (i : Nat) :
    visitPropertyBindings self bind i [.mk span f] =
      if (Node.mk span f).kind = Text.ofString "Property" then [.fault .missingPart]
      else visitBindings (self.frames ⟨.properties, i⟩) bind (.mk span f) := by
  cases f with
  | property => exact absurd rfl (hf _ _ _ _ _ _)
  | _ => simp [visitPropertyBindings]

theorem visitInsideProperties_of_not_property (hf : ∀ key value computed shorthand isMethod kind,
      f ≠ .property key value computed shorthand isMethod kind) (self : Site) (i : Nat) :
    visitInsideProperties self i [.mk span f] =
      if (Node.mk span f).kind = Text.ofString "Property" then []
      else visitInside (self.frames ⟨.properties, i⟩) (.mk span f) := by
  cases f with
  | property => exact absurd rfl (hf _ _ _ _ _ _)
  | _ => simp [visitInsideProperties]

theorem split_member (hf : ∀ key value computed shorthand isMethod kind,
      f ≠ .property key value computed shorthand isMethod kind)
    (hpattern : ∀ {base above depth bind}, depth ≤ base.length → Clear base above →
      Binds base depth bind →
        Split base depth Z (visitBindings above bind (.mk span f)) (visitInside above (.mk span f)))
    {base : List Frame} {depth : Nat} {bind : Site → List ScopeEvent} {self : Site} {i : Nat}
    (hd : depth ≤ base.length) (hclear : Clear base self.above) (hbind : Binds base depth bind) :
    Split base depth Z (visitPropertyBindings self bind i [.mk span f])
      (visitInsideProperties self i [.mk span f]) := by
  have hdown : Clear base (self.frames ⟨.properties, i⟩) := hclear.down rfl
  rw [visitPropertyBindings_of_not_property hf, visitInsideProperties_of_not_property hf]
  split
  · refine .of_points fun e he => ?_
    obtain rfl := List.mem_singleton.1 he
    exact isPoint_fault _
  · exact hpattern hd hdown hbind

theorem laid_body (hf : ∀ body, f ≠ .block body)
    (hvisit : ∀ {above depth}, depth ≤ above.length →
      Laid above depth Z (visitForm ⟨.mk span f, above⟩ f))
    {self : Site} {depth : Nat} (hd : depth ≤ self.above.length) :
    Laid self.above depth Z (visitFunctionBody self (some (.mk span f))) := by
  have hbody : visitFunctionBody self (some (.mk span f)) =
      visitForm (self.down ⟨.body, 0⟩ (.mk span f)) f := by
    cases f with
    | block body => exact absurd rfl (hf body)
    | _ => rfl
  rw [hbody]
  exact (hvisit (Nat.le_succ_of_le hd)).mono (.cons rfl) (.refl _)

theorem laid_statements (hf : ∀ self, ∃ fault, visitStatements self f = [.fault fault])
    {above : List Frame} {depth : Nat} :
    Laid above depth Z (visitStatements ⟨.mk span f, above⟩ f) := by
  obtain ⟨fault, heq⟩ := hf ⟨.mk span f, above⟩
  rw [heq]
  exact laid_fault fault

theorem laid_declarator (hf : ∀ target init, f ≠ .variableDeclarator target init)
    {declaration : Site} {target : Target} {loop : Bool} {i depth : Nat} :
    Laid declaration.above depth Z (visitDeclarators declaration target loop i [.mk span f]) := by
  have hfault : visitDeclarators declaration target loop i [.mk span f] =
      [.fault .missingPart] := by
    cases f with
    | variableDeclarator target init => exact absurd rfl (hf target init)
    | _ => simp [visitDeclarators]
  rw [hfault]
  exact laid_fault _

/-- A node of a plain form has to keep to its zone as a node of its own and as a pattern. -/
theorem Node.Placed.of_pattern (hf : f.isPlain = true)
    (hvisit : ∀ {above depth}, depth ≤ above.length →
      Laid above depth Z (visitForm ⟨.mk span f, above⟩ f))
    (hpattern : ∀ {base above depth bind}, depth ≤ base.length → Clear base above →
      Binds base depth bind →
        Split base depth Z (visitBindings above bind (.mk span f))
            (visitInside above (.mk span f))) :
    (Node.mk span f).Placed Z := by
  refine ⟨hvisit, hpattern, ?_, ?_, ?_, ?_, ?_⟩
  · refine split_member ?_ hpattern
    rintro key value computed shorthand isMethod kind rfl
    cases hf
  · refine laid_body ?_ hvisit
    rintro body rfl
    cases hf
  · intro above depth _
    refine laid_statements fun self => ?_
    cases f with
    | block | program | classBody => cases hf
    | _ => exact ⟨_, rfl⟩
  · intro declaration target loop i depth _ _
    refine laid_declarator ?_
    rintro bound init rfl
    cases hf
  · rintro above target loop depth keyword declarations rfl
    cases hf

/-- A node of a plain form that is no pattern only has to keep to its zone as a node of its own. -/
theorem Node.Placed.plain (hf : f.isPlain = true) (hpattern : f.isPattern = false)
    (hvisit : ∀ {above depth}, depth ≤ above.length →
      Laid above depth Z (visitForm ⟨.mk span f, above⟩ f)) : (Node.mk span f).Placed Z :=
  .of_pattern hf hvisit fun hd hc _ => split_of_not_pattern hpattern hvisit hd hc

end Defaults

/-! ## Forms that do what their children do -/

/-- The nodes that a part holds. -/
def Part.nodes : Part → List Node
  | .attribute .. => []
  | .one _ child => child.toList
  | .many _ children => children.filterMap id

/-- The role of the children of a part. -/
def Part.role? : Part → Option Role
  | .attribute .. => none
  | .one role _ | .many role _ => some role

theorem Part.role?_of_mem_children {p : Part} {slot : Slot} (h : slot ∈ p.children.map Prod.fst) :
    p.role? = some slot.role := by
  obtain ⟨⟨slot, n⟩, hmem, rfl⟩ := List.mem_map.1 h
  match p with
  | .attribute .. => cases hmem
  | .one role child =>
    obtain ⟨n, -, heq⟩ := List.mem_map.1 hmem
    cases heq
    rfl
  | .many role children =>
    obtain ⟨⟨child, i⟩, -, heq⟩ := List.mem_filterMap.1 hmem
    obtain ⟨n, -, heq⟩ := Option.map_eq_some_iff.1 heq
    cases heq
    rfl

/-- The children of a form without their slots. -/
def Form.childNodes (f : Form) : List Node := f.parts.flatMap Part.nodes

theorem Part.children_map_snd (p : Part) : p.children.map Prod.snd = p.nodes := by
  cases p with
  | one role child => cases child <;> rfl
  | many role children =>
    have h : ∀ i, ((children.zipIdx i).filterMap
        fun p => p.1.map ((⟨role, p.2⟩ : Slot), ·)).map Prod.snd = children.filterMap id := by
      induction children with
      | nil => exact fun _ => rfl
      | cons child children ih =>
        intro i
        cases child <;> simp [ih]
    exact h 0
  | _ => rfl

/-- Whether a form does to names what its children do. -/
def Form.isGeneric : Form → Bool
  | .program .. | .emptyStatement | .debuggerStatement | .thisExpression | .superReference
  | .privateIdentifier _ | .jsxIdentifier _ | .literal .. | .templateElement _
  | .expressionStatement _ | .ifElse .. | .conditional .. | .whileLoop .. | .doWhile ..
  | .tryStatement .. | .switchCase .. | .returnStatement _ | .throwStatement _ | .unary ..
  | .await _ | .yield .. | .spread _ | .restElement _ | .variableDeclarator .. | .template ..
  | .call .. | .construct .. | .importCall _ | .taggedTemplate .. | .binary ..
  | .assignmentPattern .. | .sequence _ | .array _ | .arrayPattern _ | .object _
  | .objectPattern _ | .exportDefault _ => true
  | _ => false

/-- The events of the children of a part. -/
def Part.visit (self : Site) (p : Part) : List ScopeEvent :=
  p.children.flatMap fun (slot, n) => ScopeEvent.visit (self.frames slot) n

theorem Part.visit_attribute (self : Site) (name : String) (value : Attribute) :
    (Part.attribute name value).visit self = [] := rfl

theorem visitOne_eq (self : Site) (role : Role) (o : Option Node) :
    visitOne self role o = (Part.one role o).visit self := by
  cases o <;> simp [visitOne, Part.visit, Part.children]

theorem visitGaps_eq (self : Site) (role : Role) (os : List (Option Node)) :
    visitGaps self role 0 os = (Part.many role os).visit self := by
  have h : ∀ i, visitGaps self role i os =
      ((os.zipIdx i).filterMap fun p => p.1.map ((⟨role, p.2⟩ : Slot), ·)).flatMap
        fun c => ScopeEvent.visit (self.frames c.1) c.2 := by
    induction os with
    | nil => exact fun _ => rfl
    | cons o os ih =>
      intro i
      cases o <;> simp [visitGaps, ih]
  exact h 0

theorem visitAll_eq (self : Site) (role : Role) (ns : List Node) :
    visitAll self role 0 ns = (Part.all role ns).visit self := by
  have h : ∀ i, visitAll self role i ns = visitGaps self role i (ns.map some) := by
    induction ns with
    | nil => exact fun _ => rfl
    | cons n ns ih =>
      intro i
      simp [visitGaps, visitAll, ih]
  rw [h, visitGaps_eq]
  rfl

theorem visitForm_eq_parts {f : Form} (hf : f.isGeneric = true) (self : Site) :
    visitForm self f = f.parts.flatMap (·.visit self) := by
  cases f with
  | literal value raw => cases value <;> rfl
  | program | emptyStatement | debuggerStatement | thisExpression | superReference
  | privateIdentifier | jsxIdentifier | templateElement | expressionStatement | ifElse
  | conditional | whileLoop | doWhile | tryStatement | switchCase | returnStatement
  | throwStatement | unary | await | yield | spread | restElement | variableDeclarator | template
  | call | construct | importCall | taggedTemplate | binary | assignmentPattern | sequence | array
  | arrayPattern | object | objectPattern | exportDefault =>
    rw [visitForm]
    simp [Form.parts, visitOne_eq, visitGaps_eq, visitAll_eq, Part.text, Part.flag,
      Part.visit_attribute]
  | _ => cases hf

section Generic

variable {Z : Zone} {span : Span} {f : Form}

theorem PlacedAll.visitSlots {l : List (Slot × Node)} (h : PlacedAll Z (l.map Prod.snd))
    (hl : ∀ child ∈ l, child.1.role.isLoose = false) {self : Site} {depth : Nat}
    (hd : depth ≤ self.above.length) :
    Laid self.above depth Z (l.flatMap fun (slot, n) => ScopeEvent.visit (self.frames slot) n) := by
  induction l generalizing Z with
  | nil => exact .nil
  | cons child l ih =>
    cases h with
    | cons head tail apart sub₁ sub₂ =>
      obtain ⟨hchild, hl⟩ := List.forall_mem_cons.1 hl
      refine .append ?_ (ih tail hl) apart sub₁ sub₂
      exact (head.visit (Nat.le_succ_of_le hd)).mono (.cons hchild) (.refl _)

theorem PlacedAll.visitParts {ps : List Part} (h : PlacedAll Z (ps.flatMap Part.nodes))
    (hps : (ps.filterMap Part.role?).all (!·.isLoose) = true) (self : Site) {depth : Nat}
    (hd : depth ≤ self.above.length) :
    Laid self.above depth Z (ps.flatMap (·.visit self)) := by
  have hnodes : (ps.flatMap Part.children).map Prod.snd = ps.flatMap Part.nodes := by
    simp [List.map_flatMap, Part.children_map_snd]
  have htight : ∀ child ∈ ps.flatMap Part.children, child.1.role.isLoose = false := by
    intro child hchild
    obtain ⟨p, hp, hmem⟩ := List.mem_flatMap.1 hchild
    have hrole := Part.role?_of_mem_children (List.mem_map_of_mem hmem)
    simpa using List.all_eq_true.1 hps _ (List.mem_filterMap.2 ⟨p, hp, hrole⟩)
  rw [← hnodes] at h
  have hslots := h.visitSlots htight hd
  rw [List.flatMap_assoc] at hslots
  exact hslots

theorem laid_generic (hf : f.isGeneric = true) (h : PlacedAll Z f.childNodes) {above : List Frame}
    {depth : Nat} (hd : depth ≤ above.length) :
    Laid above depth Z (visitForm ⟨.mk span f, above⟩ f) := by
  rw [visitForm_eq_parts hf]
  refine h.visitParts ?_ ⟨_, above⟩ hd
  cases f with
  | classLike | switch => cases hf
  | literal value raw => cases value <;> rfl
  | _ => rfl

theorem Node.Placed.generic (hf : (f.isGeneric && f.isPlain && !f.isPattern) = true)
    (h : PlacedAll Z f.childNodes) : (Node.mk span f).Placed Z := by
  simp only [Bool.and_eq_true, Bool.not_eq_true'] at hf
  exact .plain hf.1.2 hf.2 fun hd => laid_generic hf.1.1 h hd

end Generic

/-! ## Identifiers and patterns -/

section Patterns

variable {Z Z₁ Z₂ : Zone} {span : Span}

theorem Node.Placed.identifier {name : Text} (hZ : span.start < span.stop → Z span.start) :
    (Node.mk span (.identifier name)).Placed Z := by
  refine .of_pattern rfl ?_ ?_
  · intro above depth _
    refine .points fun e he => ?_
    obtain rfl := List.mem_singleton.1 he
    exact isPoint_mention (.refl _) hZ
  · intro base above depth bind _ hclear hbind
    exact .of_points (hbind ⟨.mk span (.identifier name), above⟩ Z hclear hZ)

theorem Node.Placed.objectPattern {properties : List Node} (h : PlacedAll Z properties) :
    (Node.mk span (.objectPattern properties)).Placed Z := by
  refine .of_pattern rfl ?_ ?_
  · intro above depth hd
    have hnodes : PlacedAll Z (Form.objectPattern properties).childNodes := by
      simpa [Form.childNodes, Form.parts, Part.all, Part.nodes] using h
    exact laid_generic rfl hnodes hd
  · intro base above depth bind hd hclear hbind
    exact h.visitProperties ⟨_, above⟩ (i := 0) hd hclear hbind

theorem Node.Placed.arrayPattern {elements : List Node} (h : PlacedAll Z elements) :
    (Node.mk span (.arrayPattern elements)).Placed Z := by
  refine .of_pattern rfl ?_ ?_
  · intro above depth hd
    have hnodes : PlacedAll Z (Form.arrayPattern elements).childNodes := by
      simpa [Form.childNodes, Form.parts, Part.all, Part.nodes] using h
    exact laid_generic rfl hnodes hd
  · intro base above depth bind hd hclear hbind
    exact h.visitElements ⟨_, above⟩ (i := 0) hd hclear hbind

/-- An optional pattern somewhere in a pattern. -/
theorem PlacedAll.visitOneBinding {o : Option Node} (h : PlacedAll Z o.toList) {base : List Frame}
    {depth : Nat} {bind : Site → List ScopeEvent} {self : Site} {role : Role}
    (hrole : role.isLoose = false) (hd : depth ≤ base.length) (hclear : Clear base self.above)
    (hbind : Binds base depth bind) :
    Split base depth Z (ScopeEvent.visitOneBinding self role bind o)
      (visitInsideOne self role o) := by
  cases o with
  | none => exact .of_points (List.forall_mem_nil _)
  | some n => exact h.placed.pattern hd (hclear.down hrole) hbind

/-- An optional pattern by itself. -/
theorem PlacedAll.visitPattern {o : Option Node} (h : PlacedAll Z o.toList) (self : Site)
    {depth : Nat} {bind : Site → List ScopeEvent} (hd : depth ≤ self.above.length) (role : Role)
    (hrole : role.isLoose = false) (hbind : Binds (self.frames ⟨role, 0⟩) depth bind) :
    Laid self.above depth Z (ScopeEvent.visitPattern self role bind o) := by
  cases o with
  | none => exact .nil
  | some n =>
    have hsplit := h.placed.pattern (Nat.le_succ_of_le hd) (.refl _) hbind
    exact hsplit.laid.mono (.cons hrole) (.refl _)

theorem Node.Placed.assignmentPattern {left right : Option Node} (hleft : PlacedAll Z₁ left.toList)
    (hright : PlacedAll Z₂ right.toList) (apart : Z₁.Apart Z₂) (sub₁ : Z₁.Sub Z) (sub₂ : Z₂.Sub Z) :
    (Node.mk span (.assignmentPattern left right)).Placed Z := by
  refine .of_pattern rfl ?_ ?_
  · intro above depth hd
    have hnodes : PlacedAll Z (Form.assignmentPattern left right).childNodes := by
      simpa [Form.childNodes, Form.parts, Part.nodes] using hleft.append hright apart sub₁ sub₂
    exact laid_generic rfl hnodes hd
  · intro base above depth bind hd hclear hbind
    let self : Site := ⟨.mk span (.assignmentPattern left right), above⟩
    have hself : Clear base self.above := hclear
    have htarget : Split base depth Z₁ (ScopeEvent.visitOneBinding self .left bind left)
        (visitInsideOne self .left left) := hleft.visitOneBinding rfl hd hself hbind
    have hvalue : Laid base depth Z₂ (ScopeEvent.visitOne self .right right) :=
      (hright.visitOne self (Nat.le_trans hd hself.length_le) .right).mono
        (hself.down rfl) (.refl _)
    obtain ⟨Y₁, Y₂, hpoints, hinside, hapart, hsub₁, hsub₂⟩ := htarget
    refine ⟨Y₁, Y₂.join Z₂, hpoints, hinside.join hvalue (apart.mono hsub₂ (.refl _)), ?_, ?_, ?_⟩
    · exact Zone.apart_join hapart (apart.mono hsub₁ (.refl _))
    · exact hsub₁.trans sub₁
    · exact Zone.join_sub (hsub₂.trans sub₁) sub₂

theorem Node.Placed.restElement {argument : Option Node} (h : PlacedAll Z argument.toList) :
    (Node.mk span (.restElement argument)).Placed Z := by
  refine .of_pattern rfl ?_ ?_
  · intro above depth hd
    exact (h.visitOne ⟨_, above⟩ hd .argument).mono (.cons rfl) (.refl _)
  · intro base above depth bind hd hclear hbind
    exact h.visitOneBinding rfl hd hclear hbind

/-- A node without a form of its own: one that is named as an identifier stands where it stands, all
others do at most what their children do. -/
theorem Node.Placed.other {name : Text} {children : List Node}
    (hZ : span.start < span.stop → Z span.start) (h : PlacedAll Z children) :
    (Node.mk span (.other name children)).Placed Z := by
  have hvisit : ∀ {above depth}, depth ≤ above.length →
      Laid above depth Z (visitForm ⟨.mk span (.other name children), above⟩
        (.other name children)) := by
    intro above depth hd
    rw [visitForm]
    split
    · refine .points fun e he => ?_
      obtain rfl := List.mem_singleton.1 he
      exact isPoint_mention (.refl _) hZ
    · split
      · exact laid_fault _
      · split
        · exact .nil
        · exact h.visitAll ⟨_, above⟩ hd .children rfl
  refine .of_pattern rfl hvisit ?_
  intro base above depth bind hd hclear hbind
  simp only [visitBindings, visitInside]
  by_cases hname : name = Text.ofString "Identifier"
  · rw [if_pos hname, if_pos (.inl hname)]
    exact .of_points (hbind ⟨.mk span (.other name children), above⟩ Z hclear hZ)
  · by_cases hpattern : name ∈ patternNames
    · simp only [hname, hpattern, if_true, if_false, or_true]
      refine .of_points fun e he => ?_
      obtain rfl := List.mem_singleton.1 he
      exact isPoint_fault _
    · simp only [hname, hpattern, if_false, or_self]
      exact .of_inside
        ((hvisit (Nat.le_trans hd hclear.length_le)).mono hclear (.refl _))

end Patterns

end ApiTrace
