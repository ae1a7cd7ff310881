import ApiTrace.Proofs.Scope.Constructs

/-!
# Placement of the constructs that open a scope

Whatever the zones of the parts of such a construct are, if they lie in its span then the construct
keeps to its span: that is the block of the scope. What a class extends and what a `switch` tests is
read before the scope opens, so it is loose.
-/

namespace ApiTrace

open ScopeEvent

variable {Z Z₁ Z₂ : Zone} {span : Span}

/-! ## Blocks -/

theorem Node.Placed.block {body : List Node} (h : PlacedAll Z body) (within : Z.Sub span.zone) :
    (Node.mk span (.block body)).Placed span.zone := by
  have hvisit : ∀ {above depth}, depth ≤ above.length →
      Laid above depth span.zone (visitForm ⟨.mk span (.block body), above⟩ (.block body)) := by
    intro above depth hd
    let self : Site := ⟨.mk span (.block body), above⟩
    exact .bracket .block self hd (h.visitAll self (Nat.le_refl _) .body rfl) within
  have hpattern : ∀ {base above depth bind}, depth ≤ base.length → Clear base above →
      Binds base depth bind → Split base depth span.zone
        (visitBindings above bind (.mk span (.block body)))
        (visitInside above (.mk span (.block body))) :=
    fun hd hc _ => split_of_not_pattern rfl hvisit hd hc
  refine ⟨hvisit, hpattern, split_member (by simp) hpattern, ?_, ?_, ?_, ?_⟩
  · intro self depth hd
    have hbody := h.visitAll (i := 0) (self.down ⟨.body, 0⟩ (.mk span (.block body)))
      (Nat.le_succ_of_le hd) .body rfl
    exact hbody.mono (.cons rfl) within
  · intro above depth hd
    exact (h.visitAll (i := 0) ⟨_, above⟩ hd .body rfl).mono (.refl _) within
  · intro declaration target loop i depth _ _
    exact laid_declarator (by simp)
  · intro above target loop depth keyword declarations hform
    cases hform

/-- A program inside a program opens no scope. -/
theorem Node.Placed.program {body : List Node} {sourceType : Text} (h : PlacedAll Z body) :
    (Node.mk span (.program body sourceType)).Placed Z := by
  have hvisit : ∀ {above depth}, depth ≤ above.length → Laid above depth Z
      (visitForm ⟨.mk span (.program body sourceType), above⟩ (.program body sourceType)) :=
    fun hd => h.visitAll ⟨_, _⟩ hd .body rfl
  have hpattern : ∀ {base above depth bind}, depth ≤ base.length → Clear base above →
      Binds base depth bind → Split base depth Z
        (visitBindings above bind (.mk span (.program body sourceType)))
        (visitInside above (.mk span (.program body sourceType))) :=
    fun hd hc _ => split_of_not_pattern rfl hvisit hd hc
  refine ⟨hvisit, hpattern, split_member (by simp) hpattern, laid_body (by simp) hvisit, ?_, ?_, ?_⟩
  · exact fun hd => h.visitAll ⟨_, _⟩ hd .body rfl
  · intro declaration target loop i depth _ _
    exact laid_declarator (by simp)
  · intro above target loop depth keyword declarations hform
    cases hform

/-- A construct that opens a scope for all that it does to names. -/
theorem Node.Placed.opening {f : Form} {kind : ScopeKind} {inside : Site → List ScopeEvent}
    (hf : (f.isPlain && !f.isPattern) = true)
    (hvisit : ∀ self, visitForm self f = .enter kind self :: inside self ++ [ScopeEvent.leave])
    (hinside : ∀ self : Site, Laid self.above self.above.length Z (inside self))
    (within : Z.Sub span.zone) : (Node.mk span f).Placed span.zone := by
  simp only [Bool.and_eq_true, Bool.not_eq_true'] at hf
  refine .plain hf.1 hf.2 fun {above depth} hd => ?_
  rw [hvisit]
  exact .bracket kind ⟨.mk span f, above⟩ hd (hinside _) within

theorem Node.Placed.staticBlock {body : Option Node} (h : PlacedAll Z body.toList)
    (within : Z.Sub span.zone) : (Node.mk span (.staticBlock body)).Placed span.zone := by
  cases body with
  | none => exact .opening rfl (fun _ => rfl) (fun _ => .nil (Z := Z)) within
  | some n =>
    have hplaced := h.placed
    obtain ⟨bodySpan, form⟩ := n
    refine .opening rfl (fun _ => rfl) (fun self => ?_) within
    exact (hplaced.statements (Nat.le_succ self.above.length)).mono (.cons rfl) (.refl _)

/-! ## Functions -/

theorem PlacedAll.visitFunctionBody {body : Option Node} (h : PlacedAll Z body.toList) (self : Site)
    {depth : Nat} (hd : depth ≤ self.above.length) :
    Laid self.above depth Z (ScopeEvent.visitFunctionBody self body) := by
  cases body with
  | none => exact .nil
  | some n => exact h.placed.body hd

theorem laid_naming {base : List Frame} {depth : Nat} {kind : DefinitionKind}
    (hkind : kind = .functionName ∨ kind = .className) (node : Site) (name : Option Node) :
    Laid base depth Zone.none (naming kind node name) :=
  .points (isPoint_naming hkind node name)

theorem Node.Placed.function {placement : Placement} {name body : Option Node} {params : List Node}
    {isGenerator isAsync : Bool} (hparams : PlacedAll Z₁ params) (hbody : PlacedAll Z₂ body.toList)
    (apart : Z₁.Apart Z₂) (sub₁ : Z₁.Sub span.zone) (sub₂ : Z₂.Sub span.zone) :
    (Node.mk span (.function placement name params body isGenerator isAsync)).Placed span.zone := by
  refine .plain rfl rfl fun {above depth} hd => ?_
  let self : Site := ⟨.mk span (.function placement name params body isGenerator isAsync), above⟩
  have hinner : ∀ {depth}, depth ≤ self.above.length → Laid self.above depth span.zone
      (.enter .function self :: .implicit "arguments" :: visitParams self 0 params
        ++ visitFunctionBody self body ++ [ScopeEvent.leave]) := by
    intro depth hd
    refine .bracket .function self hd ?_ (Zone.Sub.refl _)
    have hparts := (hparams.visitParams self (i := 0)).append
      (hbody.visitFunctionBody self (Nat.le_refl _)) apart sub₁ sub₂
    have harguments : Laid self.above self.above.length Zone.none [.implicit "arguments"] :=
      .points (List.forall_mem_singleton.2 (isPoint_implicit _))
    exact harguments.append hparts (Zone.none_apart _) (Zone.none_sub _) (.refl _)
  cases placement with
  | declaration =>
    exact .append (laid_naming (.inl rfl) self name) (hinner hd) (Zone.none_apart _)
      (Zone.none_sub _) (.refl _)
  | expression =>
    cases name with
    | none => exact hinner hd
    | some name =>
      refine .bracket .functionName self hd ?_ (Zone.Sub.refl _)
      exact .append (laid_naming (.inl rfl) self (some name)) (hinner (Nat.le_refl _))
        (Zone.none_apart _) (Zone.none_sub _) (.refl _)

theorem Node.Placed.arrowFunction {params : List (Option Node)} {body : Option Node}
    {isExpression isAsync : Bool} (hparams : PlacedAll Z₁ (params.filterMap id))
    (hbody : PlacedAll Z₂ body.toList) (apart : Z₁.Apart Z₂) (sub₁ : Z₁.Sub span.zone)
    (sub₂ : Z₂.Sub span.zone) :
    (Node.mk span (.arrowFunction params body isExpression isAsync)).Placed span.zone := by
  refine .opening rfl (fun _ => rfl) (fun self => ?_) (Zone.Sub.refl _)
  exact (hparams.visitOptionalParams self (i := 0)).append
    (hbody.visitFunctionBody self (Nat.le_refl _)) apart sub₁ sub₂

/-! ## Classes -/

/-- The members of the body of a class. -/
def classMembers : Option Node → List Node
  | some (.mk _ (.classBody members)) => members
  | _ => []

theorem laid_visitClassBody {body : Option Node} (h : PlacedAll Z (classMembers body)) (self : Site)
    {depth : Nat} (hd : depth ≤ self.above.length) :
    Laid self.above depth Z (visitClassBody self body) := by
  cases body with
  | none => exact .nil
  | some n =>
    obtain ⟨bodySpan, form⟩ := n
    cases form with
    | classBody members =>
      have hmembers := PlacedAll.visitAll (i := 0)
        (self.down ⟨.body, 0⟩ (.mk bodySpan (.classBody members)))
        (Nat.le_succ_of_le hd) h .body rfl
      exact hmembers.mono (.cons rfl) (.refl _)
    | _ => exact laid_fault _

/-- The name of a class that is declared is also known around the class. -/
def outerNaming (self : Site) (placement : Placement) (name : Option Node) : List ScopeEvent :=
  match placement with
  | .declaration => naming .className self name
  | .expression => []

theorem visitForm_classLike (self : Site) (placement : Placement)
    (name superClass body : Option Node) :
    visitForm self (.classLike placement name superClass body) = outerNaming self placement name
      ++ (visitOne self .superClass superClass
        ++ .enter .classBody self :: (naming .className self name ++ visitClassBody self body)
        ++ [ScopeEvent.leave]) := by
  have hflat : visitForm self (.classLike placement name superClass body) =
      outerNaming self placement name ++ visitOne self .superClass superClass
        ++ .enter .classBody self :: naming .className self name ++ visitClassBody self body
        ++ [ScopeEvent.leave] := by
    cases placement <;> rfl
  rw [hflat]
  simp only [List.append_assoc, List.cons_append]

theorem Node.Placed.classLike {placement : Placement} {name superClass body : Option Node}
    (hsuper : PlacedAll Z₁ superClass.toList) (hbody : PlacedAll Z₂ (classMembers body))
    (apart : Z₁.Apart Z₂) (sub₁ : Z₁.Sub span.zone) (sub₂ : Z₂.Sub span.zone) :
    (Node.mk span (.classLike placement name superClass body)).Placed span.zone := by
  refine .plain rfl rfl fun {above depth} hd => ?_
  let self : Site := ⟨.mk span (.classLike placement name superClass body), above⟩
  have hname : Laid self.above depth Zone.none (outerNaming self placement name) := by
    cases placement with
    | declaration => exact laid_naming (.inr rfl) self name
    | expression => exact .nil
  have hinside : Laid self.above self.above.length Z₂
      (naming .className self name ++ visitClassBody self body) :=
    .append (laid_naming (.inr rfl) self name) (laid_visitClassBody hbody self (Nat.le_refl _))
      (Zone.none_apart _) (Zone.none_sub _) (.refl _)
  rw [visitForm_classLike]
  refine .append hname ?_ (Zone.none_apart _) (Zone.none_sub _) (.refl _)
  exact .scope (hsuper.visitOne self hd .superClass) (.inr rfl) hd (.refl _) hinside apart sub₁ sub₂
    (.refl _)

/-! ## Clauses and loops -/

theorem Node.Placed.catchClause {param body : Option Node} (hparam : PlacedAll Z₁ param.toList)
    (hbody : PlacedAll Z₂ body.toList) (apart : Z₁.Apart Z₂) (sub₁ : Z₁.Sub span.zone)
    (sub₂ : Z₂.Sub span.zone) : (Node.mk span (.catchClause param body)).Placed span.zone := by
  refine .opening rfl (fun _ => rfl) (fun self => ?_) (Zone.Sub.refl _)
  have hpattern : Laid self.above self.above.length Z₁ (visitPattern self .param
      (fun identifier => [defining .here ⟨.caught, identifier, self, none⟩]) param) :=
    hparam.visitPattern self (Nat.le_refl _) .param rfl (binds_parameter .caught self rfl)
  exact hpattern.append ((hbody.visitOne self (Nat.le_refl _) .body).mono
    (.cons rfl) (.refl _)) apart sub₁ sub₂

theorem Node.Placed.switch {discriminant : Option Node} {cases : List Node}
    (hdiscriminant : PlacedAll Z₁ discriminant.toList) (hcases : PlacedAll Z₂ cases)
    (apart : Z₁.Apart Z₂) (sub₁ : Z₁.Sub span.zone) (sub₂ : Z₂.Sub span.zone) :
    (Node.mk span (.switch discriminant cases)).Placed span.zone := by
  refine .plain rfl rfl fun {above depth} hd => ?_
  let self : Site := ⟨.mk span (.switch discriminant cases), above⟩
  exact .scope (hdiscriminant.visitOne self hd .discriminant) (.inr rfl) hd (.refl _)
    (hcases.visitAll self (Nat.le_refl _) .cases rfl) apart sub₁ sub₂ (.refl _)

theorem Node.Placed.forLoop {init test update body : Option Node}
    (h : PlacedAll Z (Form.forLoop init test update body).childNodes) (within : Z.Sub span.zone) :
    (Node.mk span (.forLoop init test update body)).Placed span.zone := by
  refine .plain rfl rfl fun {above depth} hd => ?_
  let self : Site := ⟨.mk span (.forLoop init test update body), above⟩
  have hinner : ∀ {depth}, depth ≤ self.above.length → Laid self.above depth Z
      (visitOne self .init init ++ visitOne self .test test ++ visitOne self .update update
        ++ visitOne self .body body) := by
    intro depth hd
    have hparts := h.visitParts rfl self hd
    simpa [Form.parts, visitOne_eq] using hparts
  rw [visitForm]
  split
  · split
    · exact (hinner hd).mono (.refl _) within
    · exact .bracket .loop self hd (hinner (Nat.le_refl _)) within
  · exact (hinner hd).mono (.refl _) within

/-- A loop over members whose variable is no declaration writes to a pattern. -/
theorem visitForm_forEach_pattern {left : Option Node}
    (h : ∀ n keyword declarations, left = some n →
      n.form ≠ .variableDeclaration keyword declarations)
    (self : Site) (iteration : Iteration) (right body : Option Node) (isAwait : Bool) :
    visitForm self (.forEach iteration left right body isAwait) =
      visitPattern self .left (writing (self.downOption .right right)) left
        ++ (visitOne self .right right ++ visitOne self .body body) := by
  cases left with
  | none => rfl
  | some n =>
    obtain ⟨leftSpan, form⟩ := n
    cases form with
    | variableDeclaration keyword declarations => exact absurd rfl (h _ keyword declarations rfl)
    | _ => rfl

theorem Node.Placed.forEach {iteration : Iteration} {left right body : Option Node} {isAwait : Bool}
    (hleft : PlacedAll Z₁ left.toList) (hrest : PlacedAll Z₂ (right.toList ++ body.toList))
    (apart : Z₁.Apart Z₂) (sub₁ : Z₁.Sub span.zone) (sub₂ : Z₂.Sub span.zone) :
    (Node.mk span (.forEach iteration left right body isAwait)).Placed span.zone := by
  refine .plain rfl rfl fun {above depth} hd => ?_
  let self : Site := ⟨.mk span (.forEach iteration left right body isAwait), above⟩
  have hlaid : ∀ {depth}, depth ≤ self.above.length → Laid self.above depth Z₂
      (visitOne self .right right ++ visitOne self .body body) := by
    intro depth hd
    have hparts : PlacedAll Z₂ ([Part.one .right right, .one .body body].flatMap Part.nodes) := by
      simpa [Part.nodes] using hrest
    simpa [visitOne_eq] using hparts.visitParts rfl self hd
  by_cases hform : ∃ leftSpan keyword declarations,
      left = some (.mk leftSpan (.variableDeclaration keyword declarations))
  · obtain ⟨leftSpan, keyword, declarations, rfl⟩ := hform
    let declaration : Site :=
      self.down ⟨.left, 0⟩ (.mk leftSpan (.variableDeclaration keyword declarations))
    let target := if keyword = "var" then Target.varScope else .here
    have htarget : TargetFits declaration target := by
      intro keyword' declarations' hform hkeyword
      cases hform
      exact if_neg hkeyword
    have hinner : ∀ {depth}, depth ≤ self.above.length → Laid self.above depth span.zone
        (visitDeclarators declaration target true 0 declarations
          ++ (visitOne self .right right ++ visitOne self .body body)) := by
      intro depth hd
      have hdeclaration : Laid declaration.above depth Z₁
          (visitDeclarators declaration target true 0 declarations) :=
        hleft.placed.declaration rfl (Nat.le_succ_of_le hd) htarget
      exact .append (hdeclaration.mono (.cons rfl) (.refl _)) (hlaid hd) apart sub₁ sub₂
    have hvisit : visitForm self (.forEach iteration
        (some (.mk leftSpan (.variableDeclaration keyword declarations))) right body isAwait) =
        if keyword = "var" then visitDeclarators declaration target true 0 declarations
            ++ (visitOne self .right right ++ visitOne self .body body)
        else .enter .loop self :: (visitDeclarators declaration target true 0 declarations
            ++ (visitOne self .right right ++ visitOne self .body body)) ++
              [ScopeEvent.leave] := rfl
    rw [hvisit]
    split
    · exact hinner hd
    · exact .bracket .loop self hd (hinner (Nat.le_refl _)) (Zone.Sub.refl _)
  · rw [visitForm_forEach_pattern]
    · exact .append (hleft.visitPattern self hd .left rfl (binds_writing _ _ _)) (hlaid hd)
        apart sub₁ sub₂
    · rintro ⟨leftSpan, form⟩ keyword declarations rfl rfl
      exact hform ⟨leftSpan, keyword, declarations, rfl⟩

end ApiTrace
