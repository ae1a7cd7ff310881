import ApiTrace.Proofs.Scope.Built
import ApiTrace.Proofs.Scope.Wholeness

/-!
# Programs that have scopes

The constructs that open scopes, declare names or write them are checked by reading them too, so
every node is (`Node.checked`). So a program has scopes exactly if nothing is lacking in its code
(`ScopeGraph.exists_analyze_iff`).
-/

namespace ApiTrace

open ScopeEvent

/-! ## Scopes -/

section Scopes

variable {span : Span} {above : List Frame}

theorem Node.Checked.transparent {f : Form} (hf : f.isTransparent = true)
    (hpattern : f.isPattern = false) (h : ∀ m : Node, sizeOf m < sizeOf f → m.Checked) :
    (Node.mk span f).Checked := by
  refine .of_visit hpattern fun hcode hvisited => ?_
  rw [checked_transparent hf (fun _ n hmem => h n (Form.sizeOf_child_lt hmem)) hcode hvisited]
  refine (whole_iff_parts hcode hvisited.need fun name children heq => ?_).symm
  subst heq
  cases hpattern

theorem Node.Checked.block {body : List Node}
    (h : ∀ m : Node, sizeOf m < sizeOf (Form.block body) → m.Checked) :
    (Node.mk span (.block body)).Checked := by
  refine .of_visit rfl fun {above} hcode hvisited => ?_
  let self : Site := ⟨.mk span (.block body), above⟩
  have hbody : Clean (visitAll self .body 0 body) ↔ self.WholeFrom .body 0 (body.map some) :=
    checked_all self .body hcode rfl (holds_of_mem h (by simp))
      (fun i n _ => visited_of_read rfl rfl rfl)
  have hevents : ScopeEvent.visit above self.node =
      .enter .block self :: visitAll self .body 0 body ++ [ScopeEvent.leave] := rfl
  have hwhole : self.Whole ↔ _ :=
    whole_iff_parts hcode hvisited.need (by intro _ _ hform; cases hform)
  rw [hevents, hwhole, clean_scope, hbody]
  simp [Form.parts, self]

/-- Nodes in a body whose place needs one. -/
theorem checked_container (inner : Site) {ns : List Node} {need : Need}
    (hcode : isCode inner.above = true) (hneed : need? inner.above = some need)
    (hmet : need.isMet inner.node.form = true) (hholds : inner.holdsCode .body = true)
    (hparts : (∀ p ∈ inner.node.form.parts, p.Whole inner) ↔ inner.WholeFrom .body 0 (ns.map some))
    (hchecked : ∀ n ∈ ns, n.Checked)
    (hvisited : ∀ i, ∀ n ∈ ns, Visited n (inner.frames ⟨.body, i⟩)) :
    Clean (visitAll inner .body 0 ns) ↔ inner.Whole := by
  rw [checked_all _ .body hcode hholds hchecked hvisited, Site.whole_iff_of_isMet hcode hneed hmet,
    hparts]

theorem Node.Checked.staticBlock {body : Option Node}
    (h : ∀ m : Node, sizeOf m < sizeOf (Form.staticBlock body) → m.Checked) :
    (Node.mk span (.staticBlock body)).Checked := by
  refine .of_visit rfl fun {above} hcode hvisited => ?_
  have hwhole : Site.Whole ⟨.mk span (.staticBlock body), above⟩ ↔ _ :=
    whole_iff_parts hcode hvisited.need nofun
  have hparts : (∀ p ∈ (Form.staticBlock body).parts, p.Whole
      ⟨.mk span (.staticBlock body), above⟩) ↔
      Site.WholeFrom ⟨.mk span (.staticBlock body), above⟩ .body 0 [body] := by simp [Form.parts]
  rw [hwhole, hparts]
  cases body with
  | none => exact iff_of_true (clean_scope.2 clean_nil) trivial
  | some n =>
    obtain ⟨bodySpan, form⟩ := n
    let self : Site := ⟨.mk span (.staticBlock (some (.mk bodySpan form))), above⟩
    have hframes : isCode (self.frames ⟨.body, 0⟩) = true := (isCode_frames .body hcode 0).trans rfl
    have hevents : ScopeEvent.visit above self.node = .enter .staticBlock self ::
        visitStatements (self.down ⟨.body, 0⟩ (.mk bodySpan form)) form ++ [ScopeEvent.leave] := rfl
    rw [hevents, clean_scope, Site.wholeFrom_some]
    cases form with
    | block body | program body | classBody body =>
      have hsize : sizeOf body < sizeOf self.node.form := by
        simp [self, Node.form]
        omega
      exact checked_container (self.down ⟨.body, 0⟩ _) hframes rfl rfl rfl
        (by simp [Form.parts, Node.form, Site.down]) (holds_of_mem h hsize.le)
        (fun i n _ => visited_of_read rfl rfl rfl)
    | _ => exact iff_of_false (not_clean_fault _) (Site.not_whole hframes (.need rfl rfl))

theorem checked_functionBody {k : Nat} (h : ∀ m : Node, sizeOf m < k → m.Checked) (self : Site)
    {body : Option Node} (hsize : sizeOf body ≤ k) (hcode : isCode self.above = true)
    (hholds : self.holdsCode .body = true) (hself : isBody (self.frames ⟨.body, 0⟩) = true)
    (hread : purpose (self.frames ⟨.body, 0⟩) = .read)
    (hneed : need? (self.frames ⟨.body, 0⟩) = none) :
    Clean (visitFunctionBody self body) ↔ self.WholeFrom .body 0 [body] := by
  cases body with
  | none => exact iff_of_true clean_nil trivial
  | some n =>
    have hframes : isCode (self.frames ⟨.body, 0⟩) = true :=
      (isCode_frames .body hcode 0).trans hholds
    simp only [Option.some.sizeOf_spec] at hsize
    rw [Site.wholeFrom_some]
    -- A block is the body of the function. Anything else is read for itself.
    by_cases hblock : ∃ body, n.form = .block body
    · obtain ⟨nSpan, form⟩ := n
      obtain ⟨body, rfl⟩ : ∃ body, form = .block body := hblock
      let inner := self.down ⟨.body, 0⟩ (.mk nSpan (.block body))
      have hbody : Clean (visitAll inner .body 0 body) ↔ inner.WholeFrom .body 0 (body.map some) :=
        checked_all inner .body hframes rfl (holds_of_mem h (by simp at hsize; omega))
          (fun i n _ => visited_of_read rfl rfl rfl)
      have hwhole : inner.Whole ↔ _ := whole_iff_parts hframes hneed nofun
      rw [visitFunctionBody, show (self.down ⟨.body, 0⟩ _).Whole ↔ _ from hwhole, hbody]
      simp [Form.parts, inner, Site.down]
    · have hnot : ∀ body, n.form ≠ .block body := fun body heq => hblock ⟨body, heq⟩
      have hvisit : visitFunctionBody self (some n) = ScopeEvent.visit
          (self.frames ⟨.body, 0⟩) n := by
        obtain ⟨nSpan, form⟩ := n
        cases form with
        | block body => exact absurd rfl (hnot body)
        | _ => rfl
      rw [hvisit]
      refine (h n (by omega)).visit hframes ⟨ordinary_body hself hnot, hneed, fun hbinds => ?_⟩
      rw [hread] at hbinds
      cases hbinds

/-- The parameters of a function. -/
theorem checked_params (self : Site) {params : List (Option Node)} {i : Nat}
    (hchecked : ∀ n, some n ∈ params → n.Checked) (hcode : isCode self.above = true)
    (hholds : self.holdsCode .params = true)
    (hplain : ∀ i, Frame.isPlain ⟨⟨.params, i⟩, self.node⟩ = true)
    (hmember : ∀ i, isMember (self.frames ⟨.params, i⟩) = false)
    (hu : ∀ i, purpose (self.frames ⟨.params, i⟩) = .parameter .parameter self)
    (hneed : ∀ i, need? (self.frames ⟨.params, i⟩) = none) :
    Clean (visitOptionalParams self i params) ↔ self.WholeFrom .params i params := by
  induction params generalizing i with
  | nil => exact iff_of_true clean_nil trivial
  | cons o params ih =>
    have hrest := @ih (i + 1) (fun n hn => hchecked n (.tail _ hn))
    cases o with
    | none => exact hrest
    | some n =>
      have hbinds : (purpose (self.frames ⟨.params, i⟩)).binds = true := by
        rw [hu]
        rfl
      have hfirst := (hchecked n (.head _)).pattern ((isCode_frames .params hcode i).trans hholds)
        hbinds (hneed i) (ordinary_of_bound (hplain i) (Purpose.inside_of_binds hbinds)
          fun _ _ _ _ _ _ _ => hmember i)
      rw [hu] at hfirst
      rw [visitOptionalParams, clean_append, clean_append, hrest]
      exact and_congr_left' hfirst

/-- What something is called by. -/
theorem whole_iff_name {n : Node} {need : Need} (hcode : isCode above = true)
    (hneed : need? above = some need) (hmet : ∀ f, need.isMet f = f.identifierName?.isSome) :
    Site.Whole ⟨n, above⟩ ↔ n.form.identifierName?.isSome = true := by
  obtain ⟨span, form⟩ := n
  let site : Site := ⟨.mk span form, above⟩
  cases hname : form.identifierName?.isSome with
  | true =>
    refine iff_of_true ((Site.whole_iff_of_isMet (s := site) hcode hneed ((hmet _).trans hname)).2
      ?_) hname
    cases form with
    | identifier | privateIdentifier | jsxIdentifier => simp [Form.parts, Node.form, site]
    | _ => cases hname
  | false =>
    refine iff_of_false (Site.not_whole hcode (.need hneed ((hmet _).trans hname))) fun hsome => ?_
    cases hname.symm.trans hsome

theorem checked_defining {n : Node} {kind : DefinitionKind} {node : Site} {parent : Option Site}
    {need : Need} (hcode : isCode above = true) (hneed : need? above = some need)
    (hmet : ∀ f, need.isMet f = f.identifierName?.isSome) :
    Clean [defining .here ⟨kind, ⟨n, above⟩, node, parent⟩] ↔ Site.Whole ⟨n, above⟩ := by
  rw [whole_iff_name hcode hneed hmet]
  constructor
  · intro hclean
    exact name_of_clean (hclean _ (.head _))
  · intro hname
    rw [defining_eq (show (Site.name? ⟨n, above⟩).isSome = true from hname)]
    exact clean_cons.2 ⟨rfl, clean_nil⟩

/-- The name of a function or of a class. -/
theorem checked_naming {kind : DefinitionKind} {self : Site} {name : Option Node}
    (hcode : isCode self.above = true) (hholds : self.holdsCode .name = true)
    (hneed : need? (self.frames ⟨.name, 0⟩) = some .name) :
    Clean (naming kind self name) ↔ self.WholeFrom .name 0 [name] := by
  cases name with
  | none => exact iff_of_true clean_nil trivial
  | some n =>
    have hframes : isCode (self.frames ⟨.name, 0⟩) = true :=
      (isCode_frames .name hcode 0).trans hholds
    rw [Site.wholeFrom_some, naming]
    exact checked_defining hframes hneed fun _ => rfl

theorem Node.Checked.arrowFunction {params : List (Option Node)} {body : Option Node}
    {isExpression isAsync : Bool}
    (h : ∀ m : Node, sizeOf m < sizeOf (Form.arrowFunction params body isExpression isAsync) →
      m.Checked) :
    (Node.mk span (.arrowFunction params body isExpression isAsync)).Checked := by
  refine .of_visit rfl fun {above} hcode hvisited => ?_
  let self : Site := ⟨.mk span (.arrowFunction params body isExpression isAsync), above⟩
  have hevents : ScopeEvent.visit above self.node =
      .enter .function self :: (visitOptionalParams self 0 params ++ visitFunctionBody self body)
        ++ [ScopeEvent.leave] := rfl
  have hparams : Clean (visitOptionalParams self 0 params) ↔ self.WholeFrom .params 0 params := by
    refine checked_params self ?_ hcode rfl (fun _ => rfl) (fun _ => rfl) (fun _ => rfl)
      (fun _ => rfl)
    intro n hn
    have hlt := sizeOf_lt_of_some_mem hn
    exact h n (by simp; omega)
  have hbody : Clean (visitFunctionBody self body) ↔ self.WholeFrom .body 0 [body] :=
    checked_functionBody h self (by simp; omega) hcode rfl rfl rfl rfl
  have hwhole : self.Whole ↔ _ :=
    whole_iff_parts hcode hvisited.need (by intro _ _ hform; cases hform)
  rw [hevents, hwhole, clean_scope, clean_append, hparams, hbody]
  simp [Form.parts, self]

theorem Node.Checked.function {placement : Placement} {name : Option Node} {params : List Node}
    {body : Option Node} {isGenerator isAsync : Bool}
    (h : ∀ m : Node, sizeOf m < sizeOf
      (Form.function placement name params body isGenerator isAsync) →
      m.Checked) :
    (Node.mk span (.function placement name params body isGenerator isAsync)).Checked := by
  refine .of_visit rfl fun {above} hcode hvisited => ?_
  let self : Site := ⟨.mk span (.function placement name params body isGenerator isAsync), above⟩
  -- The scopes around the name and the parameters are of no account here.
  have hevents : Clean (ScopeEvent.visit above self.node) ↔ Clean (naming .functionName self name) ∧
      Clean (visitParams self 0 params) ∧ Clean (visitFunctionBody self body) := by
    have hinner : Clean (.enter .function self :: (.implicit "arguments" ::
        (visitParams self 0 params ++ visitFunctionBody self body)) ++ [ScopeEvent.leave]) ↔
          Clean (visitParams self 0 params) ∧ Clean (visitFunctionBody self body) := by
      rw [clean_scope, clean_cons, clean_append]
      exact and_iff_right rfl
    cases placement with
    | declaration => exact clean_append.trans (and_congr_right' hinner)
    | expression =>
      cases name with
      | none => exact hinner.trans (and_iff_right clean_nil).symm
      | some n => exact clean_scope.trans (clean_append.trans (and_congr_right' hinner))
  have hname : Clean (naming .functionName self name) ↔ self.WholeFrom .name 0 [name] :=
    checked_naming hcode rfl rfl
  have hparams : Clean (visitParams self 0 params) ↔
      self.WholeFrom .params 0 (params.map some) := by
    rw [visitParams_eq_optional]
    refine checked_params self ?_ hcode rfl (fun _ => rfl) (fun _ => rfl) (fun _ => rfl)
      (fun _ => rfl)
    intro n hn
    have hlt : sizeOf n < sizeOf params := List.sizeOf_lt_of_mem (by simpa using hn)
    exact h n (by simp; omega)
  have hbody : Clean (visitFunctionBody self body) ↔ self.WholeFrom .body 0 [body] :=
    checked_functionBody h self (by simp; omega) hcode rfl rfl rfl rfl
  have hwhole : self.Whole ↔ _ :=
    whole_iff_parts hcode hvisited.need (by intro _ _ hform; cases hform)
  rw [hevents, hwhole, hname, hparams, hbody]
  simp [Form.parts, self]

theorem Node.Checked.classLike {placement : Placement} {name superClass body : Option Node}
    (h : ∀ m : Node, sizeOf m < sizeOf (Form.classLike placement name superClass body) →
      m.Checked) :
    (Node.mk span (.classLike placement name superClass body)).Checked := by
  refine .of_visit rfl fun {above} hcode hvisited => ?_
  let self : Site := ⟨.mk span (.classLike placement name superClass body), above⟩
  have hevents : ScopeEvent.visit above self.node = _ := visit_classLike
  have hname : Clean (naming .className self name) ↔ self.WholeFrom .name 0 [name] :=
    checked_naming hcode rfl rfl
  -- The name is said twice of a declared class, around the class and inside it.
  have houter : Clean (naming .className self name) → Clean (outerNaming self placement name) := by
    intro hclean
    cases placement with
    | declaration => exact hclean
    | expression => exact clean_nil
  have hsuper : Clean (visitOne self .superClass superClass) ↔
      self.WholeFrom .superClass 0 [superClass] :=
    checked_one self .superClass hcode rfl (holds_of_eq_some h (by simp; omega))
      (fun n _ => visited_of_read rfl rfl rfl)
  have hbody : Clean (visitClassBody self body) ↔ self.WholeFrom .body 0 [body] := by
    cases body with
    | none => exact iff_of_true clean_nil trivial
    | some n =>
      obtain ⟨bodySpan, form⟩ := n
      have hframes : isCode (self.frames ⟨.body, 0⟩) = true :=
        (isCode_frames .body hcode 0).trans rfl
      rw [Site.wholeFrom_some]
      cases form with
      | classBody members =>
        exact checked_container (self.down ⟨.body, 0⟩ _) hframes rfl rfl rfl
          (by simp [Form.parts, Node.form, Site.down]) (holds_of_mem h (by simp; omega))
          (fun i n _ => visited_of_read rfl rfl rfl)
      | _ => exact iff_of_false (not_clean_fault _) (Site.not_whole hframes (.need rfl rfl))
  have hwhole : self.Whole ↔ _ :=
    whole_iff_parts hcode hvisited.need (by intro _ _ hform; cases hform)
  rw [hevents, hwhole, clean_append, clean_append, clean_scope, clean_append, hsuper, hbody]
  simp only [self, Form.parts, List.forall_mem_cons, List.not_mem_nil, false_imp_iff, implies_true,
    and_true, Part.whole_one, ← hname]
  tauto

theorem Node.Checked.catchClause {param body : Option Node}
    (h : ∀ m : Node, sizeOf m < sizeOf (Form.catchClause param body) → m.Checked) :
    (Node.mk span (.catchClause param body)).Checked := by
  refine .of_visit rfl fun {above} hcode hvisited => ?_
  let self : Site := ⟨.mk span (.catchClause param body), above⟩
  have hevents : ScopeEvent.visit above self.node = .enter .handler self ::
      (visitPattern self .param (fun x => [defining .here ⟨.caught, x, self, none⟩]) param ++
        visitOne self .body body) ++ [ScopeEvent.leave] := rfl
  have hparam : Clean (visitPattern self .param
      (fun x => [defining .here ⟨.caught, x, self, none⟩]) param) ↔
      self.WholeFrom .param 0 [param] :=
    checked_pattern self .param rfl (holds_of_eq_some h (by simp; omega)) hcode rfl rfl rfl
      (fun n _ => ordinary_of_bound rfl rfl fun _ _ _ _ _ _ _ => rfl)
  have hbody : Clean (visitOne self .body body) ↔ self.WholeFrom .body 0 [body] :=
    checked_one self .body hcode rfl (holds_of_eq_some h (by simp))
      (fun n _ => visited_of_read rfl rfl rfl)
  have hwhole : self.Whole ↔ _ :=
    whole_iff_parts hcode hvisited.need (by intro _ _ hform; cases hform)
  rw [hevents, hwhole, clean_scope, clean_append, hparam, hbody]
  simp [Form.parts, self]

theorem Node.Checked.switch {discriminant : Option Node} {cases : List Node}
    (h : ∀ m : Node, sizeOf m < sizeOf (Form.switch discriminant cases) → m.Checked) :
    (Node.mk span (.switch discriminant cases)).Checked := by
  refine .of_visit rfl fun {above} hcode hvisited => ?_
  let self : Site := ⟨.mk span (.switch discriminant cases), above⟩
  have hevents : ScopeEvent.visit above self.node = visitOne self .discriminant discriminant ++
      (.enter .switchBody self :: visitAll self .cases 0 cases ++ [ScopeEvent.leave]) :=
    List.append_assoc (visitOne self .discriminant discriminant) _ _
  have htest : Clean (visitOne self .discriminant discriminant) ↔
      self.WholeFrom .discriminant 0 [discriminant] :=
    checked_one self .discriminant hcode rfl (holds_of_eq_some h (by simp; omega))
      (fun n _ => visited_of_read rfl rfl rfl)
  have hcases : Clean (visitAll self .cases 0 cases) ↔ self.WholeFrom .cases 0 (cases.map some) :=
    checked_all self .cases hcode rfl (holds_of_mem h (by simp))
      (fun i n _ => visited_of_read rfl rfl rfl)
  have hwhole : self.Whole ↔ _ :=
    whole_iff_parts hcode hvisited.need (by intro _ _ hform; cases hform)
  rw [hevents, hwhole, clean_append, clean_scope, htest, hcases]
  simp [Form.parts, self]

theorem Node.Checked.forLoop {init test update body : Option Node}
    (h : ∀ m : Node, sizeOf m < sizeOf (Form.forLoop init test update body) → m.Checked) :
    (Node.mk span (.forLoop init test update body)).Checked := by
  refine .of_visit rfl fun {above} hcode hvisited => ?_
  let self : Site := ⟨.mk span (.forLoop init test update body), above⟩
  have hparts : self.node.form.parts.flatMap (·.visitCode self) = visitOne self .init init ++
      visitOne self .test test ++ visitOne self .update update ++ visitOne self .body body := by
    simp [self, Form.parts, Node.form, Part.visitCode_one, Site.holdsCode]
  have hclean : Clean (self.node.form.parts.flatMap (·.visitCode self)) ↔
      ∀ p ∈ self.node.form.parts, p.Whole self := by
    refine clean_parts self hcode fun slot n hmem _ => ⟨h n (Form.sizeOf_child_lt hmem), ?_⟩
    exact visited_of_read rfl rfl rfl
  have hwhole : self.Whole ↔ _ :=
    whole_iff_parts hcode hvisited.need (by intro _ _ hform; cases hform)
  rw [show ScopeEvent.visit above self.node = _ from visitForm_forLoop self init test update body,
    ← hparts, hwhole, ← show _ ↔ ∀ p ∈ (Form.forLoop init test update body).parts, p.Whole self
      from hclean]
  split
  · exact clean_scope
  · rfl

end Scopes

/-! ## Declarations -/

section Declarations

variable {span : Span} {above : List Frame} {keyword : String} {declarations : List Node}

theorem checked_declarator {k : Nat} (h : ∀ m : Node, sizeOf m < k → m.Checked)
    (hcode : isCode above = true) {n : Node} (hn : sizeOf n < k) {i : Nat} :
    let self : Site := ⟨.mk span (.variableDeclaration keyword declarations), above⟩
    Clean (visitDeclarators self self.target (isLoopVariable above) i [n]) ↔
      (self.down ⟨.declarations, i⟩ n).Whole := by
  intro self
  have hframes : isCode (self.frames ⟨.declarations, i⟩) = true :=
    (isCode_frames .declarations hcode i).trans rfl
  obtain ⟨nSpan, form⟩ := n
  cases form with
  | variableDeclarator bound init =>
    let declarator := self.down ⟨.declarations, i⟩ (.mk nSpan (.variableDeclarator bound init))
    have hname := checked_pattern declarator .name (o := bound) binding_declarator
      (holds_of_eq_some h (by simp at hn; omega)) hframes rfl rfl rfl
      (fun n _ => ordinary_of_bound rfl rfl fun _ _ _ _ _ _ _ => rfl)
    have hvalue : Clean (visitOne declarator .init init) ↔ declarator.WholeFrom .init 0 [init] :=
      checked_one declarator .init hframes rfl (holds_of_eq_some h (by simp at hn; omega))
        (fun n _ => visited_of_read rfl rfl rfl)
    have hwhole : declarator.Whole ↔ _ := Site.whole_iff_of_isMet hframes rfl rfl
    simp only [visitDeclarators, List.append_nil, clean_append]
    rw [show (self.down ⟨.declarations, i⟩ _).Whole ↔ _ from hwhole,
      show Clean (visitPattern _ .name _ bound) ↔ _ from hname, hvalue]
    simp [Form.parts, Node.form, declarator, Site.down]
  | _ => exact iff_of_false (not_clean_fault _) (Site.not_whole hframes (.need rfl rfl))

theorem checked_declarators {k : Nat} (h : ∀ m : Node, sizeOf m < k → m.Checked)
    (hcode : isCode above = true) {ns : List Node} (hns : sizeOf ns ≤ k) {i : Nat} :
    let self : Site := ⟨.mk span (.variableDeclaration keyword declarations), above⟩
    Clean (visitDeclarators self self.target (isLoopVariable above) i ns) ↔
      self.WholeFrom .declarations i (ns.map some) := by
  intro self
  induction ns generalizing i with
  | nil => exact iff_of_true clean_nil trivial
  | cons n ns ih =>
    simp only [List.cons.sizeOf_spec] at hns
    have hfirst : Clean (visitDeclarators self self.target (isLoopVariable above) i [n]) ↔
        (self.down ⟨.declarations, i⟩ n).Whole := checked_declarator h hcode (by omega)
    rw [visitDeclarators_cons, clean_append, hfirst, ih (by omega)]
    rfl

theorem whole_iff_declarations (hcode : isCode above = true) (hneed : need? above = none) :
    Site.Whole ⟨.mk span (.variableDeclaration keyword declarations), above⟩ ↔
      Site.WholeFrom ⟨.mk span (.variableDeclaration keyword declarations), above⟩ .declarations 0
        (declarations.map some) := by
  have hwhole : Site.Whole ⟨.mk span (.variableDeclaration keyword declarations), above⟩ ↔ _ :=
    whole_iff_parts hcode hneed nofun
  rw [hwhole]
  simp [Form.parts]

theorem Node.Checked.variableDeclaration
    (h : ∀ m : Node, sizeOf m < sizeOf (Form.variableDeclaration keyword declarations) →
      m.Checked) :
    (Node.mk span (.variableDeclaration keyword declarations)).Checked := by
  refine .of_visit rfl fun {above} hcode hvisited => ?_
  have hloop : isLoopVariable above = false := hvisited.ordinary
  let self : Site := ⟨.mk span (.variableDeclaration keyword declarations), above⟩
  have hdeclarators : Clean
      (visitDeclarators self self.target (isLoopVariable above) 0 declarations) ↔
      self.WholeFrom .declarations 0 (declarations.map some) :=
        checked_declarators h hcode (by simp)
  rw [hloop] at hdeclarators
  rw [whole_iff_declarations hcode hvisited.need]
  exact hdeclarators

section Loops

variable {iteration : Iteration} {left right body : Option Node} {isAwait : Bool}

/-- A loop that declares its variable reads the declaration as that of a loop. -/
theorem checked_declaringLoop {leftSpan : Span}
    (hleft : left = some (.mk leftSpan (.variableDeclaration keyword declarations)))
    (h : ∀ m : Node, sizeOf m < sizeOf (Form.forEach iteration left right body isAwait) → m.Checked)
    (hcode : isCode above = true) :
    let self : Site := ⟨.mk span (.forEach iteration left right body isAwait), above⟩
    Clean (ScopeEvent.visit above self.node) ↔
      self.WholeFrom .left 0 [left] ∧
        Clean (visitOne self .right right ++ visitOne self .body body) := by
  intro self
  subst hleft
  let declaration : Site :=
    self.down ⟨.left, 0⟩ (.mk leftSpan (.variableDeclaration keyword declarations))
  have hframes : isCode declaration.above = true := (isCode_frames .left hcode 0).trans rfl
  have hvariable : Clean (visitDeclarators declaration declaration.target true 0 declarations) ↔
      self.WholeFrom .left 0 [some declaration.node] := by
    rw [Site.wholeFrom_some, show (self.down ⟨.left, 0⟩ declaration.node).Whole ↔ _ from
      whole_iff_declarations hframes rfl]
    exact checked_declarators h hframes (by simp; omega)
  have hevents : ScopeEvent.visit above self.node = if keyword = "var"
      then visitDeclarators declaration declaration.target true 0 declarations
        ++ (visitOne self .right right ++ visitOne self .body body)
      else .enter .loop self :: (visitDeclarators declaration declaration.target true 0 declarations
        ++ (visitOne self .right right ++ visitOne self .body body)) ++ [ScopeEvent.leave] := rfl
  refine Iff.trans ?_ (and_congr_left' hvariable)
  rw [hevents, ← clean_append]
  split
  · rfl
  · exact clean_scope

/-- A loop that writes a pattern reads it as one. -/
theorem checked_writingLoop
    (hnot : ∀ n keyword declarations, left = some n →
      n.form ≠ .variableDeclaration keyword declarations)
    (h : ∀ m : Node, sizeOf m < sizeOf (Form.forEach iteration left right body isAwait) → m.Checked)
    (hcode : isCode above = true) :
    let self : Site := ⟨.mk span (.forEach iteration left right body isAwait), above⟩
    Clean (ScopeEvent.visit above self.node) ↔
      self.WholeFrom .left 0 [left] ∧
        Clean (visitOne self .right right ++ visitOne self .body body) := by
  intro self
  have hevents : ScopeEvent.visit above self.node = _ :=
    visitForm_forEach_pattern hnot self iteration right body isAwait
  rw [hevents, clean_append]
  refine and_congr_left'
    (checked_pattern self .left rfl (holds_of_eq_some h ?_) hcode rfl rfl rfl ?_)
  · simp
    omega
  · exact fun n hn hform => ordinary_loopVariable hform (hnot n · · hn)

theorem Node.Checked.forEach
    (h : ∀ m : Node, sizeOf m < sizeOf (Form.forEach iteration left right body isAwait) →
      m.Checked) :
    (Node.mk span (.forEach iteration left right body isAwait)).Checked := by
  refine .of_visit rfl fun {above} hcode hvisited => ?_
  let self : Site := ⟨.mk span (.forEach iteration left right body isAwait), above⟩
  have hrest : Clean (visitOne self .right right ++ visitOne self .body body) ↔
      self.WholeFrom .right 0 [right] ∧ self.WholeFrom .body 0 [body] := by
    rw [clean_append]
    refine and_congr ?_ ?_
    · exact checked_one self .right hcode rfl (holds_of_eq_some h (by simp; omega))
        (fun n _ => visited_of_read rfl rfl rfl)
    · exact checked_one self .body hcode rfl (holds_of_eq_some h (by simp; omega))
        (fun n _ => visited_of_read rfl rfl rfl)
  have hevents : Clean (ScopeEvent.visit above self.node) ↔
      self.WholeFrom .left 0 [left] ∧
        Clean (visitOne self .right right ++ visitOne self .body body) := by
    by_cases hdeclaration : ∃ leftSpan keyword declarations,
        left = some (.mk leftSpan (.variableDeclaration keyword declarations))
    · obtain ⟨leftSpan, keyword, declarations, hleft⟩ := hdeclaration
      exact checked_declaringLoop hleft h hcode
    · refine checked_writingLoop ?_ h hcode
      rintro ⟨leftSpan, form⟩ keyword declarations hleft hform
      obtain rfl : form = .variableDeclaration keyword declarations := hform
      exact hdeclaration ⟨leftSpan, keyword, declarations, hleft⟩
  have hwhole : self.Whole ↔ _ :=
    whole_iff_parts hcode hvisited.need (by intro _ _ hform; cases hform)
  rw [hevents, hwhole, hrest]
  simp [Form.parts, self]

end Loops

end Declarations

/-! ## Modules -/

section Modules

variable {span : Span} {above : List Frame} {specifiers : List Node} {source : Option Node}

/-- A specifier of an import is whole if what it imports under is a name. -/
theorem checked_imported (site : Site) {self : Site} {binding : Node}
    (hcode : isCode site.above = true) (hneed : need? site.above = some .importSpecifier)
    (hmet : Need.importSpecifier.isMet site.node.form = true)
    (hholds : site.holdsCode .binding = true)
    (hname : need? (site.frames ⟨.binding, 0⟩) = some .binding)
    (hparts : (∀ p ∈ site.node.form.parts, p.Whole site) ↔
      site.WholeFrom .binding 0 [some binding]) :
    Clean [defining .here ⟨.imported, site.down ⟨.binding, 0⟩ binding, site, some self⟩] ↔
      site.Whole := by
  rw [Site.whole_iff_of_isMet hcode hneed hmet, hparts, Site.wholeFrom_some]
  exact checked_defining ((isCode_frames .binding hcode 0).trans hholds) hname fun _ => rfl

theorem checked_importing (hcode : isCode above = true) {specifier : Node} {i : Nat} :
    let self : Site := ⟨.mk span (.importDeclaration specifiers source), above⟩
    Clean [importing self specifier i] ↔ (self.down ⟨.specifiers, i⟩ specifier).Whole := by
  intro self
  have hframes : isCode (self.frames ⟨.specifiers, i⟩) = true :=
    (isCode_frames .specifiers hcode i).trans rfl
  obtain ⟨nSpan, form⟩ := specifier
  cases form with
  | importDefault binding | importNamespace binding =>
    exact checked_imported (self.down ⟨.specifiers, i⟩ _) hframes rfl rfl rfl rfl
      (by simp [Form.parts, Node.form, Site.down])
  | importSpecifier imported binding =>
    let site := self.down ⟨.specifiers, i⟩ (.mk nSpan (.importSpecifier imported binding))
    refine checked_imported site hframes rfl rfl rfl rfl ?_
    have hskipped := site.wholeFrom_of_not_code .imported rfl 0 [some imported]
    simp only [site, Site.down, Node.form, Form.parts, List.forall_mem_cons, List.not_mem_nil,
      false_imp_iff, implies_true, and_true, Part.whole_one] at hskipped ⊢
    exact and_iff_right hskipped
  | _ => exact iff_of_false (not_clean_fault _) (Site.not_whole hframes (.need rfl rfl))

theorem checked_importings (hcode : isCode above = true) {ns : List Node} {i : Nat} :
    let self : Site := ⟨.mk span (.importDeclaration specifiers source), above⟩
    Clean ((ns.zipIdx i).map fun (specifier, i) => importing self specifier i) ↔
      self.WholeFrom .specifiers i (ns.map some) := by
  intro self
  induction ns generalizing i with
  | nil => exact iff_of_true clean_nil trivial
  | cons n ns ih =>
    have hfirst : Clean [importing self n i] ↔ (self.down ⟨.specifiers, i⟩ n).Whole :=
      checked_importing hcode
    rw [List.zipIdx_cons, List.map_cons, ← List.singleton_append, clean_append, hfirst, ih]
    rfl

theorem Node.Checked.importDeclaration :
    (Node.mk span (.importDeclaration specifiers source)).Checked := by
  refine .of_visit rfl fun {above} hcode hvisited => ?_
  let self : Site := ⟨.mk span (.importDeclaration specifiers source), above⟩
  have hsource := self.wholeFrom_of_not_code .source rfl 0 [source]
  have hspecifiers : Clean (ScopeEvent.visit above self.node) ↔
      self.WholeFrom .specifiers 0 (specifiers.map some) := checked_importings hcode
  have hwhole : self.Whole ↔ _ :=
    whole_iff_parts hcode hvisited.need (by intro _ _ hform; cases hform)
  rw [hspecifiers, hwhole]
  simp only [self, Form.parts, List.forall_mem_cons, List.not_mem_nil, false_imp_iff, implies_true,
    and_true, Part.whole_one, Part.whole_all] at hsource ⊢
  exact (and_iff_left hsource).symm

/-- What an export lists is a name or a text, and neither lacks anything. -/
theorem whole_exportSpecifier {binding exported : Node} (hcode : isCode above = true)
    (hneed : need? above = some .exportSpecifier) (hlisted : isExported above = true) :
    Site.Whole ⟨.mk span (.exportSpecifier binding exported), above⟩ := by
  let site : Site := ⟨.mk span (.exportSpecifier binding exported), above⟩
  have hexported : site.WholeFrom .exported 0 [some exported] := by
    refine site.wholeFrom_of_not_code .exported ?_ 0 _
    simp [Site.holdsCode, site, Node.form, hlisted]
  have hbinding : site.WholeFrom .binding 0 [some binding] := by
    obtain ⟨nameSpan, nameForm⟩ := binding
    cases nameForm with
    | identifier name =>
      rw [Site.wholeFrom_some]
      refine whole_identifier ((isCode_frames .binding hcode 0).trans ?_) rfl name
      simp [Site.holdsCode, site, Node.form, Node.isIdentifier]
    | _ =>
      refine site.wholeFrom_of_not_code .binding ?_ 0 _
      simp [Site.holdsCode, site, Node.form, hlisted, Node.isIdentifier]
  refine (Site.whole_iff_of_isMet (s := site) hcode hneed rfl).2 ?_
  simp only [site, Node.form, Form.parts, List.forall_mem_cons, List.not_mem_nil, false_imp_iff,
    implies_true, and_true, Part.whole_one]
  exact ⟨hbinding, hexported⟩

/-- The names that an export lists. -/
theorem checked_exports (hcode : isCode above = true) {ns : List Node} {i : Nat} :
    let self : Site := ⟨.mk span (.exportNamed none specifiers none), above⟩
    Clean (visitExports self i ns) ↔ self.WholeFrom .specifiers i (ns.map some) := by
  intro self
  induction ns generalizing i with
  | nil => exact iff_of_true clean_nil trivial
  | cons n ns ih =>
    have hframes : isCode (self.frames ⟨.specifiers, i⟩) = true :=
      (isCode_frames .specifiers hcode i).trans rfl
    obtain ⟨nSpan, form⟩ := n
    cases form with
    | exportSpecifier binding exported =>
      have hsite : (self.down ⟨.specifiers, i⟩
          (.mk nSpan (.exportSpecifier binding exported))).Whole :=
        whole_exportSpecifier hframes rfl rfl
      have hevents : Clean (visitExports self i
          (.mk nSpan (.exportSpecifier binding exported) :: ns)) ↔
          Clean (visitExports self (i + 1) ns) := by
        obtain ⟨nameSpan, nameForm⟩ := binding
        cases nameForm with
        | identifier name => exact clean_cons.trans (and_iff_right rfl)
        | _ => rfl
      rw [hevents, ih]
      exact (and_iff_right hsite).symm
    | _ =>
      refine iff_of_false (fun hclean => ?_) fun hwhole => ?_
      · cases hclean _ (.head _)
      · exact absurd hwhole.1 (Site.not_whole hframes (.need rfl rfl))

/-- An export without a declaration and without a source lists names. -/
theorem Node.Checked.exportList : (Node.mk span (.exportNamed none specifiers none)).Checked := by
  refine .of_visit rfl fun {above} hcode hvisited => ?_
  let self : Site := ⟨.mk span (.exportNamed none specifiers none), above⟩
  have hlisted : Clean (ScopeEvent.visit above self.node) ↔
      self.WholeFrom .specifiers 0 (specifiers.map some) := checked_exports hcode
  have hwhole : self.Whole ↔ _ :=
    whole_iff_parts hcode hvisited.need (by intro _ _ hform; cases hform)
  rw [hlisted, hwhole]
  simp [Form.parts, Site.WholeFrom, self]

end Modules

/-! ## Writes -/

section Writes

variable {span : Span} {above : List Frame}

/-- A target that is read and written. -/
theorem checked_target (self : Site) (role : Role) {o : Option Node} {value : Option Site}
    (hchecked : ∀ n, o = some n → n.Checked) (hcode : isCode self.above = true)
    (hholds : self.holdsCode role = true) (hplain : Frame.isPlain ⟨⟨role, 0⟩, self.node⟩ = true)
    (hu : purpose (self.frames ⟨role, 0⟩) = .update value)
    (hneed : need? (self.frames ⟨role, 0⟩) = none) :
    Clean (visitTarget self role value o) ↔ self.WholeFrom role 0 [o] := by
  have hframes : isCode (self.frames ⟨role, 0⟩) = true := (isCode_frames role hcode 0).trans hholds
  cases o with
  | none => exact iff_of_true clean_nil trivial
  | some n =>
    rw [Site.wholeFrom_some]
    obtain ⟨nSpan, form⟩ := n
    by_cases hname : ∃ name, form = .identifier name
    · obtain ⟨name, rfl⟩ := hname
      refine iff_of_true ?_ (whole_identifier hframes hneed name)
      exact clean_cons.2 ⟨rfl, clean_nil⟩
    · obtain ⟨hevents, hordinary⟩ :=
        ordinary_target hplain hu (fun name heq => hname ⟨name, heq⟩) nSpan
      rw [hevents]
      refine (hchecked _ rfl).visit hframes ⟨hordinary, hneed, fun hbinds => ?_⟩
      rw [hu] at hbinds
      cases hbinds

theorem Node.Checked.update {operator : Text} {before : Bool} {argument : Option Node}
    (h : ∀ m : Node, sizeOf m < sizeOf (Form.update operator before argument) → m.Checked) :
    (Node.mk span (.update operator before argument)).Checked := by
  refine .of_visit rfl fun {above} hcode hvisited => ?_
  let self : Site := ⟨.mk span (.update operator before argument), above⟩
  have hevents : ScopeEvent.visit above self.node = _ :=
    visitForm_update self operator before argument
  have htarget : Clean (visitTarget self .argument none argument) ↔
      self.WholeFrom .argument 0 [argument] :=
    checked_target self .argument (holds_of_eq_some h (by simp)) hcode rfl rfl rfl rfl
  have hwhole : self.Whole ↔ _ :=
    whole_iff_parts hcode hvisited.need (by intro _ _ hform; cases hform)
  rw [hevents, hwhole, htarget]
  simp [Form.parts, self]

theorem Node.Checked.assignment {operator : Text} {left right : Option Node}
    (h : ∀ m : Node, sizeOf m < sizeOf (Form.assignment operator left right) → m.Checked) :
    (Node.mk span (.assignment operator left right)).Checked := by
  refine .of_visit rfl fun {above} hcode hvisited => ?_
  let self : Site := ⟨.mk span (.assignment operator left right), above⟩
  have hevents : ScopeEvent.visit above self.node = _ :=
    visitForm_assignment self operator left right
  -- Any operator but `=` reads the target before it writes it.
  have hpurpose : purpose (self.frames ⟨.left, 0⟩) = if operator = Text.ofString "="
      then .write (self.downOption .right right) else .update (self.downOption .right right) := rfl
  have hleft : Clean (if operator = Text.ofString "="
      then visitPattern self .left (writing (self.downOption .right right)) left
      else visitTarget self .left (self.downOption .right right) left) ↔
      self.WholeFrom .left 0 [left] := by
    have hchecked : ∀ n, left = some n → n.Checked := holds_of_eq_some h (by simp; omega)
    split
    · rename_i hplain
      rw [if_pos hplain] at hpurpose
      refine checked_pattern self .left ?_ hchecked hcode rfl ?_ rfl ?_
      · rw [hpurpose]
        rfl
      · rw [hpurpose]
        rfl
      · refine fun n _ => ordinary_of_bound rfl ?_ fun _ _ _ _ _ _ _ => rfl
        rw [show purpose (_ :: above) = _ from hpurpose]
        rfl
    · rename_i hplain
      rw [if_neg hplain] at hpurpose
      exact checked_target self .left hchecked hcode rfl rfl hpurpose rfl
  have hright : Clean (visitOne self .right right) ↔ self.WholeFrom .right 0 [right] :=
    checked_one self .right hcode rfl (holds_of_eq_some h (by simp))
      (fun n _ => visited_of_read rfl rfl rfl)
  have hwhole : self.Whole ↔ _ :=
    whole_iff_parts hcode hvisited.need (by intro _ _ hform; cases hform)
  rw [hevents, hwhole, clean_append, hleft, hright]
  simp [Form.parts, self]

end Writes

/-! ## Programs -/

/-- **The events of a node are clean exactly if nothing is lacking in it.** -/
theorem Node.checked (n : Node) : n.Checked := by
  obtain ⟨span, f⟩ := n
  have h : ∀ m : Node, sizeOf m < sizeOf f → m.Checked := fun m hm => m.checked
  cases f with
  | identifier name => exact .identifier name
  | objectPattern => exact .objectPattern h
  | arrayPattern => exact .arrayPattern h
  | restElement => exact .restElement h
  | assignmentPattern => exact .assignmentPattern h
  | other => exact .other h
  | block => exact .block h
  | staticBlock => exact .staticBlock h
  | function => exact .function h
  | arrowFunction => exact .arrowFunction h
  | classLike => exact .classLike h
  | catchClause => exact .catchClause h
  | switch => exact .switch h
  | forLoop => exact .forLoop h
  | forEach => exact .forEach h
  | variableDeclaration => exact .variableDeclaration h
  | importDeclaration => exact .importDeclaration
  | assignment => exact .assignment h
  | update => exact .update h
  | exportNamed declaration specifiers source =>
    obtain _ | declaration := declaration <;> obtain _ | source := source
    · exact .exportList
    · exact .transparent rfl rfl h
    · exact .transparent rfl rfl h
    · exact .transparent rfl rfl h
  | _ => exact .transparent rfl rfl h
termination_by sizeOf n
decreasing_by all_goals simp; omega

theorem exists_mapM_some {α β : Type} {f : α → Option β} {as : List α}
    (h : ∀ a ∈ as, (f a).isSome = true) : ∃ bs, as.mapM f = some bs := by
  induction as with
  | nil => exact ⟨[], rfl⟩
  | cons a as ih =>
    obtain ⟨ha, has⟩ := List.forall_mem_cons.1 h
    obtain ⟨b, hb⟩ := Option.isSome_iff_exists.1 ha
    obtain ⟨bs, hbs⟩ := ih has
    refine ⟨b :: bs, ?_⟩
    rw [List.mapM_cons, hb, hbs]
    rfl

/-- Events in which nothing is missing make a scope graph. -/
theorem ScopeGraph.exists_analyze_iff_clean {program : Node} :
    (∃ g, analyze program = .ok g) ↔ Clean program.scopeEvents := by
  constructor
  · rintro ⟨g, hg⟩
    exact clean_of_analyze hg
  · intro hclean
    have hfault : firstFault? program.scopeEvents = none := by
      refine List.findSome?_eq_none_iff.2 fun e he => ?_
      cases e with
      | fault f => cases hclean _ he
      | _ => rfl
    have hnamed : ∀ p ∈ (ScopeBuilder.run program.scopeEvents).mentions.reverse,
        p.2.identifier.name?.isSome = true := by
      rintro ⟨j, m⟩ hm
      obtain hempty | hplace := ScopeBuilder.place_of_mention (List.mem_reverse.1 hm)
      · cases hempty
      · exact hclean _ (ScopeBuilder.mem_of_mem_places _ hplace)
    let scopes := (ScopeBuilder.run program.scopeEvents).scopes
    obtain ⟨references, hreferences⟩ : ∃ references,
        (ScopeBuilder.run program.scopeEvents).mentions.reverse.mapM (fun p =>
          p.2.identifier.name?.map fun name => resolve scopes p.1 name p.2) =
        some references := exists_mapM_some fun p hp => Option.isSome_map.trans (hnamed p hp)
    refine ⟨⟨program, addUndeclared scopes references, references⟩, ?_⟩
    simp only [analyze, hfault, hreferences, scopes]

/-- **A program has scopes exactly if nothing is lacking in its code.** -/
theorem ScopeGraph.exists_analyze_iff {span : Span} {body : List Node} {sourceType : Text} :
    (∃ g, analyze (.mk span (.program body sourceType)) = .ok g) ↔
      (Site.root (.mk span (.program body sourceType))).Whole := by
  let root := Site.root (.mk span (.program body sourceType))
  have hbody : Clean (visitAll root .body 0 body) ↔ root.WholeFrom .body 0 (body.map some) :=
    checked_all root .body rfl rfl (fun n _ => n.checked) (fun i n _ => visited_of_read rfl rfl rfl)
  have hevents : Clean (bodyEvents root body sourceType) ↔ Clean (visitAll root .body 0 body) := by
    unfold bodyEvents
    split
    · exact clean_scope
    · rfl
  have hwhole : root.Whole ↔ _ := whole_iff_parts rfl rfl nofun
  rw [exists_analyze_iff_clean, scopeEvents_program, clean_scope, show Clean (bodyEvents _ _ _) ↔
    _ from hevents, show Site.Whole (Site.root _) ↔ _ from hwhole, hbody]
  simp [Form.parts, root, Site.root]

end ApiTrace
