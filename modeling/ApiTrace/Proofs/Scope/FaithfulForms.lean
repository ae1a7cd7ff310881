import ApiTrace.Proofs.Scope.Blocks
import ApiTrace.Proofs.Scope.Faithful

/-!
# Faithful constructs

The constructs that open scopes, declare names or write them are faithful too, so every node is
(`Node.faithful`): the events of a program say what its places say.
-/

namespace ApiTrace

open ScopeEvent

variable {span : Span} {above : List Frame}

/-! ## Places where a pattern is expected -/

section Binding

variable {self : Site} {slot : Slot} {n : Node}

/-- The events of a pattern in a place that binds or writes its names. -/
theorem Node.Faithful.bound (h : n.Faithful) (hcode : isCode (self.frames slot) = true)
    {bind : Site → List ScopeEvent} (hbind : bind = (purpose (self.frames slot)).binding)
    (hu : (purpose (self.frames slot)).inside = purpose (self.frames slot))
    (hordinary : n.form.isPattern = false → Ordinary n (self.frames slot))
    (hclean : Clean (visitBindings (self.frames slot) bind n ++ visitInside (self.frames slot) n)) :
    Yields (regions (self.frames slot))
      (visitBindings (self.frames slot) bind n ++ visitInside (self.frames slot) n)
      (self.down slot n).told := by
  subst hbind
  rw [clean_append] at hclean
  exact (h.pattern hcode hu hordinary hclean.1 hclean.2).yields

/-- An optional pattern in a place that binds or writes its names. -/
theorem yields_pattern (self : Site) (role : Role) {o : Option Node} {bind : Site → List ScopeEvent}
    (hbind : bind = (purpose (self.frames ⟨role, 0⟩)).binding)
    (hfaithful : ∀ n, o = some n → n.Faithful) (hcode : isCode self.above = true)
    (hholds : self.holdsCode role = true)
    (hu : (purpose (self.frames ⟨role, 0⟩)).inside = purpose (self.frames ⟨role, 0⟩))
    (hordinary : ∀ n, o = some n → n.form.isPattern = false → Ordinary n (self.frames ⟨role, 0⟩))
    (hclean : Clean (visitPattern self role bind o)) :
    Yields (self.opens role ++ regions self.above) (visitPattern self role bind o)
      (self.toldFrom role 0 [o]) := by
  cases o with
  | none => exact .nil
  | some n =>
    rw [Site.toldFrom_some]
    exact (hfaithful n rfl).bound ((isCode_frames role hcode 0).trans hholds) hbind hu
      (hordinary n rfl) hclean

end Binding

/-! ## Names -/

/-- What something is called by. -/
theorem told_name {n : Node} (hcode : isCode above = true) (hu : (purpose above).isName = true)
    (hn : n.form.identifierName?.isSome = true) :
    Site.told ⟨n, above⟩ = ↑((purpose above).sayings (regions above) ⟨n, above⟩) := by
  obtain ⟨span, form⟩ := n
  rw [Site.told_eq (s := ⟨_, above⟩) hcode]
  cases form with
  | identifier | privateIdentifier | jsxIdentifier =>
    simp [Form.parts, Node.form, Site.sayings, Site.opened, enters, hu]
  | _ => cases hn

theorem name_of_clean {target : Target} {d : Definition} (h : (defining target d).isClean = true) :
    d.name.name?.isSome = true := by
  unfold defining at h
  split at h
  · assumption
  · cases h

theorem defining_eq {target : Target} {d : Definition} (h : d.name.name?.isSome = true) :
    defining target d = .define target d := if_pos h

/-! ## Blocks -/

section Scopes

variable {P : Node → Prop} {k : Nat} (h : ∀ m : Node, sizeOf m < k → P m)

include h

theorem holds_of_mem {ns : List Node} (hns : sizeOf ns ≤ k) : ∀ n ∈ ns, P n := by
  intro n hn
  have hlt := List.sizeOf_lt_of_mem hn
  exact h n (by omega)

theorem holds_of_eq_some {o : Option Node} (ho : sizeOf o ≤ k) : ∀ n, o = some n → P n := by
  rintro n rfl
  simp only [Option.some.sizeOf_spec] at ho
  exact h n (by omega)

end Scopes

theorem Node.Faithful.block {body : List Node}
    (h : ∀ m : Node, sizeOf m < sizeOf (Form.block body) → m.Faithful) :
    (Node.mk span (.block body)).Faithful := by
  refine .of_visit rfl fun {above} hcode hordinary hclean => ?_
  let self : Site := ⟨.mk span (.block body), above⟩
  have hbody : isBody above = false := hordinary
  have hopened : self.opened = [⟨.block, self⟩] := by
    show (if isBody above then _ else _) = _
    rw [hbody]
    rfl
  have hinside := yields_all self .body hcode rfl (holds_of_mem h (by simp))
    (fun i n _ => ordinary_of_read rfl rfl) (clean_scope.1 hclean)
  have hopens : self.opens .body = [⟨.block, self⟩] := hopened
  rw [hopens] at hinside
  have htold : self.told =
      {(regions above, .enter .block self)} + self.toldFrom .body 0 (body.map some) := by
    rw [Site.told_eq (s := self) hcode]
    simp [Site.sayings, hopened, enters, self, Form.parts, Node.form]
  rw [htold]
  exact .scope hinside

/-- Nodes in a body that opens no scope of its own. -/
theorem yields_container (inner : Site) {ns : List Node} (hcode : isCode inner.above = true)
    (hsilent : inner.sayings = []) (hopens : inner.opens .body = [])
    (hholds : inner.holdsCode .body = true)
    (hparts : (inner.node.form.parts.map (·.told inner)).sum = inner.toldFrom .body 0 (ns.map some))
    (hfaithful : ∀ n ∈ ns, n.Faithful)
    (hordinary : ∀ i, ∀ n ∈ ns, Ordinary n (inner.frames ⟨.body, i⟩))
    (hclean : Clean (visitAll inner .body 0 ns)) :
    Yields (regions inner.above) (visitAll inner .body 0 ns) inner.told := by
  have hall := yields_all inner .body hcode hholds hfaithful hordinary hclean
  rw [hopens] at hall
  rw [Site.told_eq hcode, hsilent, Multiset.coe_nil, zero_add, hparts]
  exact hall

theorem Node.Faithful.staticBlock {body : Option Node}
    (h : ∀ m : Node, sizeOf m < sizeOf (Form.staticBlock body) → m.Faithful) :
    (Node.mk span (.staticBlock body)).Faithful := by
  refine .of_visit rfl fun {above} hcode _ hclean => ?_
  have htold : Site.told ⟨.mk span (.staticBlock body), above⟩ =
      {(regions above, .enter .staticBlock ⟨.mk span (.staticBlock body), above⟩)} +
        Site.toldFrom ⟨.mk span (.staticBlock body), above⟩ .body 0 [body] := by
    rw [Site.told_eq (s := ⟨_, above⟩) hcode]
    simp [Site.sayings, Site.opened, enters, Form.parts, Node.form]
  rw [htold]
  cases body with
  | none => exact .scope .nil
  | some n =>
    obtain ⟨bodySpan, form⟩ := n
    let self : Site := ⟨.mk span (.staticBlock (some (.mk bodySpan form))), above⟩
    have hframes : isCode (self.frames ⟨.body, 0⟩) = true := (isCode_frames .body hcode 0).trans rfl
    have hinside : Clean (visitStatements (self.down ⟨.body, 0⟩ (.mk bodySpan form)) form) :=
      clean_scope.1 hclean
    refine .scope ?_
    rw [Site.toldFrom_some]
    cases form with
    | block body | program body | classBody body =>
      have hsize : sizeOf body < sizeOf self.node.form := by
        simp [self, Node.form]
        omega
      exact yields_container (self.down ⟨.body, 0⟩ _) hframes rfl rfl rfl
        (by simp [Form.parts, Node.form, Site.down]) (holds_of_mem h hsize.le)
        (fun i n _ => ordinary_of_read rfl rfl) hinside
    | _ => exact absurd hinside (not_clean_fault _)

theorem ordinary_body {frame : Frame} (hframe : isBody (frame :: above) = true) {n : Node}
    (hn : ∀ body, n.form ≠ .block body) : Ordinary n (frame :: above) := by
  obtain ⟨span, form⟩ := n
  unfold isBody at hframe
  split at hframe
  all_goals cases hframe
  all_goals
    rename_i heq
    cases heq
    cases form with
    | block body => exact absurd rfl (hn body)
    | property => exact fun hmember => nomatch hmember
    | program => exact List.cons_ne_nil _ _
    | _ => first | rfl | trivial

/-- The body of a function. -/
theorem yields_functionBody {k : Nat} (h : ∀ m : Node, sizeOf m < k → m.Faithful) (self : Site)
    {body : Option Node} (hsize : sizeOf body ≤ k) (hcode : isCode self.above = true)
    (hholds : self.holdsCode .body = true) (hself : isBody (self.frames ⟨.body, 0⟩) = true)
    (hclean : Clean (visitFunctionBody self body)) :
    Yields (self.opens .body ++ regions self.above) (visitFunctionBody self body)
      (self.toldFrom .body 0 [body]) := by
  cases body with
  | none => exact .nil
  | some n =>
    have hframes : isCode (self.frames ⟨.body, 0⟩) = true :=
      (isCode_frames .body hcode 0).trans hholds
    simp only [Option.some.sizeOf_spec] at hsize
    rw [Site.toldFrom_some]
    -- A block is the body of the function and opens no scope. Anything else is read for itself.
    by_cases hblock : ∃ body, n.form = .block body
    · obtain ⟨nSpan, form⟩ := n
      obtain ⟨body, rfl⟩ : ∃ body, form = .block body := hblock
      let inner := self.down ⟨.body, 0⟩ (.mk nSpan (.block body))
      have hopened : inner.opened = [] := if_pos hself
      refine yields_container inner hframes ?_ hopened rfl
        (by simp [Form.parts, Node.form, inner, Site.down])
        (holds_of_mem h (by simp at hsize; omega)) (fun i n _ => ordinary_of_read rfl rfl) hclean
      rw [Site.sayings, hopened]
      rfl
    · have hnot : ∀ body, n.form ≠ .block body := fun body heq => hblock ⟨body, heq⟩
      have hvisit : visitFunctionBody self (some n) = ScopeEvent.visit
          (self.frames ⟨.body, 0⟩) n := by
        obtain ⟨nSpan, form⟩ := n
        cases form with
        | block body => exact absurd rfl (hnot body)
        | _ => rfl
      rw [hvisit] at hclean ⊢
      exact (h n (by omega)).visit hframes (ordinary_body hself hnot) hclean

/-! ## Functions -/

theorem visitParams_eq_optional (self : Site) (i : Nat) (ns : List Node) :
    visitParams self i ns = visitOptionalParams self i (ns.map some) := by
  induction ns generalizing i with
  | nil => rfl
  | cons n ns ih => rw [visitParams, List.map_cons, visitOptionalParams, ih]

/-- The parameters of a function. -/
theorem yields_params (self : Site) {params : List (Option Node)} {i : Nat}
    (hfaithful : ∀ n, some n ∈ params → n.Faithful) (hcode : isCode self.above = true)
    (hholds : self.holdsCode .params = true)
    (hplain : ∀ i, Frame.isPlain ⟨⟨.params, i⟩, self.node⟩ = true)
    (hmember : ∀ i, isMember (self.frames ⟨.params, i⟩) = false)
    (hu : ∀ i, purpose (self.frames ⟨.params, i⟩) = .parameter .parameter self)
    (hclean : Clean (visitOptionalParams self i params)) :
    Yields (self.opens .params ++ regions self.above) (visitOptionalParams self i params)
      (self.toldFrom .params i params) := by
  induction params generalizing i with
  | nil => exact .nil
  | cons o params ih =>
    have hrest := @ih (i + 1) (fun n hn => hfaithful n (.tail _ hn))
    cases o with
    | none => exact hrest hclean
    | some n =>
      have hinside : (purpose (self.frames ⟨.params, i⟩)).inside =
          purpose (self.frames ⟨.params, i⟩) := by
        rw [hu]
        rfl
      rw [visitOptionalParams, clean_append] at hclean
      refine .append ?_ (hrest hclean.2)
      refine (hfaithful n (.head _)).bound ((isCode_frames .params hcode i).trans hholds) ?_ hinside
        (ordinary_of_bound (hplain i) hinside fun _ _ _ _ _ _ _ => hmember i) hclean.1
      rw [hu]
      rfl

/-- The name of a function, a class or an import. -/
theorem yields_naming {kind : DefinitionKind} {self : Site} {name : Option Node}
    {around : List Region} {T : Multiset Saying} (hclean : Clean (naming kind self name))
    (hnone : name = none → T = 0)
    (hsome : ∀ n, name = some n → n.form.identifierName?.isSome = true →
      T = {(around, .define .here ⟨kind, self.down ⟨.name, 0⟩ n, self, none⟩)}) :
    Yields around (naming kind self name) T := by
  cases name with
  | none =>
    rw [hnone rfl]
    exact .nil
  | some n =>
    have hname := name_of_clean (hclean _ (.head _))
    rw [hsome n rfl hname, naming, defining_eq hname]
    exact .point rfl

theorem Node.Faithful.arrowFunction {params : List (Option Node)} {body : Option Node}
    {isExpression isAsync : Bool}
    (h : ∀ m : Node, sizeOf m < sizeOf (Form.arrowFunction params body isExpression isAsync) →
      m.Faithful) :
    (Node.mk span (.arrowFunction params body isExpression isAsync)).Faithful := by
  refine .of_visit rfl fun {above} hcode _ hclean => ?_
  let self : Site := ⟨.mk span (.arrowFunction params body isExpression isAsync), above⟩
  have hevents : ScopeEvent.visit above self.node =
      .enter .function self :: (visitOptionalParams self 0 params ++ visitFunctionBody self body)
        ++ [ScopeEvent.leave] := rfl
  have htold : self.told = {(regions above, .enter .function self)} +
      (self.toldFrom .params 0 params + self.toldFrom .body 0 [body]) := by
    rw [Site.told_eq (s := self) hcode]
    simp [Site.sayings, Site.opened, enters, self, Form.parts, Node.form]
  have hinside := clean_append.1 (clean_scope.1 hclean)
  rw [hevents, htold]
  refine .scope (.append ?_ ?_)
  · refine yields_params self ?_ hcode rfl (fun _ => rfl) (fun _ => rfl) (fun _ => rfl) hinside.1
    intro n hn
    have hlt := sizeOf_lt_of_some_mem hn
    exact h n (by simp; omega)
  · exact yields_functionBody h self (by simp; omega) hcode rfl rfl hinside.2

section Function

variable {placement : Placement} {name : Option Node} {params : List Node} {body : Option Node}
  {isGenerator isAsync : Bool}

/-- What is inside the scope of a function. -/
theorem yields_insideFunction
    (h : ∀ m : Node, sizeOf m < sizeOf
      (Form.function placement name params body isGenerator isAsync) →
      m.Faithful) (hcode : isCode above = true) :
    let self : Site := ⟨.mk span (.function placement name params body isGenerator isAsync), above⟩
    Clean (visitParams self 0 params ++ visitFunctionBody self body) →
    Yields (self.opened ++ regions above)
      (.implicit "arguments" :: visitParams self 0 params ++ visitFunctionBody self body)
      ({(self.opened ++ regions above, .implicit "arguments")} +
        self.toldFrom .params 0 (params.map some) + self.toldFrom .body 0 [body]) := by
  intro self hclean
  rw [clean_append, visitParams_eq_optional] at hclean
  rw [visitParams_eq_optional]
  refine .append (.append (.point rfl) ?_) ?_
  · refine yields_params self ?_ hcode rfl (fun _ => rfl) (fun _ => rfl) (fun _ => rfl) hclean.1
    intro n hn
    have hlt : sizeOf n < sizeOf params := List.sizeOf_lt_of_mem (by simpa using hn)
    exact h n (by simp; omega)
  · exact yields_functionBody h self (by simp; omega) hcode rfl rfl hclean.2

theorem yields_functionName (hcode : isCode above = true) :
    let self : Site := ⟨.mk span (.function placement name params body isGenerator isAsync), above⟩
    Clean (naming .functionName self name) →
    Yields (self.opens .name ++ regions above) (naming .functionName self name)
      (self.toldFrom .name 0 [name]) := by
  intro self hclean
  refine yields_naming hclean (by rintro rfl; rfl) ?_
  rintro n rfl hn
  rw [Site.toldFrom_some]
  exact told_name ((isCode_frames .name hcode 0).trans rfl) rfl hn

theorem Node.Faithful.function
    (h : ∀ m : Node, sizeOf m < sizeOf
      (Form.function placement name params body isGenerator isAsync) →
      m.Faithful) :
    (Node.mk span (.function placement name params body isGenerator isAsync)).Faithful := by
  refine .of_visit rfl fun {above} hcode _ hclean => ?_
  rw [Site.told_eq (s := ⟨_, above⟩) hcode]
  cases placement with
  | declaration =>
    have hparts := clean_append.1 hclean
    have hname := yields_functionName hcode hparts.1
    have hinside := yields_insideFunction h hcode (clean_cons.1 (clean_scope.1 hparts.2)).2
    refine (hname.append (.scope hinside)).of_eq ?_
    simp [Site.sayings, Site.opens, Site.opened, enters, Form.parts, Node.form, coe_cons,
      -Multiset.singleton_add]
    abel
  | expression =>
    cases name with
    | none =>
      have hinside := yields_insideFunction h hcode (clean_cons.1 (clean_scope.1 hclean)).2
      refine (Yields.scope hinside).of_eq ?_
      simp [Site.sayings, Site.opened, enters, Form.parts, Node.form, Site.toldFrom, coe_cons,
        -Multiset.singleton_add]
      abel
    | some name =>
      have hparts := clean_append.1 (clean_scope.1 hclean)
      have hname := yields_functionName hcode hparts.1
      have hinside := yields_insideFunction h hcode (clean_cons.1 (clean_scope.1 hparts.2)).2
      refine (Yields.scope (hname.append (.scope hinside))).of_eq ?_
      simp [Site.sayings, Site.opens, Site.opened, enters, Form.parts, Node.form, coe_cons,
        -Multiset.singleton_add]
      abel

end Function

/-! ## Classes -/

section Class

variable {placement : Placement} {name superClass body : Option Node}

theorem yields_classBody {k : Nat} (h : ∀ m : Node, sizeOf m < k → m.Faithful) (self : Site)
    (hsize : sizeOf body ≤ k) (hcode : isCode self.above = true)
    (hholds : self.holdsCode .body = true) (hclean : Clean (visitClassBody self body)) :
    Yields (self.opens .body ++ regions self.above) (visitClassBody self body)
      (self.toldFrom .body 0 [body]) := by
  cases body with
  | none => exact .nil
  | some n =>
    obtain ⟨bodySpan, form⟩ := n
    have hframes : isCode (self.frames ⟨.body, 0⟩) = true :=
      (isCode_frames .body hcode 0).trans hholds
    rw [Site.toldFrom_some]
    cases form with
    | classBody members =>
      exact yields_container (self.down ⟨.body, 0⟩ _) hframes rfl rfl rfl
        (by simp [Form.parts, Node.form, Site.down])
        (holds_of_mem h (by simp at hsize; omega)) (fun i n _ => ordinary_of_read rfl rfl) hclean
    | _ => exact absurd hclean (not_clean_fault _)

/-- The name of a class, around the class if it is declared and inside it. -/
theorem yields_className (hcode : isCode above = true) :
    let self : Site := ⟨.mk span (.classLike placement name superClass body), above⟩
    Clean (outerNaming self placement name) → Clean (naming .className self name) →
    ∃ A B, Yields (regions above) (outerNaming self placement name) A ∧
      Yields (⟨.classBody, self⟩ :: regions above) (naming .className self name) B ∧
      A + B = self.toldFrom .name 0 [name] := by
  intro self houter hinner
  cases name with
  | none => cases placement <;> exact ⟨0, 0, .nil, .nil, zero_add 0⟩
  | some n =>
    have hn := name_of_clean (hinner _ (.head _))
    have htold : (self.down ⟨.name, 0⟩ n).told = _ :=
      told_name ((isCode_frames .name hcode 0).trans rfl) rfl hn
    rw [Site.toldFrom_some, htold, naming, defining_eq hn]
    cases placement with
    | declaration =>
      let d : Definition := ⟨.className, self.down ⟨.name, 0⟩ n, self, none⟩
      refine ⟨{(regions above, .define .here d)}, _, ?_, .point rfl, rfl⟩
      rw [outerNaming, naming, defining_eq hn]
      exact .point rfl
    | expression => exact ⟨0, _, .nil, .point rfl, zero_add _⟩

theorem visit_classLike :
    let self : Site := ⟨.mk span (.classLike placement name superClass body), above⟩
    ScopeEvent.visit above self.node = outerNaming self placement name ++
      (visitOne self .superClass superClass ++
        (.enter .classBody self :: (naming .className self name ++ visitClassBody self body)
          ++ [ScopeEvent.leave])) := by
  intro self
  rw [← List.append_assoc (visitOne self .superClass superClass)]
  exact visitForm_classLike self placement name superClass body

theorem Node.Faithful.classLike
    (h : ∀ m : Node, sizeOf m < sizeOf (Form.classLike placement name superClass body) →
      m.Faithful) :
    (Node.mk span (.classLike placement name superClass body)).Faithful := by
  refine .of_visit rfl fun {above} hcode _ hclean => ?_
  let self : Site := ⟨.mk span (.classLike placement name superClass body), above⟩
  have hevents : ScopeEvent.visit above self.node = _ := visit_classLike
  rw [hevents] at hclean ⊢
  obtain ⟨houter, hrest⟩ := clean_append.1 hclean
  obtain ⟨hsuper, hscope⟩ := clean_append.1 hrest
  obtain ⟨hname, hbody⟩ := clean_append.1 (clean_scope.1 hscope)
  have hheritage : Yields (regions above) (visitOne self .superClass superClass)
      (self.toldFrom .superClass 0 [superClass]) :=
    yields_one self .superClass hcode rfl (holds_of_eq_some h (by simp; omega))
      (fun n _ => ordinary_of_read rfl rfl) hsuper
  have hmembers : Yields (⟨.classBody, self⟩ :: regions above) (visitClassBody self body)
      (self.toldFrom .body 0 [body]) := yields_classBody h self (by simp) hcode rfl hbody
  -- The name is said twice of a declared class, around the class and inside it.
  obtain ⟨A, B, hA, hB, hAB⟩ := yields_className hcode houter hname
  refine (hA.append (hheritage.append (.scope (hB.append hmembers)))).of_eq ?_
  rw [Site.told_eq (s := self) hcode]
  simp [self, Site.sayings, Site.opened, enters, Form.parts, Node.form, coe_cons, ← hAB,
    -Multiset.singleton_add]
  abel

end Class

/-! ## Statements with scopes -/

theorem Node.Faithful.catchClause {param body : Option Node}
    (h : ∀ m : Node, sizeOf m < sizeOf (Form.catchClause param body) → m.Faithful) :
    (Node.mk span (.catchClause param body)).Faithful := by
  refine .of_visit rfl fun {above} hcode _ hclean => ?_
  let self : Site := ⟨.mk span (.catchClause param body), above⟩
  obtain ⟨hparam, hbody⟩ := clean_append.1 (clean_scope.1 hclean)
  have hyields := yields_pattern self .param rfl (holds_of_eq_some h (by simp; omega)) hcode rfl rfl
    (fun n _ => ordinary_of_bound rfl rfl fun _ _ _ _ _ _ _ => rfl) hparam
  have hrest := yields_one self .body hcode rfl (holds_of_eq_some h (by simp))
    (fun n _ => ordinary_of_read rfl rfl) hbody
  refine (Yields.scope (hyields.append hrest)).of_eq ?_
  rw [Site.told_eq (s := self) hcode]
  simp [self, Site.sayings, Site.opened, enters, Form.parts, Node.form]

theorem Node.Faithful.switch {discriminant : Option Node} {cases : List Node}
    (h : ∀ m : Node, sizeOf m < sizeOf (Form.switch discriminant cases) → m.Faithful) :
    (Node.mk span (.switch discriminant cases)).Faithful := by
  refine .of_visit rfl fun {above} hcode _ hclean => ?_
  let self : Site := ⟨.mk span (.switch discriminant cases), above⟩
  have hevents : ScopeEvent.visit above self.node = visitOne self .discriminant discriminant ++
      (.enter .switchBody self :: visitAll self .cases 0 cases ++ [ScopeEvent.leave]) :=
    List.append_assoc (visitOne self .discriminant discriminant) _ _
  rw [hevents] at hclean ⊢
  obtain ⟨htested, hscope⟩ := clean_append.1 hclean
  have htest : Yields (regions above) (visitOne self .discriminant discriminant)
      (self.toldFrom .discriminant 0 [discriminant]) :=
    yields_one self .discriminant hcode rfl (holds_of_eq_some h (by simp; omega))
      (fun n _ => ordinary_of_read rfl rfl) htested
  have hcases := yields_all self .cases hcode rfl (holds_of_mem h (by simp))
    (fun i n _ => ordinary_of_read rfl rfl) (clean_scope.1 hscope)
  refine (htest.append (.scope hcases)).of_eq ?_
  rw [Site.told_eq (s := self) hcode]
  simp [self, Site.sayings, Site.opened, enters, Form.parts, Node.form, coe_cons,
    -Multiset.singleton_add]
  abel

theorem visitForm_forLoop (self : Site) (init test update body : Option Node) :
    visitForm self (.forLoop init test update body) =
      if init.any Node.isLexical
      then .enter .loop self :: (visitOne self .init init ++ visitOne self .test test
        ++ visitOne self .update update ++ visitOne self .body body) ++ [ScopeEvent.leave]
      else visitOne self .init init ++ visitOne self .test test ++ visitOne self .update update
        ++ visitOne self .body body := by
  cases init with
  | none => rfl
  | some n =>
    obtain ⟨initSpan, form⟩ := n
    cases form with
    | variableDeclaration keyword declarations =>
      rw [visitForm]
      by_cases hvar : keyword = "var" <;> simp [hvar, Node.form, Node.isLexical]
    | _ => rfl

theorem Node.Faithful.forLoop {init test update body : Option Node}
    (h : ∀ m : Node, sizeOf m < sizeOf (Form.forLoop init test update body) → m.Faithful) :
    (Node.mk span (.forLoop init test update body)).Faithful := by
  refine .of_visit rfl fun {above} hcode _ hclean => ?_
  let self : Site := ⟨.mk span (.forLoop init test update body), above⟩
  have hparts : self.node.form.parts.flatMap (·.visitCode self) = visitOne self .init init ++
      visitOne self .test test ++ visitOne self .update update ++ visitOne self .body body := by
    simp [self, Form.parts, Node.form, Part.visitCode_one, Site.holdsCode]
  have hinside : Clean (self.node.form.parts.flatMap (·.visitCode self)) →
      Yields (self.opened ++ regions above) (self.node.form.parts.flatMap (·.visitCode self))
        (self.node.form.parts.map (·.told self)).sum := by
    refine yields_parts self hcode (fun _ => rfl) fun slot n hmem _ => ?_
    exact ⟨h n (Form.sizeOf_child_lt hmem), ordinary_of_read rfl rfl⟩
  rw [show ScopeEvent.visit above self.node = _ from visitForm_forLoop self init test update body,
    ← hparts] at hclean ⊢
  rw [Site.told_eq (s := self) hcode]
  have hopened : self.opened = if init.any Node.isLexical then [⟨.loop, self⟩] else [] := rfl
  split
  · rename_i hlexical
    rw [if_pos hlexical] at hclean hopened
    rw [hopened] at hinside
    rw [Site.sayings, hopened]
    exact .scope (hinside (clean_scope.1 hclean))
  · rename_i hlexical
    rw [if_neg hlexical] at hclean hopened
    rw [hopened] at hinside
    rw [Site.sayings, hopened]
    exact (hinside hclean).of_eq (zero_add _).symm

/-! ## Declarations -/

section Declarations

variable {keyword : String} {declarations : List Node}

/-- What a declarator does with the names that it binds. -/
theorem binding_declarator {nSpan : Span} {bound init : Option Node} {i : Nat} :
    let self : Site := ⟨.mk span (.variableDeclaration keyword declarations), above⟩
    let declarator := self.down ⟨.declarations, i⟩ (.mk nSpan (.variableDeclarator bound init))
    (fun identifier => defining self.target ⟨.declared, identifier, declarator, some self⟩
      :: if isLoopVariable above || init.isSome
        then [.mention ⟨identifier, .write, declarator.downOption .init init, true⟩] else []) =
      (purpose (declarator.frames ⟨.name, 0⟩)).binding := by
  intro self declarator
  have hinit : declarator.initial?.isSome = init.isSome := Option.isSome_map
  rw [← hinit]
  rfl

variable {k : Nat} (h : ∀ m : Node, sizeOf m < k → m.Faithful)

include h

theorem yields_declarator (hcode : isCode above = true) {n : Node} (hn : sizeOf n < k) {i : Nat} :
    let self : Site := ⟨.mk span (.variableDeclaration keyword declarations), above⟩
    Clean (visitDeclarators self self.target (isLoopVariable above) i [n]) →
    Yields (regions above) (visitDeclarators self self.target (isLoopVariable above) i [n])
      (self.down ⟨.declarations, i⟩ n).told := by
  intro self hclean
  have hframes : isCode (self.frames ⟨.declarations, i⟩) = true :=
    (isCode_frames .declarations hcode i).trans rfl
  obtain ⟨nSpan, form⟩ := n
  cases form with
  | variableDeclarator bound init =>
    let declarator := self.down ⟨.declarations, i⟩ (.mk nSpan (.variableDeclarator bound init))
    simp only [visitDeclarators, List.append_nil, clean_append] at hclean ⊢
    have hname : Yields (regions above) _ (declarator.toldFrom .name 0 [bound]) :=
      yields_pattern declarator .name binding_declarator
        (holds_of_eq_some h (by simp at hn; omega)) hframes rfl
        rfl (fun n _ => ordinary_of_bound rfl rfl fun _ _ _ _ _ _ _ => rfl) hclean.1
    have hvalue : Yields (regions above) _ (declarator.toldFrom .init 0 [init]) :=
      yields_one declarator .init hframes rfl (holds_of_eq_some h (by simp at hn; omega))
        (fun n _ => ordinary_of_read rfl rfl) hclean.2
    refine (hname.append hvalue).of_eq ?_
    rw [show (self.down ⟨.declarations, i⟩ _).told = _ from told_of_silent hframes rfl]
    simp [Form.parts, declarator, Site.down]
  | _ => exact absurd hclean (not_clean_fault _)

theorem yields_declarators (hcode : isCode above = true) {ns : List Node} (hns : sizeOf ns ≤ k)
    {i : Nat} :
    let self : Site := ⟨.mk span (.variableDeclaration keyword declarations), above⟩
    Clean (visitDeclarators self self.target (isLoopVariable above) i ns) →
    Yields (regions above) (visitDeclarators self self.target (isLoopVariable above) i ns)
      (self.toldFrom .declarations i (ns.map some)) := by
  intro self hclean
  induction ns generalizing i with
  | nil => exact .nil
  | cons n ns ih =>
    simp only [List.cons.sizeOf_spec] at hns
    rw [visitDeclarators_cons, clean_append] at hclean
    rw [visitDeclarators_cons]
    exact .append (yields_declarator h hcode (by omega) hclean.1) (ih (by omega) hclean.2)

omit h in
theorem told_variableDeclaration (hcode : isCode above = true) :
    Site.told ⟨.mk span (.variableDeclaration keyword declarations), above⟩ =
      Site.toldFrom ⟨.mk span (.variableDeclaration keyword declarations), above⟩ .declarations 0
        (declarations.map some) := by
  rw [told_of_silent hcode rfl]
  simp [Form.parts]

end Declarations

theorem Node.Faithful.variableDeclaration {keyword : String} {declarations : List Node}
    (h : ∀ m : Node, sizeOf m < sizeOf (Form.variableDeclaration keyword declarations) →
      m.Faithful) :
    (Node.mk span (.variableDeclaration keyword declarations)).Faithful := by
  refine .of_visit rfl fun {above} hcode hordinary hclean => ?_
  have hloop : isLoopVariable above = false := hordinary
  let self : Site := ⟨.mk span (.variableDeclaration keyword declarations), above⟩
  have hyields : Clean (visitDeclarators self self.target (isLoopVariable above) 0 declarations) →
      Yields (regions above)
        (visitDeclarators self self.target (isLoopVariable above) 0 declarations)
        (self.toldFrom .declarations 0 (declarations.map some)) :=
          yields_declarators h hcode (by simp)
  rw [hloop] at hyields
  rw [told_variableDeclaration hcode]
  exact hyields hclean

/-- What is no pattern and no declaration is read for itself as the variable of a loop. -/
theorem ordinary_loopVariable {loopSpan : Span} {iteration : Iteration}
    {left right body : Option Node} {isAwait : Bool} {n : Node} (hn : n.form.isPattern = false)
    (hnot : ∀ keyword declarations, n.form ≠ .variableDeclaration keyword declarations) :
    Ordinary n (⟨⟨.left, 0⟩, .mk loopSpan (.forEach iteration left right body isAwait)⟩ ::
      above) := by
  obtain ⟨nSpan, form⟩ := n
  cases form with
  | identifier | objectPattern | arrayPattern | assignmentPattern | restElement => cases hn
  | variableDeclaration keyword declarations => exact absurd rfl (hnot keyword declarations)
  | property => exact fun hmember => nomatch hmember
  | program => exact List.cons_ne_nil _ _
  | _ => first | rfl | trivial

section Loops

variable {iteration : Iteration} {left right body : Option Node} {isAwait : Bool}

/-- What a loop over values tells: its scope, if it has one, its variable and its other parts. -/
theorem told_forEach (hcode : isCode above = true) :
    let self : Site := ⟨.mk span (.forEach iteration left right body isAwait), above⟩
    self.told = ↑(enters (regions above) self.opened) +
      (self.toldFrom .left 0 [left] +
        (self.toldFrom .right 0 [right] + self.toldFrom .body 0 [body])) := by
  intro self
  rw [Site.told_eq (s := self) hcode]
  simp [self, Site.sayings, Form.parts, Node.form]

/-- The values of a loop and its body, which are read in its scope. -/
theorem yields_loopBody
    (h : ∀ m : Node, sizeOf m < sizeOf (Form.forEach iteration left right body isAwait) →
      m.Faithful)
    (hcode : isCode above = true) :
    let self : Site := ⟨.mk span (.forEach iteration left right body isAwait), above⟩
    Clean (visitOne self .right right ++ visitOne self .body body) →
    Yields (self.opened ++ regions above) (visitOne self .right right ++ visitOne self .body body)
      (self.toldFrom .right 0 [right] + self.toldFrom .body 0 [body]) := by
  intro self hclean
  obtain ⟨hright, hbody⟩ := clean_append.1 hclean
  refine .append ?_ ?_
  · exact yields_one self .right hcode rfl (holds_of_eq_some h (by simp; omega))
      (fun n _ => ordinary_of_read rfl rfl) hright
  · exact yields_one self .body hcode rfl (holds_of_eq_some h (by simp; omega))
      (fun n _ => ordinary_of_read rfl rfl) hbody

/-- A loop that declares its variable opens a scope unless it declares it by `var`. -/
theorem yields_declaringLoop {leftSpan : Span} {keyword : String} {declarations : List Node}
    (hleft : left = some (.mk leftSpan (.variableDeclaration keyword declarations)))
    (h : ∀ m : Node, sizeOf m < sizeOf (Form.forEach iteration left right body isAwait) →
      m.Faithful)
    (hcode : isCode above = true) :
    let self : Site := ⟨.mk span (.forEach iteration left right body isAwait), above⟩
    Clean (ScopeEvent.visit above self.node) →
    Yields (regions above) (ScopeEvent.visit above self.node) self.told := by
  intro self hclean
  subst hleft
  let declaration : Site :=
    self.down ⟨.left, 0⟩ (.mk leftSpan (.variableDeclaration keyword declarations))
  have hframes : isCode declaration.above = true := (isCode_frames .left hcode 0).trans rfl
  have hvariable : Clean (visitDeclarators declaration declaration.target true 0 declarations) →
      Yields (self.opened ++ regions above)
        (visitDeclarators declaration declaration.target true 0 declarations)
        (self.toldFrom .left 0 [some declaration.node]) := by
    intro hclean
    rw [Site.toldFrom_some, show (self.down ⟨.left, 0⟩ declaration.node).told = _ from
      told_variableDeclaration hframes]
    exact yields_declarators h hframes (by simp; omega) hclean
  have hrest : Clean (visitOne self .right right ++ visitOne self .body body) →
      Yields (self.opened ++ regions above) (visitOne self .right right ++ visitOne self .body body)
        (self.toldFrom .right 0 [right] + self.toldFrom .body 0 [body]) := yields_loopBody h hcode
  have hevents : ScopeEvent.visit above self.node = if keyword = "var"
      then visitDeclarators declaration declaration.target true 0 declarations
        ++ (visitOne self .right right ++ visitOne self .body body)
      else .enter .loop self :: (visitDeclarators declaration declaration.target true 0 declarations
        ++ (visitOne self .right right ++ visitOne self .body body)) ++ [ScopeEvent.leave] := rfl
  have hopened : self.opened = if keyword != "var" then [⟨.loop, self⟩] else [] := rfl
  rw [hevents] at hclean ⊢
  rw [show self.told = _ from told_forEach hcode]
  by_cases hvar : keyword = "var"
  · rw [if_pos hvar] at hclean ⊢
    rw [if_neg (by simp [hvar])] at hopened
    rw [hopened] at hvariable hrest ⊢
    obtain ⟨hfirst, hsecond⟩ := clean_append.1 hclean
    exact ((hvariable hfirst).append (hrest hsecond)).of_eq (zero_add _).symm
  · rw [if_neg hvar] at hclean ⊢
    rw [if_pos (by simp [hvar])] at hopened
    rw [hopened] at hvariable hrest ⊢
    obtain ⟨hfirst, hsecond⟩ := clean_append.1 (clean_scope.1 hclean)
    exact .scope ((hvariable hfirst).append (hrest hsecond))

/-- A loop that writes a pattern opens no scope. -/
theorem yields_writingLoop
    (hnot : ∀ n keyword declarations, left = some n →
      n.form ≠ .variableDeclaration keyword declarations)
    (h : ∀ m : Node, sizeOf m < sizeOf (Form.forEach iteration left right body isAwait) →
      m.Faithful)
    (hcode : isCode above = true) :
    let self : Site := ⟨.mk span (.forEach iteration left right body isAwait), above⟩
    Clean (ScopeEvent.visit above self.node) →
    Yields (regions above) (ScopeEvent.visit above self.node) self.told := by
  intro self hclean
  have hopened : self.opened = [] := by
    refine if_neg fun hlexical => ?_
    obtain ⟨n, hleft, hn⟩ := (Option.any_eq_true _ _).1 hlexical
    unfold Node.isLexical at hn
    split at hn
    · rename_i hform
      exact hnot n _ _ hleft hform
    · cases hn
  have hevents : ScopeEvent.visit above self.node = _ :=
    visitForm_forEach_pattern hnot self iteration right body isAwait
  have hrest : Clean (visitOne self .right right ++ visitOne self .body body) →
      Yields (self.opened ++ regions above) (visitOne self .right right ++ visitOne self .body body)
        (self.toldFrom .right 0 [right] + self.toldFrom .body 0 [body]) := yields_loopBody h hcode
  rw [hevents] at hclean ⊢
  rw [show self.told = _ from told_forEach hcode, hopened]
  rw [hopened] at hrest
  obtain ⟨hfirst, hsecond⟩ := clean_append.1 hclean
  have hvariable : Yields (regions above)
      (visitPattern self .left (writing (self.downOption .right right)) left)
      (self.toldFrom .left 0 [left]) := by
    have hpattern := yields_pattern self .left rfl (holds_of_eq_some h (by simp; omega)) hcode rfl
      rfl (fun n hn hform => ordinary_loopVariable hform (hnot n · · hn)) hfirst
    rw [show self.opens .left = [] from hopened] at hpattern
    exact hpattern
  exact (hvariable.append (hrest hsecond)).of_eq (zero_add _).symm

theorem Node.Faithful.forEach
    (h : ∀ m : Node, sizeOf m < sizeOf (Form.forEach iteration left right body isAwait) →
      m.Faithful) :
    (Node.mk span (.forEach iteration left right body isAwait)).Faithful := by
  refine .of_visit rfl fun {above} hcode _ hclean => ?_
  by_cases hdeclaration : ∃ leftSpan keyword declarations,
      left = some (.mk leftSpan (.variableDeclaration keyword declarations))
  · obtain ⟨leftSpan, keyword, declarations, hleft⟩ := hdeclaration
    exact yields_declaringLoop hleft h hcode hclean
  · refine yields_writingLoop ?_ h hcode hclean
    rintro ⟨leftSpan, form⟩ keyword declarations hleft hform
    obtain rfl : form = .variableDeclaration keyword declarations := hform
    exact hdeclaration ⟨leftSpan, keyword, declarations, hleft⟩

end Loops

/-! ## Modules -/

section Modules

variable {specifiers : List Node} {source : Option Node}

/-- The event of a specifier of an import. -/
def importing (self : Site) (specifier : Node) (i : Nat) : ScopeEvent :=
  let site := self.down ⟨.specifiers, i⟩ specifier
  match specifier.form with
  | .importDefault binding | .importNamespace binding | .importSpecifier _ binding =>
    defining .here ⟨.imported, site.down ⟨.binding, 0⟩ binding, site, some self⟩
  | _ => .fault .missingPart

/-- A specifier tells what its binding does: what it imports is no code. -/
theorem yields_imported (site : Site) {self : Site} {binding : Node}
    (hcode : isCode site.above = true) (hsilent : site.sayings = [])
    (hholds : site.holdsCode .binding = true)
    (hparts : (site.node.form.parts.map (·.told site)).sum = site.toldFrom .binding 0
      [some binding]) (hpurpose : purpose (site.frames ⟨.binding, 0⟩) = .imported site self)
    (hclean : (defining .here ⟨.imported, site.down ⟨.binding, 0⟩ binding, site,
      some self⟩).isClean =
      true) :
    Yields (regions (site.frames ⟨.binding, 0⟩))
      [defining .here ⟨.imported, site.down ⟨.binding, 0⟩ binding, site, some self⟩] site.told := by
  have hname := name_of_clean hclean
  have htold : (site.down ⟨.binding, 0⟩ binding).told = _ :=
    told_name ((isCode_frames .binding hcode 0).trans hholds) (by rw [hpurpose]; rfl) hname
  rw [Site.told_eq hcode, hsilent, hparts, Site.toldFrom_some, htold, hpurpose, defining_eq hname]
  exact .point rfl

theorem yields_importing (hcode : isCode above = true) {specifier : Node} {i : Nat} :
    let self : Site := ⟨.mk span (.importDeclaration specifiers source), above⟩
    (importing self specifier i).isClean = true →
    Yields (regions above) [importing self specifier i]
      (self.down ⟨.specifiers, i⟩ specifier).told := by
  intro self hclean
  have hframes : isCode (self.frames ⟨.specifiers, i⟩) = true :=
    (isCode_frames .specifiers hcode i).trans rfl
  obtain ⟨nSpan, form⟩ := specifier
  cases form with
  | importDefault binding | importNamespace binding =>
    exact yields_imported (self.down ⟨.specifiers, i⟩ _) hframes rfl rfl
      (by simp [Form.parts, Node.form, Site.down]) rfl hclean
  | importSpecifier imported binding =>
    let site := self.down ⟨.specifiers, i⟩ (.mk nSpan (.importSpecifier imported binding))
    refine yields_imported site hframes rfl rfl ?_ rfl hclean
    have hzero := site.toldFrom_eq_zero .imported rfl 0 [some imported]
    simp only [site, Site.down, Node.form, Form.parts, List.map_cons, List.map_nil, List.sum_cons,
      List.sum_nil, Part.told_one] at hzero ⊢
    rw [hzero, zero_add, add_zero]
  | _ => cases hclean

/-- The specifiers of an import, one event for each. -/
theorem yields_specifiers (hcode : isCode above = true) {ns : List Node} {i : Nat} :
    let self : Site := ⟨.mk span (.importDeclaration specifiers source), above⟩
    Clean ((ns.zipIdx i).map fun (specifier, i) => importing self specifier i) →
    Yields (regions above) ((ns.zipIdx i).map fun (specifier, i) => importing self specifier i)
      (self.toldFrom .specifiers i (ns.map some)) := by
  intro self hclean
  induction ns generalizing i with
  | nil => exact .nil
  | cons n ns ih =>
    rw [List.zipIdx_cons, List.map_cons, clean_cons] at hclean
    exact .append (yields_importing hcode hclean.1) (ih hclean.2)

theorem Node.Faithful.importDeclaration :
    (Node.mk span (.importDeclaration specifiers source)).Faithful := by
  refine .of_visit rfl fun {above} hcode _ hclean => ?_
  let self : Site := ⟨.mk span (.importDeclaration specifiers source), above⟩
  have hsource : self.toldFrom .source 0 [source] = 0 := self.toldFrom_eq_zero .source rfl 0 _
  refine (yields_specifiers hcode hclean).of_eq ?_
  rw [told_of_silent hcode rfl]
  simp only [Form.parts, List.map_cons, List.map_nil, List.sum_cons, List.sum_nil, Part.told_one,
    Part.told_all]
  rw [hsource, add_zero, add_zero]

/-- A listed name tells what it is called by here: what it is exported as is no code. -/
theorem told_exportSpecifier {binding exported : Node} (hcode : isCode above = true)
    (hlisted : isExported above = true) :
    let site : Site := ⟨.mk span (.exportSpecifier binding exported), above⟩
    site.told = site.toldFrom .binding 0 [some binding] := by
  intro site
  have hexported : site.toldFrom .exported 0 [some exported] = 0 := by
    refine site.toldFrom_eq_zero .exported ?_ 0 _
    simp [Site.holdsCode, site, Node.form, hlisted]
  rw [show site.told = _ from told_of_silent hcode rfl]
  simp only [Form.parts, List.map_cons, List.map_nil, List.sum_cons, List.sum_nil, Part.told_one]
  rw [hexported, add_zero, add_zero]

/-- The names that an export lists. -/
theorem yields_exports (hcode : isCode above = true) {ns : List Node} {i : Nat} :
    let self : Site := ⟨.mk span (.exportNamed none specifiers none), above⟩
    Clean (visitExports self i ns) →
    Yields (regions above) (visitExports self i ns)
      (self.toldFrom .specifiers i (ns.map some)) := by
  intro self hclean
  induction ns generalizing i with
  | nil => exact .nil
  | cons n ns ih =>
    have hframes : isCode (self.frames ⟨.specifiers, i⟩) = true :=
      (isCode_frames .specifiers hcode i).trans rfl
    obtain ⟨nSpan, form⟩ := n
    cases form with
    | exportSpecifier binding exported =>
      let site := self.down ⟨.specifiers, i⟩ (.mk nSpan (.exportSpecifier binding exported))
      have htold : site.told = site.toldFrom .binding 0 [some binding] :=
        told_exportSpecifier hframes rfl
      obtain ⟨nameSpan, nameForm⟩ := binding
      cases nameForm with
      | identifier name =>
        have hbinding : isCode (site.frames ⟨.binding, 0⟩) = true :=
          (isCode_frames .binding hframes 0).trans rfl
        have hname : (site.down ⟨.binding, 0⟩ (.mk nameSpan (.identifier name))).told = _ :=
          told_identifier hbinding name
        rw [visitExports, clean_cons] at hclean
        rw [List.map_cons, Site.toldFrom, show (self.down _ _).told = _ from htold,
          Site.toldFrom_some, hname]
        exact .append (.point rfl) (ih hclean.2)
      -- Only an identifier is mentioned: a text that is listed names nothing here.
      | _ =>
        rw [List.map_cons, Site.toldFrom, show (self.down _ _).told = _ from htold,
          site.toldFrom_eq_zero .binding rfl, zero_add]
        exact ih hclean
    | _ => cases hclean _ (.head _)

/-- An export without a declaration and without a source lists names. -/
theorem Node.Faithful.exportList : (Node.mk span (.exportNamed none specifiers none)).Faithful := by
  refine .of_visit rfl fun {above} hcode _ hclean => ?_
  refine (yields_exports hcode hclean).of_eq ?_
  rw [told_of_silent hcode rfl]
  simp [Form.parts, Site.toldFrom]

end Modules

/-! ## Writes -/

/-- A target that is no name is visited for itself. -/
theorem ordinary_target {self : Site} {role : Role} {value : Option Site} {form : Form}
    (hplain : Frame.isPlain ⟨⟨role, 0⟩, self.node⟩ = true)
    (hu : purpose (self.frames ⟨role, 0⟩) = .update value) (hname : ∀ name, form ≠ .identifier name)
    (span : Span) :
    visitTarget self role value (some (.mk span form)) =
        ScopeEvent.visit (self.frames ⟨role, 0⟩) (.mk span form) ∧
      Ordinary (.mk span form) (self.frames ⟨role, 0⟩) := by
  have hinside : (purpose (self.frames ⟨role, 0⟩)).inside = .read := by
    rw [hu]
    rfl
  constructor
  · cases form with
    | identifier name => exact absurd rfl (hname name)
    | _ => rfl
  · refine ordinary_of_plain hplain ?_ (fun name heq => absurd heq (hname name)) (fun _ => hinside)
      (fun _ _ _ _ _ _ _ _ => hinside)
    rw [show purpose (_ :: self.above) = _ from hu]
    rfl

/-- A target that is read and written. -/
theorem yields_target (self : Site) (role : Role) {o : Option Node} {value : Option Site}
    (hfaithful : ∀ n, o = some n → n.Faithful) (hcode : isCode self.above = true)
    (hholds : self.holdsCode role = true) (hplain : Frame.isPlain ⟨⟨role, 0⟩, self.node⟩ = true)
    (hu : purpose (self.frames ⟨role, 0⟩) = .update value)
    (hclean : Clean (visitTarget self role value o)) :
    Yields (self.opens role ++ regions self.above) (visitTarget self role value o)
      (self.toldFrom role 0 [o]) := by
  have hframes : isCode (self.frames ⟨role, 0⟩) = true := (isCode_frames role hcode 0).trans hholds
  cases o with
  | none => exact .nil
  | some n =>
    rw [Site.toldFrom_some]
    obtain ⟨nSpan, form⟩ := n
    by_cases hname : ∃ name, form = .identifier name
    · obtain ⟨name, rfl⟩ := hname
      rw [show (self.down _ _).told = _ from told_identifier hframes name, hu]
      exact .point rfl
    · obtain ⟨hevents, hordinary⟩ :=
        ordinary_target hplain hu (fun name heq => hname ⟨name, heq⟩) nSpan
      rw [hevents] at hclean ⊢
      exact (hfaithful _ rfl).visit hframes hordinary hclean

theorem Node.Faithful.update {operator : Text} {before : Bool} {argument : Option Node}
    (h : ∀ m : Node, sizeOf m < sizeOf (Form.update operator before argument) → m.Faithful) :
    (Node.mk span (.update operator before argument)).Faithful := by
  refine .of_visit rfl fun {above} hcode _ hclean => ?_
  let self : Site := ⟨.mk span (.update operator before argument), above⟩
  have hevents : ScopeEvent.visit above self.node = _ :=
    visitForm_update self operator before argument
  rw [show ScopeEvent.visit above (.mk span _) = _ from hevents] at hclean ⊢
  have htarget :=
    yields_target self .argument (holds_of_eq_some h (by simp)) hcode rfl rfl rfl hclean
  refine htarget.of_eq ?_
  rw [show Site.told ⟨.mk span _, above⟩ = _ from told_of_silent hcode rfl]
  simp [Form.parts, self]

theorem Node.Faithful.assignment {operator : Text} {left right : Option Node}
    (h : ∀ m : Node, sizeOf m < sizeOf (Form.assignment operator left right) → m.Faithful) :
    (Node.mk span (.assignment operator left right)).Faithful := by
  refine .of_visit rfl fun {above} hcode _ hclean => ?_
  let self : Site := ⟨.mk span (.assignment operator left right), above⟩
  have hevents : ScopeEvent.visit above self.node = _ :=
    visitForm_assignment self operator left right
  rw [show ScopeEvent.visit above (.mk span _) = _ from hevents] at hclean ⊢
  obtain ⟨htarget, hvalue⟩ := clean_append.1 hclean
  -- Any operator but `=` reads the target before it writes it.
  have hpurpose : purpose (self.frames ⟨.left, 0⟩) = if operator = Text.ofString "="
      then .write (self.downOption .right right) else .update (self.downOption .right right) := rfl
  have hleft : Yields (regions above) (if operator = Text.ofString "="
      then visitPattern self .left (writing (self.downOption .right right)) left
      else visitTarget self .left (self.downOption .right right) left)
      (self.toldFrom .left 0 [left]) := by
    split
    · rename_i hplain
      rw [if_pos hplain] at htarget hpurpose
      refine yields_pattern self .left ?_ (holds_of_eq_some h (by simp; omega)) hcode rfl
        ?_ ?_ htarget
      · rw [hpurpose]
        rfl
      · rw [hpurpose]
        rfl
      · refine fun n _ => ordinary_of_bound rfl ?_ fun _ _ _ _ _ _ _ => rfl
        rw [show purpose (_ :: above) = _ from hpurpose]
        rfl
    · rename_i hplain
      rw [if_neg hplain] at htarget hpurpose
      exact yields_target self .left (holds_of_eq_some h (by simp; omega)) hcode rfl rfl hpurpose
        htarget
  have hright : Yields (regions above) (visitOne self .right right)
      (self.toldFrom .right 0 [right]) :=
    yields_one self .right hcode rfl (holds_of_eq_some h (by simp))
      (fun n _ => ordinary_of_read rfl rfl) hvalue
  refine (hleft.append hright).of_eq ?_
  rw [show Site.told ⟨.mk span _, above⟩ = _ from told_of_silent hcode rfl]
  simp [Form.parts, self]

/-! ## All nodes -/

theorem Node.Faithful.transparent {f : Form} (hf : f.isTransparent = true)
    (hpattern : f.isPattern = false) (h : ∀ m : Node, sizeOf m < sizeOf f → m.Faithful) :
    (Node.mk span f).Faithful := by
  refine .of_visit hpattern fun hcode hordinary hclean => ?_
  exact yields_transparent hf (fun _ n hmem => h n (Form.sizeOf_child_lt hmem)) hcode
    hordinary hclean

/-- **The events of a node say what its places say**, in whichever way it is read. The induction is
on the size of the node, since some nodes are read together with what their children hold. -/
theorem Node.faithful (n : Node) : n.Faithful := by
  obtain ⟨span, f⟩ := n
  have h : ∀ m : Node, sizeOf m < sizeOf f → m.Faithful := fun m hm => m.faithful
  cases f with
  | identifier name => exact .identifier name
  | objectPattern => exact .objectPattern h
  | arrayPattern => exact .arrayPattern h
  | restElement => exact .restElement h
  | assignmentPattern => exact .assignmentPattern h
  | other => exact .other h
  | block => exact .block h
  | staticBlock => exact .staticBlock h
  | function => exact .function h
  | arrowFunction => exact .arrowFunction h
  | classLike => exact .classLike h
  | catchClause => exact .catchClause h
  | switch => exact .switch h
  | forLoop => exact .forLoop h
  | forEach => exact .forEach h
  | variableDeclaration => exact .variableDeclaration h
  | importDeclaration => exact .importDeclaration
  | assignment => exact .assignment h
  | update => exact .update h
  | exportNamed declaration specifiers source =>
    obtain _ | declaration := declaration <;> obtain _ | source := source
    · exact .exportList
    · exact .transparent rfl rfl h
    · exact .transparent rfl rfl h
    · exact .transparent rfl rfl h
  | _ => exact .transparent rfl rfl h
termination_by sizeOf n
decreasing_by all_goals simp; omega

end ApiTrace
