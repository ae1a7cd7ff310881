import ApiTrace.Proofs.Scope.LexicalResolution
import ApiTrace.Proofs.Scope.Patterns

/-!
# What a scope declares

The names that have a definition in a scope are those that the static rules of the language give to
it (`ScopeGraph.scopes_declare_statically`): what the declarations next inside it declare, the `var`
declarations of all blocks inside it if it owns them, the parameters of a function or of a `catch`
clause, and the name of a class or of a function expression in a scope of its own (`Declared`).

In between stands what a name in code is given to by its own place (`GivenTo`).
-/

namespace ApiTrace

/-! ## The static rules -/

/-- Whether a node is an arrow function. -/
def Node.isArrow (n : Node) : Bool :=
  match n.form with
  | .arrowFunction .. => true
  | _ => false

/-- Whether one of some declarators binds a name. -/
def DeclaratorsBind (declarators : List Node) (name : Text) : Prop :=
  ∃ declarator ∈ declarators, ∃ pattern init,
    declarator.form = .variableDeclarator (some pattern) init ∧ pattern.Binds name

/-- What an import specifier binds. -/
def Node.importBinding? (n : Node) : Option Node :=
  match n.form with
  | .importDefault binding | .importNamespace binding | .importSpecifier _ binding => some binding
  | _ => none

/-- Whether a node is a declaration of a name for the scope that it stands in. -/
def Node.DeclaresHere (n : Node) (name : Text) : Prop :=
  match n.form with
  | .variableDeclaration keyword declarators => keyword ≠ "var" ∧ DeclaratorsBind declarators name
  | .function .declaration (some id) .. | .classLike .declaration (some id) .. =>
    id.form.identifierName? = some name
  | .importDeclaration specifiers _ => ∃ specifier ∈ specifiers, ∃ binding,
    specifier.importBinding? = some binding ∧ binding.form.identifierName? = some name
  | _ => False

/-- Whether a node is a `var` declaration of a name. -/
def Node.DeclaresVar (n : Node) (name : Text) : Prop :=
  match n.form with
  | .variableDeclaration keyword declarators => keyword = "var" ∧ DeclaratorsBind declarators name
  | _ => False

/-- Whether a node is a parameter of a function or of a `catch` clause. -/
def Node.HasParameter (n p : Node) : Prop :=
  match n.form with
  | .function _ _ params .. => p ∈ params
  | .arrowFunction params .. => some p ∈ params
  | .catchClause param _ => param = some p
  | _ => False

/-- The name of a function or of a class. -/
def Node.ownName? (n : Node) : Option Text :=
  match n.form with
  | .function _ name .. | .classLike _ name .. => name.bind (·.form.identifierName?)
  | _ => none

/-- Whether the declarations at some places, and the node that opens a scope, declare a name for the
scope. -/
inductive Declared (places : List Site) (R : Region) (name : Text) : Prop where
  | here (d : Site) (hd : d ∈ places) (hname : d.node.DeclaresHere name)
      (hR : (regions d.above).head? = some R)
  | var (d : Site) (hd : d ∈ places) (hname : d.node.DeclaresVar name)
      (hR : (regions d.above).find? (·.kind.ownsVars) = some R)
  | parameter (p : Node) (hR : R.kind = .function ∨ R.kind = .handler)
      (hp : R.block.node.HasParameter p)
      (hname : p.Binds name)
  | ownName (hR : R.kind = .classBody ∨ R.kind = .functionName)
      (hname : R.block.node.ownName? = some name)

/-! ## Where names are given -/

section Places

variable {program p : Node} {s d owner : Site} {slot : Slot} {above : List Frame} {name : Text}

theorem declaration?_eq_some_iff : declaration? above = some d ↔
    ∃ slot keyword declarators, d.node.form = .variableDeclaration keyword declarators ∧
      above = d.frames slot := by
  constructor
  · intro h
    unfold declaration? at h
    split at h
    · cases h
      exact ⟨_, _, _, rfl, rfl⟩
    · cases h
  · intro ⟨slot, keyword, declarators, hform, habove⟩
    obtain ⟨⟨span, form⟩, above⟩ := d
    cases hform
    rw [habove]
    rfl

theorem import?_eq_some_iff : import? above = some d ↔
    ∃ slot specifiers source, d.node.form = .importDeclaration specifiers source ∧
      above = d.frames slot := by
  constructor
  · intro h
    unfold import? at h
    split at h
    · cases h
      exact ⟨_, _, _, rfl, rfl⟩
    · cases h
  · intro ⟨slot, specifiers, source, hform, habove⟩
    obtain ⟨⟨span, form⟩, above⟩ := d
    cases hform
    rw [habove]
    rfl

/-- The children of a node that are patterns or names, and what they are for. -/
inductive Site.Gives (s : Site) : Role → Purpose → Prop where
  | parameter (hs : s.node.isFunction = true ∨ s.node.isArrow = true) :
      s.Gives .params (.parameter .parameter s)
  | caught {param body : Option Node} (hs : s.node.form = .catchClause param body) :
      s.Gives .param (.parameter .caught s)
  | declared {target init : Option Node} {d : Site}
      (hs : s.node.form = .variableDeclarator target init)
      (hd : declaration? s.above = some d) : s.Gives .name (.declared s d)
  | imported {binding : Node} {d : Site} (hs : s.node.importBinding? = some binding)
      (hd : import? s.above = some d) : s.Gives .binding (.imported s d)
  | functionName (hs : s.node.isFunction = true) : s.Gives .name (.functionName s)
  | className {placement : Placement} {id superClass body : Option Node}
      (hs : s.node.form = .classLike placement id superClass body) :
        s.Gives .name (.className placement s)

theorem gives_of_purpose {u : Purpose} (h : purpose (s.frames slot) = u)
    (hu : u.isBinder = true ∧ s.isPart slot.role = false ∨ u.isName = true) :
    s.Gives slot.role u := by
  -- A part of a pattern is not given anything by the pattern itself.
  have hpart : s.isPart slot.role = false := by
    rcases hu with ⟨-, hpart⟩ | hname
    · exact hpart
    · rw [Bool.eq_false_iff]
      intro hpart
      rw [← h, purpose_of_isPart hpart, Purpose.isName_inside] at hname
      cases hname
  have hother : ∀ {v : Purpose}, v.isBinder = false → v.isName = false → v ≠ u := by
    intro v hbinder hname heq
    subst heq
    rw [hbinder, hname] at hu
    rcases hu with ⟨hu, -⟩ | hu <;> cases hu
  have himported : ∀ binding : Node, s.node.importBinding? = some binding → slot.role = .binding →
      ((import? s.above).map (Purpose.imported s)).getD .read = u → s.Gives slot.role u := by
    intro binding hbinding hrole h
    cases hd : import? s.above with
    | none =>
      rw [hd] at h
      exact absurd h (hother rfl rfl)
    | some d =>
      rw [hrole, ← h, hd]
      exact .imported hbinding hd
  rw [Site.frames, purpose] at h
  split at h
  · simp_all [Site.isPart]
  · simp_all [Site.isPart]
  · simp_all [Site.isPart]
  · simp_all [Site.isPart]
  · rename_i hform hrole
    simp only [Site.isPart, hform, hrole] at hpart
    rw [hpart] at h
    exact absurd h (hother rfl rfl)
  · rename_i hform hrole
    rw [hrole, ← h]
    exact .parameter (.inl (by simp only [Node.isFunction, hform]))
  · rename_i hform hrole
    rw [hrole, ← h]
    exact .parameter (.inr (by simp only [Node.isArrow, hform]))
  · rename_i hform hrole
    rw [hrole, ← h]
    exact .caught hform
  · rename_i hform hrole
    cases hd : declaration? s.above with
    | none =>
      rw [hd] at h
      exact absurd h (hother rfl rfl)
    | some d =>
      rw [hrole, ← h, hd]
      exact .declared hform hd
  · exact absurd h (hother rfl rfl)
  · split at h <;> exact absurd h (hother rfl rfl)
  · exact absurd h (hother rfl rfl)
  · rename_i binding hform hrole
    exact himported binding (by simp only [Node.importBinding?, hform]) hrole h
  · rename_i binding hform hrole
    exact himported binding (by simp only [Node.importBinding?, hform]) hrole h
  · rename_i imported binding hform hrole
    exact himported binding (by simp only [Node.importBinding?, hform]) hrole h
  · rename_i hform hrole
    rw [hrole, ← h]
    exact .functionName (by simp only [Node.isFunction, hform])
  · rename_i hform hrole
    rw [hrole, ← h]
    exact .className hform
  · exact absurd h (hother rfl rfl)

/-- The parameters of a function are its children in that role. -/
theorem Node.hasParameter_iff {n : Node} (hn : n.isFunction = true ∨ n.isArrow = true) :
    n.HasParameter p ↔ ∃ k, ((⟨.params, k⟩ : Slot), p) ∈ n.form.children := by
  constructor
  · intro h
    unfold Node.HasParameter at h
    split at h
    · rename_i hform
      exact Form.exists_child_of_all (by simp [hform, Form.parts]) h
    · rename_i params _ _ _ hform
      obtain ⟨k, hk⟩ := List.mem_iff_getElem?.1 h
      refine ⟨k, List.mem_flatMap.2 ⟨.many .params params, by simp [hform, Form.parts], ?_⟩⟩
      exact List.mem_filterMap.2 ⟨(some p, k), List.mem_zipIdx_iff_getElem?.2 hk, rfl⟩
    · rename_i hform
      simp [Node.isFunction, Node.isArrow, hform] at hn
    · cases h
  · rintro ⟨k, hk⟩
    rcases hn with hn | hn
    · unfold Node.isFunction at hn
      split at hn
      · rename_i hform
        simp only [Node.HasParameter, hform]
        exact Form.mem_of_child hk (by simp [hform, Form.parts]) rfl
      · cases hn
    · unfold Node.isArrow at hn
      split at hn
      · rename_i params _ _ _ hform
        have hpart : Part.many .params params ∈ n.form.parts := by simp [hform, Form.parts]
        have hmem := Form.mem_nodes_of_child hk hpart rfl
        simp only [Node.HasParameter, hform]
        simpa [Part.nodes] using hmem
      · cases hn

theorem Site.opens_params (hs : s.node.isFunction = true ∨ s.node.isArrow = true) :
    ∃ outer, s.opens .params = ⟨.function, s⟩ :: outer := by
  have hopens : s.opens .params = s.opened := by
    unfold Site.opens
    split <;> simp_all
  rw [hopens]
  rcases hs with hs | hs
  · exact s.opened_of_function hs
  · unfold Node.isArrow at hs
    split at hs
    · rename_i hform
      exact ⟨[], by simp only [Site.opened, hform]⟩
    · cases hs

theorem Site.purpose_params (hs : s.node.isFunction = true ∨ s.node.isArrow = true) (k : Nat) :
    s.holdsCode .params = true ∧ purpose (s.frames ⟨.params, k⟩) = .parameter .parameter s := by
  rw [Site.frames, purpose]
  rcases hs with hs | hs
  · unfold Node.isFunction at hs
    split at hs
    · rename_i hform
      simp [Site.holdsCode, hform]
    · cases hs
  · unfold Node.isArrow at hs
    split at hs
    · rename_i hform
      simp [Site.holdsCode, hform]
    · cases hs

/-- A declarator of a declaration in code. -/
theorem declarator_of_code (hs : s ∈ (Site.root program).code)
    (hd : declaration? s.above = some d) :
    d ∈ (Site.root program).code ∧ regions s.above = regions d.above ∧
      ∃ keyword declarators, d.node.form = .variableDeclaration keyword declarators ∧
        s.node ∈ declarators := by
  obtain ⟨slot, keyword, declarators, hform, habove⟩ := declaration?_eq_some_iff.1 hd
  obtain ⟨node, above⟩ := s
  obtain rfl : above = d.frames slot := habove
  obtain ⟨hd, hchild⟩ := Site.child_of_mem_code hs
  refine ⟨hd, ?_, keyword, declarators, hform, ?_⟩
  · show d.opens slot.role ++ regions d.above = _
    simp [Site.opens, Site.opened, hform]
  · obtain ⟨part, hpart, hrole, hn⟩ := Form.exists_part hchild
    simp only [hform, Form.parts, List.mem_cons, List.not_mem_nil, or_false] at hpart
    rcases hpart with rfl | rfl
    · cases hrole
    · simpa [Part.nodes, Part.all] using hn

/-- A specifier of an import in code. -/
theorem specifier_of_code (hs : s ∈ (Site.root program).code) (hd : import? s.above = some d) :
    d ∈ (Site.root program).code ∧ regions s.above = regions d.above ∧
      ∃ specifiers source, d.node.form = .importDeclaration specifiers source ∧
        s.node ∈ specifiers := by
  obtain ⟨slot, specifiers, source, hform, habove⟩ := import?_eq_some_iff.1 hd
  obtain ⟨node, above⟩ := s
  obtain rfl : above = d.frames slot := habove
  have hholds : d.holdsCode slot.role = true :=
    (Bool.and_eq_true_iff.1 (List.mem_filter.1 hs).2).1
  obtain ⟨hd, hchild⟩ := Site.child_of_mem_code hs
  refine ⟨hd, ?_, specifiers, source, hform, ?_⟩
  · show d.opens slot.role ++ regions d.above = _
    simp [Site.opens, Site.opened, hform]
  · obtain ⟨part, hpart, hrole, hn⟩ := Form.exists_part hchild
    simp only [hform, Form.parts, List.mem_cons, List.not_mem_nil, or_false] at hpart
    rcases hpart with rfl | rfl
    · simpa [Part.nodes, Part.all] using hn
    · -- What an import names as its source is not code.
      have hrole : slot.role = .source := (Option.some.inj hrole).symm
      simp [Site.holdsCode, hform, hrole] at hholds

/-- What an import specifier binds is a name in code, and the specifier opens no scope. -/
theorem Site.binding_of_importBinding? {binding : Node} (h : s.node.importBinding? = some binding) :
    .one .binding (some binding) ∈ s.node.form.parts ∧ s.opens .binding = [] ∧
      s.holdsCode .binding = true ∧
      purpose (s.frames ⟨.binding, 0⟩) = ((import? s.above).map (.imported s)).getD .read := by
  rw [Site.frames, purpose]
  unfold Node.importBinding? at h
  split at h
  · rename_i hform
    cases h
    simp [hform, Form.parts, Site.opens, Site.opened, Site.holdsCode]
  · rename_i hform
    cases h
    simp [hform, Form.parts, Site.opens, Site.opened, Site.holdsCode]
  · rename_i hform
    cases h
    simp [hform, Form.parts, Site.opens, Site.opened, Site.holdsCode]
  · cases h

/-- Whether a name that is for something is given to a scope, by the scopes around it. -/
def Purpose.GivesTo (around : List Region) (R : Region) : Purpose → Prop
  | .parameter .. | .imported .. | .functionName _ => around.head? = some R
  | .declared _ declaration => declaration.target.region? around = some R
  | .className placement owner =>
    placement = .declaration ∧ around.head? = some R ∨ (owner.opened ++ around).head? = some R
  | .read | .update _ | .write _ => False

/-- What a child of a node gives to a scope is declared for the scope. -/
theorem Site.Gives.declared_of_givesTo {u : Purpose} {R : Region} (h : s.Gives slot.role u)
    (hs : s ∈ (Site.root program).code) (hp : (slot, p) ∈ s.node.form.children)
    (hbinds : u.isBinder = true → p.Binds name)
    (hname : u.isName = true → p.form.identifierName? = some name)
    (hR : u.GivesTo (regions (s.frames slot)) R) : Declared (Site.root program).code R name := by
  have hregions : regions (s.frames slot) = s.opens slot.role ++ regions s.above := rfl
  generalize hr : slot.role = role at h
  rw [hregions, hr] at hR
  cases h with
  | parameter hfunction =>
    obtain ⟨outer, hopens⟩ := Site.opens_params hfunction
    rw [hopens] at hR
    cases hR
    obtain ⟨role, k⟩ := slot
    cases hr
    exact .parameter p (.inl rfl) ((Node.hasParameter_iff hfunction).2 ⟨k, hp⟩) (hbinds rfl)
  | @caught param body hform =>
    have hparam : param = some p := Form.eq_of_child hp (by simp [hform, Form.parts]) hr
    simp only [Purpose.GivesTo, Site.opens, Site.opened, hform] at hR
    cases hR
    refine .parameter p (.inr rfl) ?_ (hbinds rfl)
    simp only [Node.HasParameter, hform, hparam]
  | @declared target init d hform hd =>
    have htarget : target = some p := Form.eq_of_child hp (by simp [hform, Form.parts]) hr
    obtain ⟨hd, hsame, keyword, declarators, hdform, hmem⟩ := declarator_of_code hs hd
    have hdeclarators : DeclaratorsBind declarators name :=
      ⟨s.node, hmem, p, init, htarget ▸ hform, hbinds rfl⟩
    have hopens : s.opens .name = [] := by simp [Site.opens, Site.opened, hform]
    rw [hopens, List.nil_append, hsame] at hR
    simp only [Purpose.GivesTo, Site.target, hdform] at hR
    by_cases hvar : keyword = "var"
    · rw [if_pos hvar] at hR
      exact .var d hd (by simpa only [Node.DeclaresVar, hdform] using ⟨hvar, hdeclarators⟩) hR
    · rw [if_neg hvar] at hR
      exact .here d hd (by simpa only [Node.DeclaresHere, hdform] using ⟨hvar, hdeclarators⟩) hR
  | @imported binding d hbinding hd =>
    obtain ⟨hd, hsame, specifiers, source, hdform, hmem⟩ := specifier_of_code hs hd
    obtain ⟨hpart, hopens, -⟩ := Site.binding_of_importBinding? hbinding
    rw [Form.eq_of_child hp hpart hr] at hbinding
    rw [hopens, List.nil_append, hsame] at hR
    refine .here d hd ?_ hR
    simp only [Node.DeclaresHere, hdform]
    exact ⟨s.node, hmem, p, hbinding, hname rfl⟩
  | functionName hfunction =>
    unfold Node.isFunction at hfunction
    split at hfunction
    · rename_i placement id params body isGenerator isAsync hform
      have hid : id = some p := Form.eq_of_child hp (by simp [hform, Form.parts]) hr
      cases placement with
      | declaration =>
        have hopens : s.opens .name = [] := by simp [Site.opens, Site.opened, hform]
        rw [hopens, List.nil_append] at hR
        refine .here s hs ?_ hR
        simp only [Node.DeclaresHere, hform, hid]
        exact hname rfl
      | expression =>
        have hopens : s.opens .name = [⟨.functionName, s⟩] := by
          simp [Site.opens, Site.opened, hform, hid]
        rw [hopens] at hR
        cases hR
        refine .ownName (.inr rfl) ?_
        simp only [Node.ownName?, hform, hid]
        exact hname rfl
    · cases hfunction
  | @className placement id superClass body hform =>
    have hid : id = some p := Form.eq_of_child hp (by simp [hform, Form.parts]) hr
    have hopens : s.opens .name = [] := by simp [Site.opens, hform]
    have hopened : s.opened = [⟨.classBody, s⟩] := by simp [Site.opened, hform]
    rw [hopens, List.nil_append] at hR
    rcases hR with ⟨hplacement, hR⟩ | hR
    · refine .here s hs ?_ hR
      simp only [Node.DeclaresHere, hform, hplacement, hid]
      exact hname rfl
    · rw [hopened] at hR
      cases hR
      refine .ownName (.inl rfl) ?_
      simp only [Node.ownName?, hform, hid]
      exact hname rfl

/-- What the kind of a scope says of the node that opens it. -/
theorem Site.form_of_mem_opened {R : Region} (hR : R ∈ s.opened) :
    (R.kind = .function → s.node.isFunction = true ∨ s.node.isArrow = true) ∧
    (R.kind = .handler → ∃ param body, s.node.form = .catchClause param body) ∧
    (R.kind = .classBody → ∃ placement id superClass body,
      s.node.form = .classLike placement id superClass body) ∧
    (R.kind = .functionName → ∃ id params body isGenerator isAsync,
      s.node.form = .function .expression (some id) params body isGenerator isAsync) := by
  unfold Site.opened at hR
  split at hR
  all_goals try split at hR
  all_goals try split at hR
  all_goals simp_all [Node.isFunction, Node.isArrow]
  -- The nodes that open two scopes are left.
  · rcases hR with rfl | rfl <;> simp
  · rcases hR with rfl | rfl <;> simp

/-- Whether a name in code is given to a scope. -/
def GivenTo (program : Node) (R : Region) (name : Text) : Prop :=
  ∃ x ∈ (Site.root program).code, x.name? = some name ∧
    (x.node.isIdentifier = true ∨ (purpose x.above).isName = true) ∧
    (purpose x.above).GivesTo (regions x.above) R

theorem NamedFor.givenTo {u : Purpose} {around : List Region} {R : Region}
    (h : NamedFor program name u around) (hR : u.GivesTo around R) : GivenTo program R name := by
  obtain ⟨x, hx, hform, rfl, rfl⟩ := h
  refine ⟨x, hx, ?_, .inl ?_, hR⟩
  · rw [Site.name?, hform]
    rfl
  · rw [Node.isIdentifier, hform]

/-- A child that is a name gives what its place says. -/
theorem givenTo_of_name {R : Region} (hs : s ∈ (Site.root program).code)
    (hp : (slot, p) ∈ s.node.form.children) (hholds : s.holdsCode slot.role = true)
    (hname : p.form.identifierName? = some name)
    (hpurpose : (purpose (s.frames slot)).isName = true)
    (hR : (purpose (s.frames slot)).GivesTo (regions (s.frames slot)) R) : GivenTo program R name :=
  ⟨s.down slot p, Site.down_of_code hs hp hholds, hname, .inr hpurpose, hR⟩

/-- The names of a declaration are given to the scope that its keyword asks for. -/
theorem givenTo_of_declarators {keyword : String} {declarators : List Node} {R : Region}
    (hd : d ∈ (Site.root program).code)
    (hform : d.node.form = .variableDeclaration keyword declarators)
    (hbinds : DeclaratorsBind declarators name) (hR : d.target.region? (regions d.above) = some R) :
    GivenTo program R name := by
  obtain ⟨declarator, hmem, pattern, init, hdeclarator, hpattern⟩ := hbinds
  have hdeclarators : Part.all .declarations declarators ∈ d.node.form.parts :=
    by simp [hform, Form.parts]
  have hname : Part.one .name (some pattern) ∈ declarator.form.parts :=
    by simp [hdeclarator, Form.parts]
  obtain ⟨k, hk⟩ := Form.exists_child_of_all hdeclarators hmem
  have hs := Site.down_of_code hd hk (by simp [Site.holdsCode, hform])
  have hcode := Site.down_of_code hs (Form.child_of_one hname)
    (by simp [Site.holdsCode, Site.down, hdeclarator])
  have hpurpose : purpose ((d.down ⟨.declarations, k⟩ declarator).frames ⟨.name, 0⟩) =
      .declared (d.down ⟨.declarations, k⟩ declarator) d := by
    have hd : declaration? (d.down ⟨.declarations, k⟩ declarator).above = some d :=
      declaration?_eq_some_iff.2 ⟨_, keyword, declarators, hform, rfl⟩
    rw [Site.frames, purpose]
    simp only [Site.down, hdeclarator] at hd ⊢
    rw [hd]
    rfl
  have hregions : regions ((d.down ⟨.declarations, k⟩ declarator).frames ⟨.name, 0⟩) =
      regions d.above := by
    show Site.opens _ _ ++ (d.opens _ ++ regions d.above) = regions d.above
    simp [Site.opens, Site.opened, Site.down, hform, hdeclarator]
  apply (hpattern.down hcode rfl hpurpose).givenTo
  show d.target.region? (regions _) = some R
  rw [hregions, hR]

theorem givenTo_of_function {R : Region} {placement : Placement} {id : Node} {params : List Node}
    {body : Option Node} {isGenerator isAsync : Bool} (hs : s ∈ (Site.root program).code)
    (hform : s.node.form = .function placement (some id) params body isGenerator isAsync)
    (hname : id.form.identifierName? = some name)
    (hR : (s.opens .name ++ regions s.above).head? = some R) : GivenTo program R name := by
  have hid : Part.one .name (some id) ∈ s.node.form.parts := by simp [hform, Form.parts]
  have hpurpose : purpose (s.frames ⟨.name, 0⟩) = .functionName s := by
    rw [Site.frames, purpose]
    simp only [hform]
  apply givenTo_of_name hs (Form.child_of_one hid) (by simp [Site.holdsCode, hform]) hname
    (by rw [hpurpose]; rfl)
  rw [hpurpose]
  exact hR

theorem givenTo_of_class {R : Region} {placement : Placement} {id : Node}
    {superClass body : Option Node} (hs : s ∈ (Site.root program).code)
    (hform : s.node.form = .classLike placement (some id) superClass body)
    (hname : id.form.identifierName? = some name)
    (hR : placement = .declaration ∧ (regions s.above).head? = some R ∨ R = ⟨.classBody, s⟩) :
    GivenTo program R name := by
  have hid : Part.one .name (some id) ∈ s.node.form.parts := by simp [hform, Form.parts]
  have hpurpose : purpose (s.frames ⟨.name, 0⟩) = .className placement s := by
    rw [Site.frames, purpose]
    simp only [hform]
  have hregions : regions (s.frames ⟨.name, 0⟩) = regions s.above := by
    show s.opens .name ++ _ = _
    simp [Site.opens, hform]
  apply givenTo_of_name hs (Form.child_of_one hid) (by simp [Site.holdsCode, hform]) hname
    (by rw [hpurpose]; rfl)
  rw [hpurpose, hregions]
  refine hR.imp_right ?_
  intro hR
  simp [Site.opened, hform, hR]

theorem givenTo_of_specifier {R : Region} {specifiers : List Node} {source : Option Node}
    {specifier binding : Node} (hd : d ∈ (Site.root program).code)
    (hform : d.node.form = .importDeclaration specifiers source) (hmem : specifier ∈ specifiers)
    (hbinding : specifier.importBinding? = some binding)
    (hname : binding.form.identifierName? = some name) (hR : (regions d.above).head? = some R) :
    GivenTo program R name := by
  have hspecifiers : Part.all .specifiers specifiers ∈ d.node.form.parts :=
    by simp [hform, Form.parts]
  obtain ⟨k, hk⟩ := Form.exists_child_of_all hspecifiers hmem
  have hs := Site.down_of_code hd hk (by simp [Site.holdsCode, hform])
  obtain ⟨hpart, hopens, hholds, hpurpose⟩ :=
    Site.binding_of_importBinding? (s := d.down ⟨.specifiers, k⟩ specifier) hbinding
  have himport : import? (d.down ⟨.specifiers, k⟩ specifier).above = some d := by
    rw [import?_eq_some_iff]
    exact ⟨_, specifiers, source, hform, rfl⟩
  rw [himport, Option.map_some, Option.getD_some] at hpurpose
  have hregions : regions ((d.down ⟨.specifiers, k⟩ specifier).frames ⟨.binding, 0⟩) =
      regions d.above := by
    show Site.opens _ .binding ++ (d.opens _ ++ regions d.above) = regions d.above
    rw [hopens]
    simp [Site.opens, Site.opened, hform]
  apply givenTo_of_name hs (Form.child_of_one hpart) hholds hname (by rw [hpurpose]; rfl)
  rw [hpurpose, hregions]
  exact hR

theorem givenTo_of_parameter {R : Region} {kind : DefinitionKind}
    (hs : s ∈ (Site.root program).code) (hp : (slot, p) ∈ s.node.form.children)
    (hholds : s.holdsCode slot.role = true) (hpurpose : purpose (s.frames slot) = .parameter kind s)
    (hname : p.Binds name) (hR : (s.opens slot.role).head? = some R) : GivenTo program R name := by
  apply (hname.down (Site.down_of_code hs hp hholds) rfl hpurpose).givenTo
  show (s.opens slot.role ++ regions s.above).head? = some R
  rw [List.head?_append, hR, Option.some_or]

/-- What is declared for a scope is given to it by a name. -/
theorem Declared.givenTo {R : Region} (h : Declared (Site.root program).code R name)
    (hblock : R.block ∈ (Site.root program).code) (hR : R ∈ R.block.opened) :
    GivenTo program R name := by
  obtain ⟨hfunction, hhandler, hclass, hfunctionName⟩ := Site.form_of_mem_opened hR
  cases h with
  | here d hd hname hR =>
    unfold Node.DeclaresHere at hname
    split at hname
    · rename_i keyword declarators hform
      refine givenTo_of_declarators hd hform hname.2 ?_
      simp only [Site.target, hform, if_neg hname.1]
      exact hR
    · rename_i hform
      refine givenTo_of_function hd hform hname ?_
      simpa [Site.opens, Site.opened, hform] using hR
    · rename_i hform
      exact givenTo_of_class hd hform hname (.inl ⟨rfl, hR⟩)
    · rename_i specifiers source hform
      obtain ⟨specifier, hmem, binding, hbinding, hname⟩ := hname
      exact givenTo_of_specifier hd hform hmem hbinding hname hR
    · cases hname
  | var d hd hname hR =>
    unfold Node.DeclaresVar at hname
    split at hname
    · rename_i keyword declarators hform
      obtain ⟨rfl, hbinds⟩ := hname
      refine givenTo_of_declarators hd hform hbinds ?_
      simp only [Site.target, hform, if_pos]
      exact hR
    · cases hname
  | parameter p hkind hp hname =>
    obtain ⟨kind, s⟩ := R
    rcases hkind with rfl | rfl
    · have hs := hfunction rfl
      obtain ⟨k, hk⟩ := (Node.hasParameter_iff hs).1 hp
      obtain ⟨outer, hopens⟩ := Site.opens_params hs
      obtain ⟨hholds, hpurpose⟩ := Site.purpose_params hs k
      exact givenTo_of_parameter hblock hk hholds hpurpose hname (by rw [hopens]; rfl)
    · obtain ⟨param, body, hform⟩ := hhandler rfl
      simp only [Node.HasParameter, hform] at hp
      have hparam : Part.one .param (some p) ∈ s.node.form.parts := by simp [hform, hp, Form.parts]
      have hpurpose : purpose (s.frames ⟨.param, 0⟩) = .parameter .caught s := by
        rw [Site.frames, purpose]
        simp only [hform]
      refine givenTo_of_parameter hblock (Form.child_of_one hparam)
        (by simp [Site.holdsCode, hform])
        hpurpose hname ?_
      simp [Site.opens, Site.opened, hform]
  | ownName hkind hname =>
    obtain ⟨kind, s⟩ := R
    rcases hkind with rfl | rfl
    · obtain ⟨placement, id, superClass, body, hform⟩ := hclass rfl
      simp only [Node.ownName?, hform] at hname
      obtain ⟨id, rfl, hname⟩ := Option.bind_eq_some_iff.1 hname
      exact givenTo_of_class hblock hform hname (.inr rfl)
    · obtain ⟨id, params, body, isGenerator, isAsync, hform⟩ := hfunctionName rfl
      simp only [Node.ownName?, hform] at hname
      refine givenTo_of_function hblock hform hname ?_
      simp [Site.opens, Site.opened, hform]

theorem Purpose.isName_of_isBinder {u : Purpose} (h : u.isBinder = true) : u.isName = false := by
  cases u with
  | parameter | declared => rfl
  | _ => cases h

theorem Purpose.GivesTo.isName {u : Purpose} {around : List Region} {R : Region}
    (h : u.GivesTo around R) (hbinder : u.isBinder = false) : u.isName = true := by
  cases u with
  | imported | functionName | className => rfl
  | parameter | declared => cases hbinder
  | read | update | write => exact h.elim

/-- What a name gives to a scope is declared for the scope. -/
theorem GivenTo.declared {R : Region} (h : GivenTo program R name) :
    Declared (Site.root program).code R name := by
  obtain ⟨⟨node, above⟩, hx, hname, hnamed, hR⟩ := h
  cases hbinder : (purpose above).isBinder with
  | true =>
    have hidentifier : node.form = .identifier name := by
      have hnode : node.isIdentifier = true :=
        hnamed.resolve_right (by simp [Purpose.isName_of_isBinder hbinder])
      unfold Node.isIdentifier at hnode
      split at hnode
      · rename_i other hform
        have hname : node.form.identifierName? = some name := hname
        rw [hform] at hname ⊢
        cases hname
        rfl
      · cases hnode
    obtain ⟨s, slot, p, hs, hp, hpart, hbinds, hpurpose, hregions⟩ :=
      Node.BindsAt.exists_pattern (.inl (.identifier hidentifier)) hx hbinder rfl
    have hgives := gives_of_purpose hpurpose (.inl ⟨hbinder, hpart⟩)
    refine hgives.declared_of_givesTo hs hp (fun _ => hbinds) ?_ (hregions ▸ hR)
    intro hisName
    cases (Purpose.isName_of_isBinder hbinder).symm.trans hisName
  | false =>
    have hisName : (purpose above).isName = true := hR.isName hbinder
    cases above with
    | nil => cases hisName
    | cons frame above =>
      obtain ⟨slot, parent⟩ := frame
      let s : Site := ⟨parent, above⟩
      have hx : s.down slot node ∈ (Site.root program).code := hx
      obtain ⟨hs, hp⟩ := Site.child_of_mem_code hx
      have hgives : s.Gives slot.role (purpose (s.frames slot)) :=
        gives_of_purpose rfl (.inr hisName)
      refine hgives.declared_of_givesTo hs hp ?_ (fun _ => hname) hR
      intro hbinder'
      cases hbinder.symm.trans hbinder'

end Places

/-! ## Definitions -/

section Definitions

variable {program : Node} {R : Region} {name : Text}

theorem Saying.defines_define_iff {around : List Region} {target : Target} {d d' : Definition} :
    Saying.Defines (around, .define target d) R name d' ↔
      d' = d ∧ d.name.name? = some name ∧ target.region? around = some R := by
  constructor
  · intro ⟨target', heq, hname, hR⟩
    cases heq
    exact ⟨rfl, hname, hR⟩
  · intro ⟨heq, hname, hR⟩
    subst heq
    exact ⟨target, rfl, hname, hR⟩

theorem Saying.not_defines_mention {around : List Region} {m : Mention} {d : Definition} :
    ¬ Saying.Defines (around, .mention m) R name d := by
  intro ⟨target, heq, _⟩
  cases heq

/-- A name has a definition for each scope that it is given to. -/
theorem Purpose.exists_defines_iff {around : List Region} {x : Site} {u : Purpose} :
    (∃ saying ∈ u.sayings around x, ∃ d, saying.Defines R name d) ↔
      x.name? = some name ∧ u.GivesTo around R := by
  cases u with
  | read | update | write => simp [sayings, GivesTo, Saying.not_defines_mention]
  | parameter | imported | functionName =>
    simp [sayings, GivesTo, Saying.defines_define_iff, Target.region?]
  | declared declarator declaration =>
    rw [sayings]
    split <;> simp [GivesTo, Saying.defines_define_iff, Saying.not_defines_mention]
  | className placement owner =>
    rw [sayings]
    split <;> simp_all [GivesTo, Saying.defines_define_iff, Target.region?, ← and_or_left]

/-- A name says what its place makes of it. -/
theorem Site.mem_sayings_of_purpose {x : Site} (hname : x.name? = some name)
    (hnamed : x.node.isIdentifier = true ∨ (purpose x.above).isName = true) {saying : Saying}
    (h : saying ∈ (purpose x.above).sayings (regions x.above) x) : saying ∈ x.sayings := by
  apply List.mem_append_right
  unfold Site.name? Form.identifierName? at hname
  split at hname
  next hform => rwa [hform]
  next hform =>
    have hisName := hnamed.resolve_left (by simp [Node.isIdentifier, hform])
    simpa only [hform, hisName, if_true] using h
  next hform =>
    have hisName := hnamed.resolve_left (by simp [Node.isIdentifier, hform])
    simpa only [hform, hisName, if_true] using h
  next => cases hname

theorem exists_defines_iff :
    (∃ d, (Site.root program).Defines R name d) ↔ GivenTo program R name := by
  constructor
  · intro ⟨d, x, hx, saying, hsaying, hdefines⟩
    obtain ⟨own, heq, hown⟩ := x.sayings_cases
    rw [heq] at hsaying
    rcases List.mem_append.1 hsaying with hsaying | hsaying
    · obtain ⟨R', -, henter⟩ := mem_enters hsaying
      obtain ⟨target, hdefine, -⟩ := hdefines
      cases henter.symm.trans hdefine
    · rcases hown with rfl | ⟨rfl, hnamed⟩ | ⟨rfl, -⟩
      · cases hsaying
      · obtain ⟨hname, hR⟩ := Purpose.exists_defines_iff.1 ⟨saying, hsaying, d, hdefines⟩
        exact ⟨x, hx, hname, hnamed, hR⟩
      · obtain ⟨target, hdefine, -⟩ := hdefines
        rw [List.mem_singleton.1 hsaying] at hdefine
        cases hdefine
  · intro ⟨x, hx, hname, hnamed, hR⟩
    obtain ⟨saying, hsaying, d, hdefines⟩ := Purpose.exists_defines_iff.2 ⟨hname, hR⟩
    exact ⟨d, x, hx, saying, Site.mem_sayings_of_purpose hname hnamed hsaying, hdefines⟩

theorem Site.Defines.declares {s : Site} {d : Definition} (h : s.Defines R name d) :
    s.Declares R name := by
  obtain ⟨x, hx, saying, hsaying, target, hdefine, hname, hR⟩ := h
  refine ⟨x, hx, saying, hsaying, target, ?_, hR⟩
  rw [hdefine]
  exact .define hname

end Definitions

namespace ScopeGraph

/-- The names that have a definition in a scope. -/
def Defines (g : ScopeGraph) (k : Nat) (name : Text) : Prop :=
  ∃ v, g.get? ⟨k, name⟩ = some v ∧ v.definitions ≠ []

/-- **Scopes declare what the static rules give them.** For every program that the analysis accepts,
the names that have a definition in a scope are exactly those that the declarations in code declare
for it: the names of the other declarations that it is the innermost scope of, the names of the
`var` declarations that it is the nearest owner of, and what the node that opens it calls its
parameters or itself. -/
theorem scopes_declare_statically {program : Node} {g : ScopeGraph}
    (h : analyze program = .ok g) (k : Nat) (name : Text) :
    g.Defines k name ↔ ∃ R, g.scopes[k]?.map Scope.region = some R ∧
      Declared (Site.root program).code R name := by
  have hbuilt := built_of_analyze h
  constructor
  · intro ⟨v, hv, hne⟩
    obtain ⟨d, hd⟩ := List.exists_mem_of_ne_nil _ hne
    obtain ⟨R, hR, hdefines⟩ := (hbuilt.mem_definitions_iff hv d).1 hd
    exact ⟨R, hR, (exists_defines_iff.1 ⟨d, hdefines⟩).declared⟩
  · intro ⟨R, hR, hdeclared⟩
    -- The scope was opened by its block, so that the block is in code and has its parameters and
    -- name there.
    obtain ⟨s, hs, hregion⟩ := Option.map_eq_some_iff.1 hR
    have hmem : R ∈ g.scopes.map Scope.region :=
      List.mem_map.2 ⟨s, List.mem_of_getElem? hs, hregion⟩
    obtain ⟨x, hx, hopened⟩ := List.mem_flatMap.1 (hbuilt.perm_regions.mem_iff.1 hmem)
    have hblock : R.block = x := x.nodup_opened.2 R hopened
    rw [← hblock] at hx hopened
    obtain ⟨d, hdefines⟩ := exists_defines_iff.2 (hdeclared.givenTo hx hopened)
    obtain ⟨-, v, -, -, hv⟩ := hbuilt.get?_of_declares ⟨R, hR, hdefines.declares⟩
    have hd := (hbuilt.mem_definitions_iff hv d).2 ⟨R, hR, hdefines⟩
    exact ⟨v, hv, List.ne_nil_of_mem hd⟩

theorem scopes_declare_statically_function : ∃ g, analyze scopedProgram = .ok g ∧
    (∃ R, g.scopes[1]?.map Scope.region = some R ∧ Declared (Site.root scopedProgram).code R "a") ∧
      ¬ ∃ R, g.scopes[1]?.map Scope.region = some R ∧
        Declared (Site.root scopedProgram).code R "arguments" := by
  obtain ⟨g, hg, hparameter, harguments⟩ : ∃ g, analyze scopedProgram = .ok g ∧ g.Defines 1 "a" ∧
      g.get? ⟨1, "arguments"⟩ = some ⟨"arguments", []⟩ := ⟨_, rfl, ⟨_, rfl, nofun⟩, rfl⟩
  refine ⟨g, hg, (scopes_declare_statically hg 1 "a").1 hparameter, ?_⟩
  rw [← scopes_declare_statically hg 1 "arguments"]
  intro ⟨v, hv, hne⟩
  cases harguments.symm.trans hv
  exact hne rfl

/-- The program `a.var x`, whose declaration stands where the name of a property belongs. -/
def misplacedDeclaration : Node :=
  let declaration := Node.mk ⟨2, 7, 1, 2⟩ (.variableDeclaration "var"
    [.mk ⟨6, 7, 1, 6⟩ (.variableDeclarator (some (.mk ⟨6, 7, 1, 6⟩ (.identifier "x"))) none)])
  let access := Node.mk ⟨0, 7, 1, 0⟩
    (.member (some (.mk ⟨0, 1, 1, 0⟩ (.identifier "a"))) (some declaration) false false)
  .mk ⟨0, 8, 1, 0⟩ (.program [.mk ⟨0, 8, 1, 0⟩ (.expressionStatement (some access))] "script")

/-- Declarations that are not in code declare nothing. -/
theorem scopes_skip_misplaced_declaration :
    ¬ ∀ (program : Node) (g : ScopeGraph), analyze program = .ok g →
    ∀ (k : Nat) (name : Text), g.Defines k name ↔ ∃ R, g.scopes[k]?.map Scope.region = some R ∧
      Declared (Site.root program).walk R name := by
  intro hall
  obtain ⟨g, hg, hglobal, hunknown⟩ : ∃ g, analyze misplacedDeclaration = .ok g ∧
      g.scopes[0]?.map Scope.region = some ⟨.program, .root misplacedDeclaration⟩ ∧
      g.get? ⟨0, "x"⟩ = none := ⟨_, rfl, rfl, rfl⟩
  obtain ⟨d, hd, hvar, hR⟩ : ∃ d ∈ (Site.root misplacedDeclaration).walk, d.node.DeclaresVar "x" ∧
      (regions d.above).find? (·.kind.ownsVars) = some ⟨.program, .root misplacedDeclaration⟩ := by
    have hdeclaration := Site.mem_walk_of_child (s := .root misplacedDeclaration) (.head _)
      (Site.mem_walk_of_child (.head _)
        (Site.mem_walk_of_child (.tail _ (.head _)) (Site.mem_walk_self _)))
    exact ⟨_, hdeclaration, ⟨rfl, _, .head _, _, _, rfl, .identifier rfl⟩, rfl⟩
  obtain ⟨v, hv, -⟩ := (hall _ g hg 0 "x").2 ⟨_, hglobal, .var d hd hvar hR⟩
  cases hunknown.symm.trans hv

end ScopeGraph

end ApiTrace
