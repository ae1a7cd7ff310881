import ApiTrace.Proofs.Scope.Forms

/-!
# Placement of the constructs that name things

Properties, writes, declarations, imports and exports, and the constructs that open a scope. A
construct that opens a scope keeps to its own span, whatever the zones of its parts are inside it.
-/

namespace ApiTrace

open ScopeEvent

variable {Z Z₁ Z₂ : Zone} {span : Span}

/-! ## Properties -/

/-- The key of a property if it is an expression to be read. -/
def readKey (computed : Bool) (key : Option Node) : Option Node := if computed then key else none

theorem laid_keyed {key value : Option Node} {computed : Bool}
    (hkey : PlacedAll Z₁ (readKey computed key).toList) (hvalue : PlacedAll Z₂ value.toList)
    (apart : Z₁.Apart Z₂) (sub₁ : Z₁.Sub Z) (sub₂ : Z₂.Sub Z) (self : Site) {depth : Nat}
    (hd : depth ≤ self.above.length) : Laid self.above depth Z
      ((if computed then visitOne self .key key else []) ++ visitOne self .value value) := by
  refine .append ?_ ?_ apart sub₁ sub₂
  · cases computed with
    | true => exact (hkey.visitOne self hd .key).mono (.cons rfl) (.refl _)
    | false => exact .nil
  · exact (hvalue.visitOne self hd .value).mono (.cons rfl) (.refl _)

theorem Node.Placed.method {key value : Option Node} {computed : Bool} {kind : MethodKind}
    {isStatic : Bool} (hkey : PlacedAll Z₁ (readKey computed key).toList)
    (hvalue : PlacedAll Z₂ value.toList) (apart : Z₁.Apart Z₂) (sub₁ : Z₁.Sub Z) (sub₂ : Z₂.Sub Z) :
    (Node.mk span (.method key computed value kind isStatic)).Placed Z :=
  .plain rfl rfl fun hd => laid_keyed hkey hvalue apart sub₁ sub₂ ⟨_, _⟩ hd

theorem Node.Placed.field {key value : Option Node} {computed isStatic : Bool}
    (hkey : PlacedAll Z₁ (readKey computed key).toList) (hvalue : PlacedAll Z₂ value.toList)
    (apart : Z₁.Apart Z₂) (sub₁ : Z₁.Sub Z) (sub₂ : Z₂.Sub Z) :
    (Node.mk span (.field key computed value isStatic)).Placed Z :=
  .plain rfl rfl fun hd => laid_keyed hkey hvalue apart sub₁ sub₂ ⟨_, _⟩ hd

/-- A property is also a member of an object pattern, in which its value is a pattern. -/
theorem Node.Placed.property {key value : Option Node} {computed shorthand isMethod : Bool}
    {kind : PropertyKind} (hkey : PlacedAll Z₁ (readKey computed key).toList)
    (hvalue : PlacedAll Z₂ value.toList) (apart : Z₁.Apart Z₂) (sub₁ : Z₁.Sub Z) (sub₂ : Z₂.Sub Z) :
    (Node.mk span (.property key value computed shorthand isMethod kind)).Placed Z := by
  have hvisit : ∀ {above depth}, depth ≤ above.length → Laid above depth Z
      (visitForm ⟨.mk span (.property key value computed shorthand isMethod kind), above⟩
        (.property key value computed shorthand isMethod kind)) :=
    fun hd => laid_keyed hkey hvalue apart sub₁ sub₂ ⟨_, _⟩ hd
  refine ⟨hvisit, fun hd hc _ => split_of_not_pattern rfl hvisit hd hc, ?_, ?_, ?_, ?_, ?_⟩
  · intro base depth bind self i hd hclear hbind
    let property := self.down ⟨.properties, i⟩
      (.mk span (.property key value computed shorthand isMethod kind))
    have hproperty : Clear base property.above := hclear.down rfl
    have htarget : Split base depth Z₂ (visitOneBinding property .value bind value)
        (visitInsideOne property .value value) := hvalue.visitOneBinding rfl hd hproperty hbind
    have hread : Laid base depth Z₁ (if computed then visitOne property .key key else []) := by
      cases computed with
      | true =>
        exact (hkey.visitOne property (Nat.le_trans hd hproperty.length_le) .key).mono
          (hproperty.down rfl) (.refl _)
      | false => exact .nil
    have hsplit := (Split.of_inside hread).append htarget apart sub₁ sub₂
    simp only [visitPropertyBindings, visitInsideProperties, List.append_nil]
    exact hsplit
  · exact laid_body (by simp) hvisit
  · intro above depth _
    exact laid_statements fun _ => ⟨_, rfl⟩
  · intro declaration target loop i depth _ _
    exact laid_declarator (by simp)
  · intro above target loop depth keyword declarations hform
    cases hform

/-! ## Access and writes -/

theorem Node.Placed.access {object property : Option Node} {computed optional : Bool}
    (hobject : PlacedAll Z₁ object.toList) (hproperty : PlacedAll Z₂ property.toList)
    (apart : Z₁.Apart Z₂) (sub₁ : Z₁.Sub Z) (sub₂ : Z₂.Sub Z) :
    (Node.mk span (.member object property computed optional)).Placed Z := by
  refine .plain rfl rfl fun {above depth} hd => ?_
  refine .append ((hobject.visitOne ⟨_, above⟩ hd .object).mono (.cons rfl) (.refl _)) ?_
    apart sub₁ sub₂
  cases computed with
  | true => exact (hproperty.visitOne ⟨_, above⟩ hd .property).mono (.cons rfl) (.refl _)
  | false => exact .nil

/-- The events of a target that is read and written: an identifier is mentioned once, everything
else is read like any other expression. -/
def visitTarget (self : Site) (role : Role) (value : Option Site) : Option Node → List ScopeEvent
  | some (.mk span (.identifier name)) =>
    [.mention ⟨self.down ⟨role, 0⟩ (.mk span (.identifier name)), .readWrite, value, false⟩]
  | target => visitOne self role target

theorem laid_visitTarget {target : Option Node} (h : PlacedAll Z target.toList) (self : Site)
    {role : Role} (hrole : role.isLoose = false) (value : Option Site) {depth : Nat}
    (hd : depth ≤ self.above.length) :
    Laid self.above depth Z (visitTarget self role value target) := by
  unfold visitTarget
  split
  · rename_i span name
    refine .points fun e he => ?_
    obtain rfl := List.mem_singleton.1 he
    refine isPoint_mention (.cons hrole) fun hne => ?_
    have hlaid : Laid [] 0 Z [.mention ⟨⟨.mk span (.identifier name), []⟩, .read, none, false⟩] :=
      h.placed.visit (Nat.zero_le _)
    have hmem := hlaid.site_mem List.mem_cons_self rfl hne
    exact hmem
  · exact (h.visitOne self hd role).mono (.cons hrole) (.refl _)

theorem visitForm_assignment (self : Site) (operator : Text) (left right : Option Node) :
    visitForm self (.assignment operator left right) = (if operator = Text.ofString "="
        then visitPattern self .left (writing (self.downOption .right right)) left
        else visitTarget self .left (self.downOption .right right) left)
      ++ visitOne self .right right := by
  cases left with
  | none => rfl
  | some n =>
    obtain ⟨span, form⟩ := n
    cases form <;> rfl

theorem visitForm_update (self : Site) (operator : Text) (before : Bool) (argument : Option Node) :
    visitForm self (.update operator before argument) = visitTarget self .argument none
      argument := by
  cases argument with
  | none => rfl
  | some n =>
    obtain ⟨span, form⟩ := n
    cases form <;> rfl

theorem Node.Placed.assignment {operator : Text} {left right : Option Node}
    (hleft : PlacedAll Z₁ left.toList) (hright : PlacedAll Z₂ right.toList) (apart : Z₁.Apart Z₂)
    (sub₁ : Z₁.Sub Z) (sub₂ : Z₂.Sub Z) :
    (Node.mk span (.assignment operator left right)).Placed Z := by
  refine .plain rfl rfl fun {above depth} hd => ?_
  rw [visitForm_assignment]
  refine .append ?_ ((hright.visitOne ⟨_, above⟩ hd .right).mono (.cons rfl) (.refl _))
    apart sub₁ sub₂
  split
  · exact hleft.visitPattern ⟨_, above⟩ hd .left rfl (binds_writing _ _ _)
  · exact laid_visitTarget hleft ⟨_, above⟩ rfl _ hd

theorem Node.Placed.update {operator : Text} {before : Bool} {argument : Option Node}
    (h : PlacedAll Z argument.toList) :
    (Node.mk span (.update operator before argument)).Placed Z := by
  refine .plain rfl rfl fun {above depth} hd => ?_
  rw [visitForm_update]
  exact laid_visitTarget h ⟨_, above⟩ rfl none hd

/-! ## Declarations -/

theorem Node.Placed.labeled {label body : Option Node} (h : PlacedAll Z body.toList) :
    (Node.mk span (.labeled label body)).Placed Z :=
  .plain rfl rfl fun hd => (h.visitOne ⟨_, _⟩ hd .body).mono (.cons rfl) (.refl _)

/-- A declarator is read in its declaration; by itself it would be two expressions. -/
theorem Node.Placed.variableDeclarator {bound init : Option Node}
    (hbound : PlacedAll Z₁ bound.toList) (hinit : PlacedAll Z₂ init.toList) (apart : Z₁.Apart Z₂)
    (sub₁ : Z₁.Sub Z) (sub₂ : Z₂.Sub Z) :
    (Node.mk span (.variableDeclarator bound init)).Placed Z := by
  have hnodes : PlacedAll Z (Form.variableDeclarator bound init).childNodes := by
    simpa [Form.childNodes, Form.parts, Part.nodes] using hbound.append hinit apart sub₁ sub₂
  have hvisit : ∀ {above depth}, depth ≤ above.length → Laid above depth Z
      (visitForm ⟨.mk span (.variableDeclarator bound init), above⟩
        (.variableDeclarator bound init)) :=
    fun hd => laid_generic rfl hnodes hd
  have hpattern : ∀ {base above depth bind}, depth ≤ base.length → Clear base above →
      Binds base depth bind → Split base depth Z
        (visitBindings above bind (.mk span (.variableDeclarator bound init)))
        (visitInside above (.mk span (.variableDeclarator bound init))) :=
    fun hd hc _ => split_of_not_pattern rfl hvisit hd hc
  refine ⟨hvisit, hpattern, split_member (by simp) hpattern, laid_body (by simp) hvisit, ?_, ?_, ?_⟩
  · intro above depth _
    exact laid_statements fun _ => ⟨_, rfl⟩
  · intro declaration target loop i depth hd htarget
    let self := declaration.down ⟨.declarations, i⟩ (.mk span (.variableDeclarator bound init))
    have hself : depth ≤ self.above.length := Nat.le_succ_of_le hd
    simp only [visitDeclarators, List.append_nil]
    suffices hself : Laid self.above depth Z _ from hself.mono (.cons rfl) (.refl _)
    refine .append ?_ ((hinit.visitOne self hself .init).mono (.cons rfl) (.refl _))
      apart sub₁ sub₂
    exact hbound.visitPattern self hself .name rfl (binds_declarator htarget _ _ _ _ _)
  · intro above target loop depth keyword declarations hform
    cases hform

theorem Node.Placed.variableDeclaration {keyword : String} {declarations : List Node}
    (h : PlacedAll Z declarations) :
    (Node.mk span (.variableDeclaration keyword declarations)).Placed Z := by
  have hvisit : ∀ {above depth}, depth ≤ above.length → Laid above depth Z
      (visitForm ⟨.mk span (.variableDeclaration keyword declarations), above⟩
        (.variableDeclaration keyword declarations)) := by
    intro above depth hd
    refine h.visitDeclarators ⟨_, above⟩ hd ?_
    intro keyword' declarations' hform hkeyword
    cases hform
    exact if_neg hkeyword
  have hpattern : ∀ {base above depth bind}, depth ≤ base.length → Clear base above →
      Binds base depth bind → Split base depth Z
        (visitBindings above bind (.mk span (.variableDeclaration keyword declarations)))
        (visitInside above (.mk span (.variableDeclaration keyword declarations))) :=
    fun hd hc _ => split_of_not_pattern rfl hvisit hd hc
  refine ⟨hvisit, hpattern, split_member (by simp) hpattern, laid_body (by simp) hvisit, ?_, ?_, ?_⟩
  · intro above depth _
    exact laid_statements fun _ => ⟨_, rfl⟩
  · intro declaration target loop i depth _ _
    exact laid_declarator (by simp)
  · intro above target loop depth keyword' declarations' hform hd htarget
    cases hform
    exact h.visitDeclarators ⟨_, above⟩ hd htarget

/-! ## Imports and exports -/

/-- The name that stands for a variable in one of the specifiers of an import or export. -/
def Node.binding? (n : Node) : Option Node :=
  match n.form with
  | .importDefault binding | .importNamespace binding | .importSpecifier _ binding
  | .exportSpecifier binding _ => some binding
  | _ => none

/-- The names of specifiers lie in a zone. -/
def BindingsIn (Z : Zone) (specifiers : List Node) : Prop :=
  ∀ n ∈ specifiers, ∀ binding, n.binding? = some binding → binding.start < binding.stop →
    Z binding.start

theorem Node.Placed.importDeclaration {specifiers : List Node} {source : Option Node}
    (h : BindingsIn Z specifiers) :
    (Node.mk span (.importDeclaration specifiers source)).Placed Z := by
  refine .plain rfl rfl fun {above depth} _ => .points fun e he => ?_
  obtain ⟨⟨specifier, i⟩, hmem, rfl⟩ := List.mem_map.1 he
  have hbinding := h specifier (List.fst_mem_of_mem_zipIdx hmem)
  obtain ⟨span', form⟩ := specifier
  cases form with
  | importDefault binding | importNamespace binding | importSpecifier _ binding =>
    refine isPoint_defining fun _ =>
      ⟨rfl, ?_, hbinding binding rfl, fun hparameter => nomatch hparameter⟩
    exact (Clear.cons rfl).trans (.cons rfl)
  | _ => exact isPoint_fault _

theorem isPoint_visitExports {specifiers : List Node} (h : BindingsIn Z specifiers) (self : Site)
    (depth i : Nat) : ∀ e ∈ visitExports self i specifiers, e.IsPoint self.above depth Z := by
  induction specifiers generalizing i with
  | nil => exact List.forall_mem_nil _
  | cons n ns ih =>
    have hrest := ih (fun n' hn' => h n' (.tail _ hn')) (i + 1)
    have hbinding := h n (.head _)
    obtain ⟨span, form⟩ := n
    cases form with
    | exportSpecifier binding exported =>
      obtain ⟨nameSpan, nameForm⟩ := binding
      cases nameForm with
      | identifier name =>
        refine List.forall_mem_cons.2 ⟨isPoint_mention ?_ (hbinding _ rfl), hrest⟩
        exact (Clear.cons rfl).trans (.cons rfl)
      | _ => exact hrest
    | _ => exact List.forall_mem_cons.2 ⟨isPoint_fault _, hrest⟩

theorem visitForm_exportNamed (self : Site) (declaration : Option Node) (specifiers : List Node)
    (source : Option Node) : visitForm self (.exportNamed declaration specifiers source) =
      if source.isSome then []
      else if declaration.isSome then visitOne self .declaration declaration
      else visitExports self 0 specifiers := by
  cases source with
  | some _ => rfl
  | none =>
    cases declaration with
    | none => rfl
    | some n =>
      obtain ⟨span, form⟩ := n
      rfl

theorem Node.Placed.exportNamed {declaration source : Option Node} {specifiers : List Node}
    (hdeclaration : PlacedAll Z declaration.toList) (hspecifiers : BindingsIn Z specifiers) :
    (Node.mk span (.exportNamed declaration specifiers source)).Placed Z := by
  refine .plain rfl rfl fun {above depth} hd => ?_
  rw [visitForm_exportNamed]
  split
  · exact .nil
  · split
    · exact (hdeclaration.visitOne ⟨_, above⟩ hd .declaration).mono (.cons rfl) (.refl _)
    · exact .points (isPoint_visitExports hspecifiers _ _ _)

/-- A form that does nothing to names, whatever its children are. -/
theorem Node.Placed.silent {f : Form} (hf : (f.isPlain && !f.isPattern) = true)
    (hvisit : ∀ self, visitForm self f = []) : (Node.mk span f).Placed Z := by
  simp only [Bool.and_eq_true, Bool.not_eq_true'] at hf
  refine .plain hf.1 hf.2 fun {above depth} _ => ?_
  rw [hvisit]
  exact .nil

end ApiTrace
