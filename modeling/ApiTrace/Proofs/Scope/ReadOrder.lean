import ApiTrace.Proofs.Scope.Blocks

/-!
# The order of reads

Where a program reads its variables, in the order in which its events come. A pattern has its
bindings before the expressions inside it, and a class or a `switch` statement has an expression
before its scope, but bindings read nothing, so the reads of a node come in the order of those parts
of it that are code (`Form.codeNodes`). If the reads of each part ascend in a zone and each zone
lies before the next one (`AscendingAll`), the reads of the node ascend (`Node.Ascending.of_code`).
-/

namespace ApiTrace

open ScopeEvent

/-! ## Reads -/

/-- Where an event reads a variable, if it does. -/
def ScopeEvent.readStart? : ScopeEvent → Option Nat
  | .mention m =>
    if m.access.reads && m.identifier.name?.isSome then some m.identifier.node.start else none
  | _ => none

/-- Where events read variables. -/
def readStarts (events : List ScopeEvent) : List Nat := events.filterMap ScopeEvent.readStart?

@[simp] theorem readStarts_nil : readStarts [] = [] := rfl

@[simp] theorem readStarts_append (first second : List ScopeEvent) :
    readStarts (first ++ second) = readStarts first ++ readStarts second := List.filterMap_append

@[simp] theorem readStarts_enter (kind : ScopeKind) (block : Site) (events : List ScopeEvent) :
    readStarts (.enter kind block :: events) = readStarts events := rfl

@[simp] theorem readStarts_leave (events : List ScopeEvent) :
    readStarts (.leave :: events) = readStarts events := rfl

@[simp] theorem readStarts_implicit (name : Text) (events : List ScopeEvent) :
    readStarts (.implicit name :: events) = readStarts events := rfl

@[simp] theorem readStarts_fault (fault : ScopeFault) (events : List ScopeEvent) :
    readStarts (.fault fault :: events) = readStarts events := rfl

@[simp] theorem readStarts_defining (target : Target) (definition : Definition)
    (events : List ScopeEvent) :
    readStarts (defining target definition :: events) = readStarts events := by
  unfold defining
  split <;> rfl

@[simp] theorem readStarts_naming (kind : DefinitionKind) (node : Site) (name : Option Node) :
    readStarts (naming kind node name) = [] := by
  cases name with
  | none => rfl
  | some name => exact readStarts_defining _ _ []

@[simp] theorem readStarts_writing (value : Option Site) (identifier : Site) :
    readStarts (writing value identifier) = [] := rfl

/-! ## Ascending reads -/

/-- Every offset of a zone lies before every offset of another. -/
def Zone.Before (Z Z' : Zone) : Prop := ∀ o o', Z o → Z' o' → o < o'

theorem Zone.Before.mono {Y Y' Z Z' : Zone} (h : Z.Before Z') (hY : Y.Sub Z) (hY' : Y'.Sub Z') :
    Y.Before Y' :=
  fun o o' ho ho' => h o o' (hY o ho) (hY' o' ho')

/-- Ascending offsets in a zone. -/
structure Ascends (Z : Zone) (offsets : List Nat) : Prop where
  ascending : offsets.Pairwise (· < ·)
  within : ∀ o ∈ offsets, Z o

namespace Ascends

variable {Z Z' Z₁ Z₂ : Zone} {l l' : List Nat}

theorem nil : Ascends Z [] := ⟨.nil, List.forall_mem_nil _⟩

theorem mono (h : Ascends Z l) (hZ : Z.Sub Z') : Ascends Z' l :=
  ⟨h.ascending, fun o ho => hZ o (h.within o ho)⟩

theorem sublist (h : Ascends Z l) (hl : l'.Sublist l) : Ascends Z l' :=
  ⟨h.ascending.sublist hl, fun o ho => h.within o (hl.subset ho)⟩

theorem append (h : Ascends Z₁ l) (h' : Ascends Z₂ l') (before : Z₁.Before Z₂) (sub₁ : Z₁.Sub Z)
    (sub₂ : Z₂.Sub Z) :
    Ascends Z (l ++ l') := by
  refine ⟨List.pairwise_append.2 ⟨h.ascending, h'.ascending, fun o ho o' ho' => ?_⟩, fun o ho => ?_⟩
  · exact before o o' (h.within o ho) (h'.within o' ho')
  · rcases List.mem_append.1 ho with ho | ho
    · exact sub₁ o (h.within o ho)
    · exact sub₂ o (h'.within o ho)

end Ascends

/-- A node whose reads ascend in a zone. -/
def Node.Ascending (Z : Zone) (n : Node) : Prop := ∀ above, Ascends Z (readStarts (visit above n))

/-- Nodes in a row whose reads ascend in zones of which each lies before the next. -/
inductive AscendingAll : Zone → List Node → Prop where
  | nil {Z} : AscendingAll Z []
  | cons {Z Z₁ Z₂ n ns} (head : n.Ascending Z₁) (tail : AscendingAll Z₂ ns) (before : Z₁.Before Z₂)
      (sub₁ : Z₁.Sub Z) (sub₂ : Z₂.Sub Z) : AscendingAll Z (n :: ns)

namespace AscendingAll

variable {Z Z' Z₁ Z₂ : Zone} {n : Node} {ns ns' : List Node}

theorem mono (h : AscendingAll Z ns) (hZ : Z.Sub Z') : AscendingAll Z' ns := by
  cases h with
  | nil => exact .nil
  | cons head tail before sub₁ sub₂ => exact .cons head tail before (sub₁.trans hZ) (sub₂.trans hZ)

theorem singleton (h : n.Ascending Z) : AscendingAll Z [n] :=
  .cons h (.nil (Z := Zone.none)) (fun _ _ _ ho' => ho'.elim) (.refl _) (Zone.none_sub _)

theorem ascending (h : AscendingAll Z [n]) : n.Ascending Z := by
  cases h with
  | cons head _ _ sub₁ _ => exact fun above => (head above).mono sub₁

theorem append (h : AscendingAll Z₁ ns) (h' : AscendingAll Z₂ ns') (before : Z₁.Before Z₂)
    (sub₁ : Z₁.Sub Z) (sub₂ : Z₂.Sub Z) : AscendingAll Z (ns ++ ns') := by
  induction h generalizing Z with
  | nil => exact h'.mono sub₂
  | @cons Z₁ Y Y' n ns head tail hbefore hsub hsub' ih =>
    have rest : AscendingAll (Y'.join Z₂) (ns ++ ns') :=
      ih (before.mono hsub' (.refl _)) (Zone.sub_join_left _ _) (Zone.sub_join_right _ _)
    refine .cons head rest ?_ (hsub.trans sub₁) (Zone.join_sub (hsub'.trans sub₁) sub₂)
    rintro o o' ho (ho' | ho')
    · exact hbefore o o' ho ho'
    · exact before o o' (hsub o ho) ho'

theorem split (h : AscendingAll Z (ns ++ ns')) :
    ∃ Z₁ Z₂ : Zone, AscendingAll Z₁ ns ∧ AscendingAll Z₂ ns' ∧
    Z₁.Before Z₂ ∧ Z₁.Sub Z ∧ Z₂.Sub Z := by
  induction ns generalizing Z with
  | nil => exact ⟨Zone.none, Z, .nil, h, fun _ _ ho => ho.elim, Zone.none_sub _, .refl _⟩
  | cons n ns ih =>
    cases h with
    | @cons _ Y Y' _ _ head tail hbefore sub₁ sub₂ =>
      obtain ⟨Z₁, Z₂, hns, hns', before, hsub₁, hsub₂⟩ := ih tail
      refine ⟨Y.join Z₁, Z₂, ?_, hns', ?_, Zone.join_sub sub₁ (hsub₁.trans sub₂), hsub₂.trans sub₂⟩
      · exact .cons head hns (hbefore.mono (.refl _) hsub₁) (Zone.sub_join_left _ _)
          (Zone.sub_join_right _ _)
      · rintro o o' (ho | ho) ho'
        · exact hbefore o o' ho (hsub₂ o' ho')
        · exact before o o' ho ho'

end AscendingAll

/-! ## Events that read what nodes in a row read -/

/-- The reads of some events ascend if those of some nodes in a row do. -/
def Covered (events : List ScopeEvent) (ns : List Node) : Prop :=
  ∀ Z, AscendingAll Z ns → Ascends Z (readStarts events)

namespace Covered

variable {events events' : List ScopeEvent} {ns ns' : List Node}

theorem silent (h : readStarts events = []) : Covered events ns := by
  intro Z _
  rw [h]
  exact .nil

theorem sublist (h : Covered events' ns) (hsub : (readStarts events).Sublist (readStarts events')) :
    Covered events ns := fun Z hns => (h Z hns).sublist hsub

theorem append (h : Covered events ns) (h' : Covered events' ns') :
    Covered (events ++ events') (ns ++ ns') := by
  intro Z hns
  obtain ⟨Z₁, Z₂, hns, hns', before, sub₁, sub₂⟩ := hns.split
  rw [readStarts_append]
  exact (h Z₁ hns).append (h' Z₂ hns') before sub₁ sub₂

theorem cons {n : Node} (h : Covered events [n]) (h' : Covered events' ns) :
    Covered (events ++ events') (n :: ns) :=
  h.append h'

theorem visitOne (self : Site) (role : Role) (o : Option Node) :
    Covered (visitOne self role o) o.toList := by
  cases o with
  | none => exact .silent rfl
  | some n => exact fun Z hn => hn.ascending _

theorem visitGaps (self : Site) (role : Role) (i : Nat) (os : List (Option Node)) :
    Covered (visitGaps self role i os) (os.filterMap id) := by
  induction os generalizing i with
  | nil => exact .silent rfl
  | cons o os ih =>
    cases o with
    | none => exact ih (i + 1)
    | some n => exact cons (fun Z hn => hn.ascending _) (ih (i + 1))

theorem visitAll (self : Site) (role : Role) (i : Nat) (ns : List Node) :
    Covered (visitAll self role i ns) ns := by
  induction ns generalizing i with
  | nil => exact .silent rfl
  | cons n ns ih => exact cons (fun Z hn => hn.ascending _) (ih (i + 1))

theorem visitParts (self : Site) (parts : List Part) :
    Covered (parts.flatMap (·.visit self)) (parts.flatMap Part.nodes) := by
  induction parts with
  | nil => exact .silent rfl
  | cons part parts ih =>
    have hpart : Covered (part.visit self) part.nodes := by
      cases part with
      | «attribute» name value => exact .silent rfl
      | one role child => exact visitOne_eq self role child ▸ visitOne self role child
      | many role children => exact visitGaps_eq self role children ▸ visitGaps self role 0 children
    exact append hpart ih

end Covered

/-! ## Patterns -/

/-- What is said of the identifiers of a pattern reads nothing. -/
def Unread (bind : Site → List ScopeEvent) : Prop := ∀ s, readStarts (bind s) = []

section Bindings

variable {bind : Site → List ScopeEvent}

mutual

theorem Unread.visitBindings (h : Unread bind) (above : List Frame) :
    ∀ n : Node, readStarts (visitBindings above bind n) = []
  | .mk span form => by
    cases form with
    | identifier name => exact h _
    | objectPattern properties => exact h.visitPropertyBindings _ 0 properties
    | arrayPattern elements => exact h.visitElementBindings _ 0 elements
    | assignmentPattern left right => exact h.visitOneBinding _ .left left
    | restElement argument => exact h.visitOneBinding _ .argument argument
    | other name children =>
      rw [ScopeEvent.visitBindings]
      split
      · exact h _
      · split <;> rfl
    | _ => rfl

theorem Unread.visitOneBinding (h : Unread bind) (self : Site) (role : Role) :
    ∀ o : Option Node, readStarts (visitOneBinding self role bind o) = []
  | none => rfl
  | some n => h.visitBindings _ n

theorem Unread.visitElementBindings (h : Unread bind) (self : Site) (i : Nat) :
    ∀ ns : List Node, readStarts (visitElementBindings self bind i ns) = []
  | [] => rfl
  | n :: ns => by
    rw [ScopeEvent.visitElementBindings, readStarts_append, h.visitBindings _ n,
      h.visitElementBindings self (i + 1) ns, List.append_nil]

theorem Unread.visitPropertyBindings (h : Unread bind) (self : Site) (i : Nat) :
    ∀ ns : List Node, readStarts (visitPropertyBindings self bind i ns) = []
  | [] => rfl
  | .mk span form :: ns => by
    have hself := h.visitBindings (self.frames ⟨.properties, i⟩) (.mk span form)
    rw [visitPropertyBindings_cons, readStarts_append, h.visitPropertyBindings self (i + 1) ns,
      List.append_nil]
    cases form with
    | property key value computed shorthand isMethod kind =>
      rw [ScopeEvent.visitPropertyBindings, ScopeEvent.visitPropertyBindings, List.append_nil]
      exact h.visitOneBinding _ .value value
    | _ =>
      rw [visitPropertyBindings_of_not_property (by simp)]
      split
      · rfl
      · exact hself

end

end Bindings

/-- Events that read no more than others, and in the same order. -/
def ReadsWithin (events events' : List ScopeEvent) : Prop :=
  (readStarts events).Sublist (readStarts events')

theorem ReadsWithin.append {first first' second second' : List ScopeEvent}
    (h : ReadsWithin first first') (h' : ReadsWithin second second') :
    ReadsWithin (first ++ second) (first' ++ second') := by
  rw [ReadsWithin, readStarts_append, readStarts_append]
  exact List.Sublist.append h h'

theorem ReadsWithin.refl (events : List ScopeEvent) : ReadsWithin events events :=
  List.Sublist.refl _

theorem ReadsWithin.of_nil {events events' : List ScopeEvent} (h : readStarts events = []) :
    ReadsWithin events events' := by
  rw [ReadsWithin, h]
  exact List.nil_sublist _

mutual

/-- The expressions inside a pattern read no more than the pattern would as an expression. -/
theorem readsWithin_visitInside (above : List Frame) :
    ∀ n : Node, ReadsWithin (visitInside above n) (visit above n)
  | .mk span form => by
    cases form with
    | identifier name => exact .of_nil rfl
    | objectPattern properties => exact readsWithin_visitInsideProperties _ 0 properties
    | arrayPattern elements => exact readsWithin_visitInsideElements _ 0 elements
    | assignmentPattern left right =>
      exact (readsWithin_visitInsideOne _ .left left).append (.refl _)
    | restElement argument => exact readsWithin_visitInsideOne _ .argument argument
    | other name children =>
      rw [visitInside]
      split
      · exact .of_nil rfl
      · exact .refl _
    | _ => exact .refl _

theorem readsWithin_visitInsideOne (self : Site) (role : Role) :
    ∀ o : Option Node, ReadsWithin (visitInsideOne self role o) (visitOne self role o)
  | none => .refl _
  | some n => readsWithin_visitInside _ n

theorem readsWithin_visitInsideElements (self : Site) (i : Nat) :
    ∀ ns : List Node, ReadsWithin (visitInsideElements self i ns) (visitAll self .elements i ns)
  | [] => .refl _
  | n :: ns =>
    (readsWithin_visitInside _ n).append (readsWithin_visitInsideElements self (i + 1) ns)

theorem readsWithin_visitInsideProperties (self : Site) (i : Nat) :
    ∀ ns : List Node, ReadsWithin (visitInsideProperties self i ns) (visitAll self .properties i ns)
  | [] => .refl _
  | .mk span form :: ns => by
    have hself := readsWithin_visitInside (self.frames ⟨.properties, i⟩) (.mk span form)
    rw [visitInsideProperties_cons, visitAll]
    refine .append ?_ (readsWithin_visitInsideProperties self (i + 1) ns)
    cases form with
    | property key value computed shorthand isMethod kind =>
      rw [visitInsideProperties, visitInsideProperties, List.append_nil]
      exact .append (.refl _) (readsWithin_visitInsideOne _ .value value)
    | _ =>
      rw [visitInsideProperties_of_not_property (by simp)]
      split
      · exact .of_nil rfl
      · exact hself

end

variable {bind : Site → List ScopeEvent}

/-- A pattern reads what is inside it. -/
theorem Unread.readsWithin (h : Unread bind) (above : List Frame) (n : Node) :
    ReadsWithin (ScopeEvent.visitBindings above bind n ++ visitInside above n) (visit above n) := by
  rw [ReadsWithin, readStarts_append, h.visitBindings]
  exact readsWithin_visitInside above n

theorem Unread.readStarts_visitPattern (h : Unread bind) (self : Site) (role : Role)
    (o : Option Node) :
    readStarts (ScopeEvent.visitPattern self role bind o) = readStarts
      (visitInsideOne self role o) := by
  cases o with
  | none => rfl
  | some n =>
    rw [ScopeEvent.visitPattern, readStarts_append, h.visitBindings]
    rfl

theorem Unread.visitPattern (h : Unread bind) (self : Site) (role : Role) (o : Option Node) :
    Covered (ScopeEvent.visitPattern self role bind o) o.toList := by
  refine (Covered.visitOne self role o).sublist ?_
  rw [h.readStarts_visitPattern]
  exact readsWithin_visitInsideOne self role o

theorem unread_writing (value : Option Site) : Unread (writing value) := fun _ => rfl

theorem unread_parameter (kind : DefinitionKind) (self : Site) :
    Unread fun identifier => [defining .here ⟨kind, identifier, self, none⟩] :=
  fun _ => readStarts_defining _ _ []

theorem unread_declared (target : Target) (self declaration : Site) (value : Option Site)
    (writes : Bool) :
    Unread fun identifier => defining target ⟨.declared, identifier, self, some declaration⟩
      :: if writes then [.mention ⟨identifier, .write, value, true⟩] else [] := by
  intro s
  rw [readStarts_defining]
  cases writes <;> rfl

/-! ## Parts of constructs -/

namespace Covered

theorem visitParams (self : Site) (i : Nat) (ns : List Node) :
    Covered (visitParams self i ns) ns := by
  induction ns generalizing i with
  | nil => exact .silent rfl
  | cons n ns ih =>
    refine cons (fun Z hn => ?_) (ih (i + 1))
    exact (hn.ascending _).sublist ((unread_parameter .parameter self).readsWithin _ n)

theorem visitOptionalParams (self : Site) (i : Nat) (os : List (Option Node)) :
    Covered (visitOptionalParams self i os) (os.filterMap id) := by
  induction os generalizing i with
  | nil => exact .silent rfl
  | cons o os ih =>
    cases o with
    | none => exact ih (i + 1)
    | some n =>
      refine cons (fun Z hn => ?_) (ih (i + 1))
      exact (hn.ascending _).sublist ((unread_parameter .parameter self).readsWithin _ n)

theorem visitFunctionBody (self : Site) (body : Option Node) :
    Covered (visitFunctionBody self body) body.toList := by
  cases body with
  | none => exact .silent rfl
  | some n =>
    obtain ⟨span, form⟩ := n
    refine (visitOne self .body (some (.mk span form))).sublist ?_
    cases form with
    | block body =>
      rw [ScopeEvent.visitOne, visit, visitForm]
      simp only [ScopeEvent.visitFunctionBody, List.cons_append, readStarts_enter,
        readStarts_append, readStarts_leave, readStarts_nil, List.append_nil]
      exact .refl _
    | _ => exact .refl _

theorem visitStatements (self : Site) (span : Span) (form : Form) :
    Covered (visitStatements (self.down ⟨.body, 0⟩ (.mk span form)) form) [.mk span form] := by
  refine (visitOne self .body (some (.mk span form))).sublist ?_
  cases form with
  | block body =>
    rw [ScopeEvent.visitOne, visit, visitForm]
    simp only [ScopeEvent.visitStatements, List.cons_append, readStarts_enter, readStarts_append,
      readStarts_leave, readStarts_nil, List.append_nil]
    exact .refl _
  | program | classBody => exact .refl _
  | _ => exact List.nil_sublist _

theorem visitClassBody (self : Site) (body : Option Node) :
    Covered (visitClassBody self body) body.toList := by
  cases body with
  | none => exact .silent rfl
  | some n =>
    obtain ⟨span, form⟩ := n
    cases form with
    | classBody members => exact visitOne self .body (some (.mk span (.classBody members)))
    | _ => exact .silent rfl

/-- Whether variables are written, and to which scope they belong, makes no difference to what is
read. -/
theorem readStarts_visitDeclarators (declaration : Site) (target target' : Target)
    (loop loop' : Bool) (i : Nat) (ns : List Node) :
    readStarts (ScopeEvent.visitDeclarators declaration target loop i ns) =
      readStarts (ScopeEvent.visitDeclarators declaration target' loop' i ns) := by
  induction ns generalizing i with
  | nil => rfl
  | cons n ns ih =>
    obtain ⟨span, form⟩ := n
    cases form with
    | variableDeclarator bound init =>
      simp only [ScopeEvent.visitDeclarators, readStarts_append,
        (unread_declared _ _ _ _ _).readStarts_visitPattern, ih (i + 1)]
    | _ => exact ih (i + 1)

theorem visitDeclarators (declaration : Site) (target : Target) (loop : Bool) (i : Nat)
    (ns : List Node) :
    Covered (visitDeclarators declaration target loop i ns) ns := by
  induction ns generalizing i with
  | nil => exact .silent rfl
  | cons n ns ih =>
    obtain ⟨span, form⟩ := n
    rw [visitDeclarators_cons]
    refine cons (fun Z hn => ?_) (ih (i + 1))
    cases form with
    | variableDeclarator bound init =>
      refine (hn.ascending (declaration.frames ⟨.declarations, i⟩)).sublist ?_
      rw [ScopeEvent.visitDeclarators, ScopeEvent.visitDeclarators, List.append_nil, visit,
        visitForm]
      refine ReadsWithin.append ?_ (.refl _)
      rw [ReadsWithin, (unread_declared _ _ _ _ _).readStarts_visitPattern]
      exact readsWithin_visitInsideOne _ .name bound
    | _ => exact .nil

theorem visitTarget (self : Site) (role : Role) (value : Option Site) (o : Option Node) :
    Covered (visitTarget self role value o) o.toList := by
  refine (visitOne self role o).sublist ?_
  cases o with
  | none => exact .refl _
  | some n =>
    obtain ⟨span, form⟩ := n
    cases form <;> exact .refl _

theorem visitExports (self : Site) (i : Nat) (ns : List Node) :
    Covered (visitExports self i ns) (ns.filterMap Node.binding?) := by
  induction ns generalizing i with
  | nil => exact .silent rfl
  | cons n ns ih =>
    obtain ⟨span, form⟩ := n
    cases form with
    | exportSpecifier binding exported =>
      refine (append (visitOne self .binding (some binding)) (ih (i + 1))).sublist ?_
      obtain ⟨nameSpan, nameForm⟩ := binding
      cases nameForm with
      | identifier name => exact .refl _
      | _ => exact ReadsWithin.append (.of_nil readStarts_nil) (.refl _)
    | importDefault binding | importNamespace binding | importSpecifier _ binding =>
      exact cons (.silent readStarts_nil) (ih (i + 1))
    | _ => exact ih (i + 1)

end Covered

/-! ## Nodes -/

/-- The parts of a form that are code, in the order in which they are read. -/
def Form.codeNodes : Form → List Node
  | .function _ _ params body _ _ => params ++ body.toList
  | .arrowFunction params body _ _ => params.filterMap id ++ body.toList
  | .classLike _ _ superClass body => superClass.toList ++ body.toList
  | .method key computed value _ _ | .field key computed value _ |
      .property key value computed .. =>
    (readKey computed key).toList ++ value.toList
  | .member base key computed _ => base.toList ++ (readKey computed key).toList
  | .labeled _ body => body.toList
  | .jump .. | .exportAll .. | .importDeclaration .. => []
  | .exportNamed declaration specifiers source =>
    if source.isSome then [] else declaration.toList ++ specifiers.filterMap Node.binding?
  | f => f.childNodes

variable {Z : Zone} {span : Span} {f : Form}

theorem covered_readKey (self : Site) (role : Role) (computed : Bool) (key : Option Node) :
    Covered (if computed then visitOne self role key else []) (readKey computed key).toList := by
  cases computed with
  | true => exact .visitOne self role key
  | false => exact .silent rfl

theorem covered_bracket {events : List ScopeEvent} {ns : List Node} (kind : ScopeKind)
    (block : Site) (h : Covered events ns) :
    Covered (.enter kind block :: events ++ [ScopeEvent.leave]) ns := by
  refine h.sublist ?_
  simp

theorem readStarts_imports (self : Site) (specifiers : List Node) (source : Option Node) :
    readStarts (visitForm self (.importDeclaration specifiers source)) = [] := by
  refine List.filterMap_eq_nil_iff.2 fun e he => ?_
  obtain ⟨⟨specifier, i⟩, -, rfl⟩ := List.mem_map.1 he
  obtain ⟨span, form⟩ := specifier
  cases form with
  | importDefault | importNamespace | importSpecifier =>
    exact List.filterMap_eq_nil_iff.1 (readStarts_defining _ _ []) _ (.head _)
  | _ => rfl

theorem covered_forEach (self : Site) {iteration : Iteration} {left right body : Option Node}
    {isAwait : Bool} :
    Covered (visitForm self (.forEach iteration left right body isAwait))
      (left.toList ++ (right.toList ++ body.toList)) := by
  have hrest := (Covered.visitOne self .right right).append (Covered.visitOne self .body body)
  have hpattern :=
    ((unread_writing (self.downOption .right right)).visitPattern self .left left).append hrest
  cases left with
  | none => exact hpattern
  | some n =>
    obtain ⟨span, form⟩ := n
    cases form with
    | variableDeclaration keyword declarations =>
      -- The declaration reads the same in the head of a loop as it does by itself.
      have hleft : ∀ target, Covered (visitDeclarators (self.down ⟨.left, 0⟩
          (.mk span (.variableDeclaration keyword declarations))) target true 0 declarations)
          [.mk span (.variableDeclaration keyword declarations)] := by
        intro target Z hn
        rw [Covered.readStarts_visitDeclarators _ _ _ _ false]
        exact hn.ascending (self.frames ⟨.left, 0⟩)
      rw [visitForm]
      split
      · exact (hleft _).append hrest
      · exact covered_bracket _ _ ((hleft _).append hrest)
    | _ => exact hpattern

theorem covered_visit (hf : ∀ name, f ≠ .identifier name) (above : List Frame) :
    Covered (visit above (.mk span f)) f.codeNodes := by
  rw [visit]
  by_cases hgeneric : f.isGeneric = true
  · -- A generic form is visited part by part, and all its parts are code.
    have hnodes : f.codeNodes = f.childNodes := by
      cases f <;> first | rfl | cases hgeneric
    rw [visitForm_eq_parts hgeneric, hnodes]
    exact .visitParts _ f.parts
  · let self : Site := ⟨.mk span f, above⟩
    cases f with
    | identifier name => exact absurd rfl (hf name)
    | block body =>
      have h := covered_bracket .block self (.visitAll self .body 0 body)
      rw [visitForm]
      simpa [Form.codeNodes, Form.childNodes, Form.parts, Part.all, Part.nodes] using h
    | staticBlock body =>
      cases body with
      | none => exact .silent rfl
      | some n =>
        obtain ⟨bodySpan, form⟩ := n
        exact covered_bracket .staticBlock self (.visitStatements self bodySpan form)
    | function placement name params body isGenerator isAsync =>
      refine ((Covered.visitParams self 0 params).append (.visitFunctionBody self body)).sublist ?_
      cases placement with
      | declaration => simp [visitForm, self]
      | expression => cases name <;> simp [visitForm, self]
    | arrowFunction params body isExpression isAsync =>
      exact covered_bracket .function self
        ((Covered.visitOptionalParams self 0 params).append (.visitFunctionBody self body))
    | classLike placement name superClass body =>
      -- The scope of a class opens after its heritage is read, but an `enter` between two reads is
      -- no read.
      refine ((Covered.visitOne self .superClass superClass).append
        (.visitClassBody self body)).sublist ?_
      cases placement <;> simp [visitForm, self]
    | catchClause param body =>
      have h := ((unread_parameter .caught self).visitPattern self .param param).append
        (.visitOne self .body body)
      rw [visitForm]
      simpa [Form.codeNodes, Form.childNodes, Form.parts, Part.nodes]
        using covered_bracket .handler self h
    | switch discriminant cases =>
      have h := (Covered.visitOne self .discriminant discriminant).append
        (covered_bracket .switchBody self (.visitAll self .cases 0 cases))
      rw [visitForm]
      simpa [Form.codeNodes, Form.childNodes, Form.parts, Part.all, Part.nodes] using h
    | forLoop init test update body =>
      have h := (Covered.visitOne self .init init).append ((Covered.visitOne self .test test).append
        ((Covered.visitOne self .update update).append (.visitOne self .body body)))
      rw [← List.append_assoc, ← List.append_assoc] at h
      have hnodes : (Form.forLoop init test update body).codeNodes =
          init.toList ++ (test.toList ++ (update.toList ++ body.toList)) := by
        simp [Form.codeNodes, Form.childNodes, Form.parts, Part.nodes]
      rw [hnodes, visitForm]
      split
      · split
        · exact h
        · exact covered_bracket .loop self h
      · exact h
    | forEach iteration left right body isAwait =>
      simpa [Form.codeNodes, Form.childNodes, Form.parts, Part.nodes, Part.flag]
        using covered_forEach self
    | variableDeclaration keyword declarations =>
      have h := Covered.visitDeclarators self (if keyword = "var" then .varScope else .here) false 0
        declarations
      rw [visitForm]
      simpa [Form.codeNodes, Form.childNodes, Form.parts, Part.all, Part.nodes, Part.text] using h
    | importDeclaration specifiers source => exact .silent (readStarts_imports _ _ _)
    | exportNamed declaration specifiers source =>
      rw [visitForm_exportNamed, Form.codeNodes]
      split
      · exact .silent rfl
      · cases declaration with
        | none => exact .visitExports self 0 specifiers
        | some n =>
          have hspecifiers : Covered [] (specifiers.filterMap Node.binding?) :=
            .silent readStarts_nil
          have h := (Covered.visitOne self .declaration (some n)).append hspecifiers
          rw [List.append_nil] at h
          exact h
    | exportAll exported source => exact .silent rfl
    | method key computed value kind isStatic | field key computed value isStatic
    | property key value computed shorthand isMethod kind =>
      exact (covered_readKey self .key computed key).append (.visitOne self .value value)
    | member base key computed optional =>
      exact (Covered.visitOne self .object base).append
        (covered_readKey self .property computed key)
    | assignment operator left right =>
      have h : Covered (visitForm self (.assignment operator left right))
          (left.toList ++ right.toList) := by
        rw [visitForm_assignment]
        refine .append ?_ (.visitOne self .right right)
        split
        · exact (unread_writing _).visitPattern self .left left
        · exact .visitTarget self .left _ left
      simpa [Form.codeNodes, Form.childNodes, Form.parts, Part.nodes, Part.text] using h
    | update operator before argument =>
      rw [visitForm_update]
      simpa [Form.codeNodes, Form.childNodes, Form.parts, Part.nodes, Part.text, Part.flag] using
        Covered.visitTarget self .argument none argument
    | labeled label body => exact .visitOne self .body body
    | jump jump label => exact .silent rfl
    | classBody members =>
      rw [visitForm]
      simpa [Form.codeNodes, Form.childNodes, Form.parts, Part.all, Part.nodes] using
        Covered.visitAll self .body 0 members
    | importDefault binding | importNamespace binding =>
      exact .visitOne self .binding (some binding)
    | importSpecifier imported binding =>
      exact (Covered.visitOne self .imported (some imported)).append
        (.visitOne self .binding (some binding))
    | exportSpecifier binding exported =>
      exact (Covered.visitOne self .binding (some binding)).append
        (.visitOne self .exported (some exported))
    | other name children =>
      rw [visitForm]
      split
      · exact .silent rfl
      · split
        · exact .silent rfl
        · split
          · exact .silent rfl
          · simpa [Form.codeNodes, Form.childNodes, Form.parts, Part.all, Part.nodes] using
              Covered.visitAll self .children 0 children
    | _ => exact absurd rfl hgeneric

/-- The reads of a node ascend if those of its parts that are code do. -/
theorem Node.Ascending.of_code (hf : f.identifierName? = none) (h : AscendingAll Z f.codeNodes) :
    (Node.mk span f).Ascending Z := by
  refine fun above => covered_visit ?_ above Z h
  rintro name rfl
  cases hf

theorem Node.Ascending.silent (h : ∀ self, readStarts (visitForm self f) = []) :
    (Node.mk span f).Ascending Z := by
  intro above
  rw [visit, h]
  exact .nil

theorem Node.Ascending.identifier {name : Text} (h : Z span.start) :
    (Node.mk span (.identifier name)).Ascending Z :=
  fun _ => ⟨List.pairwise_singleton _ _, List.forall_mem_singleton.2 h⟩

end ApiTrace
