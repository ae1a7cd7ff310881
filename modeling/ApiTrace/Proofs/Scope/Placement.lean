import ApiTrace.Proofs.Scope.Layout

/-!
# Nodes that keep to a zone

A node keeps to a zone (`Node.Placed`) if its events do, in whichever way the node is read: as a
node of its own, as a pattern, as the body of a function, as a declarator and so on. Nodes in a row
keep to zones that have no offset in common (`PlacedAll`). From what is known of its parts follows
what a node of each form does, so the events of a whole program are laid out once its nodes are.
-/

namespace ApiTrace

open ScopeEvent

/-! ## Patterns -/

/-- What is said of the identifiers of a pattern below `base` are points where they stand. -/
def Binds (base : List Frame) (depth : Nat) (bind : Site → List ScopeEvent) : Prop :=
  ∀ (s : Site) (Z : Zone), Clear base s.above → (s.node.start < s.node.stop → Z s.node.start) →
    ∀ e ∈ bind s, e.IsPoint base depth Z

/-- Whether a declaration that is no `var` binds its names in the scope that it stands in. -/
def TargetFits (declaration : Site) (target : Target) : Prop :=
  ∀ keyword declarations, declaration.node.form = .variableDeclaration keyword declarations →
    keyword ≠ "var" → target = .here

section Points

variable {base : List Frame} {depth : Nat} {Z : Zone}

theorem isPoint_fault (f : ScopeFault) : IsPoint base depth Z (.fault f) where
  bracket := rfl
  site _ hs := nomatch hs
  binding _ _ he := nomatch he

theorem isPoint_implicit (name : Text) : IsPoint base depth Z (.implicit name) where
  bracket := rfl
  site _ hs := nomatch hs
  binding _ _ he := nomatch he

theorem isPoint_mention {m : Mention} (hbase : Clear base m.identifier.above)
    (hZ : m.identifier.node.start < m.identifier.node.stop → Z m.identifier.node.start) :
    IsPoint base depth Z (.mention m) where
  bracket := rfl
  site s hs := by
    cases hs
    exact ⟨hbase, hZ⟩
  binding _ _ he := nomatch he

theorem isPoint_defining {target : Target} {d : Definition}
    (h : d.bindsHere = true → target = .here ∧
      Clear base d.name.above ∧ (d.name.node.start < d.name.node.stop → Z d.name.node.start) ∧
        (d.isParameter = true → ¬ LooseBelow depth d.name.above)) :
    IsPoint base depth Z (defining target d) := by
  unfold defining
  split
  · refine ⟨rfl, ?_, ?_⟩
    · intro s hs
      simp only [site?] at hs
      split at hs
      · rename_i hbinds
        cases hs
        exact ⟨(h hbinds).2.1, (h hbinds).2.2.1⟩
      · cases hs
    · intro target' d' he hbinds
      cases he
      exact ⟨(h hbinds).1, (h hbinds).2.2.2⟩
  · exact isPoint_fault _

/-- The names of functions and classes are bound, but not looked for by their place. -/
theorem isPoint_naming {kind : DefinitionKind} (hkind : kind = .functionName ∨ kind = .className)
    (node : Site) (name : Option Node) : ∀ e ∈ naming kind node name, IsPoint base depth Z e := by
  cases name with
  | none => exact List.forall_mem_nil _
  | some n =>
    simp only [naming, List.forall_mem_singleton]
    refine isPoint_defining fun hbinds => ?_
    rcases hkind with rfl | rfl <;> cases hbinds

theorem binds_writing (base : List Frame) (depth : Nat) (value : Option Site) :
    Binds base depth (writing value) := by
  intro s Z hclear hZ e he
  obtain rfl := List.mem_singleton.1 he
  exact isPoint_mention hclear hZ

/-- Parameters are bound in the scope of their function or clause. -/
theorem binds_parameter (kind : DefinitionKind) (self : Site) {slot : Slot}
    (hslot : slot.role.isLoose = false) :
    Binds (self.frames slot) self.above.length
      fun identifier => [defining .here ⟨kind, identifier, self, none⟩] := by
  intro s Z hclear hZ e he
  obtain rfl := List.mem_singleton.1 he
  refine isPoint_defining fun _ => ⟨rfl, hclear, hZ, fun _ hloose => ?_⟩
  have hself : Clear self.above s.above := Clear.trans (.cons hslot) hclear
  rw [hself.looseBelow_iff (Nat.le_refl _)] at hloose
  exact not_looseBelow_length _ hloose

theorem binds_declarator {declaration : Site} {target : Target}
    (htarget : TargetFits declaration target) (base : List Frame) (depth : Nat) (self : Site)
    (value : Option Site) (writes : Bool) :
    Binds base depth fun identifier =>
      defining target ⟨.declared, identifier, self, some declaration⟩
        :: if writes then [.mention ⟨identifier, .write, value, true⟩] else [] := by
  intro s Z hclear hZ e he
  rcases List.mem_cons.1 he with rfl | he
  · refine isPoint_defining fun hbinds => ⟨?_, hclear, hZ, fun hparameter => nomatch hparameter⟩
    simp only [Definition.bindsHere, Option.any_some] at hbinds
    split at hbinds
    · rename_i keyword declarations hform
      exact htarget keyword declarations hform (by simpa using hbinds)
    · cases hbinds
  · split at he
    · obtain rfl := List.mem_singleton.1 he
      exact isPoint_mention hclear hZ
    · cases he

end Points

/-- Points of a pattern and the events of the expressions inside it, which stand apart from the
points. -/
def Split (base : List Frame) (depth : Nat) (Z : Zone) (points inside : List ScopeEvent) : Prop :=
  ∃ Z₁ Z₂ : Zone, (∀ e ∈ points, e.IsPoint base depth Z₁) ∧ Laid base depth Z₂ inside ∧
    Z₁.Apart Z₂ ∧ Z₁.Sub Z ∧ Z₂.Sub Z

namespace Split

variable {base : List Frame} {depth : Nat} {Z Z' : Zone} {points inside : List ScopeEvent}

theorem laid (h : Split base depth Z points inside) : Laid base depth Z (points ++ inside) := by
  obtain ⟨Z₁, Z₂, hpoints, hinside, apart, sub₁, sub₂⟩ := h
  exact .append (.points hpoints) hinside apart sub₁ sub₂

theorem mono (h : Split base depth Z points inside) (hZ : Z.Sub Z') :
    Split base depth Z' points inside := by
  obtain ⟨Z₁, Z₂, hpoints, hinside, apart, sub₁, sub₂⟩ := h
  exact ⟨Z₁, Z₂, hpoints, hinside, apart, sub₁.trans hZ, sub₂.trans hZ⟩

theorem of_points (h : ∀ e ∈ points, e.IsPoint base depth Z) : Split base depth Z points [] :=
  ⟨Z, Zone.none, h, .nil, fun _ _ => id, .refl _, Zone.none_sub _⟩

theorem of_inside (h : Laid base depth Z inside) : Split base depth Z [] inside :=
  ⟨Zone.none, Z, List.forall_mem_nil _, h, Zone.none_apart _, Zone.none_sub _, .refl _⟩

theorem append {Z₁ Z₂ : Zone} {points' inside' : List ScopeEvent}
    (h : Split base depth Z₁ points inside) (h' : Split base depth Z₂ points' inside')
    (apart : Z₁.Apart Z₂) (sub₁ : Z₁.Sub Z) (sub₂ : Z₂.Sub Z) :
    Split base depth Z (points ++ points') (inside ++ inside') := by
  obtain ⟨Y₁, Y₂, hpoints, hinside, hapart, hsub₁, hsub₂⟩ := h
  obtain ⟨Y₁', Y₂', hpoints', hinside', hapart', hsub₁', hsub₂'⟩ := h'
  refine ⟨Y₁.join Y₁', Y₂.join Y₂', ?_, ?_, ?_, ?_, ?_⟩
  · intro e he
    rcases List.mem_append.1 he with he | he
    · exact (hpoints e he).mono (.refl _) (Zone.sub_join_left _ _)
    · exact (hpoints' e he).mono (.refl _) (Zone.sub_join_right _ _)
  · exact hinside.join hinside' (apart.mono hsub₂ hsub₂')
  · apply Zone.join_apart
    · exact Zone.apart_join hapart (apart.mono hsub₁ hsub₂')
    · exact Zone.apart_join (apart.symm.mono hsub₁' hsub₂) hapart'
  · exact Zone.join_sub (hsub₁.trans sub₁) (hsub₁'.trans sub₂)
  · exact Zone.join_sub (hsub₂.trans sub₁) (hsub₂'.trans sub₂)

end Split

/-! ## Rows -/

theorem visitDeclarators_cons (declaration : Site) (target : Target) (loop : Bool)
    (i : Nat) (n : Node) (ns : List Node) : visitDeclarators declaration target loop i (n :: ns) =
      visitDeclarators declaration target loop i [n] ++
        visitDeclarators declaration target loop (i + 1) ns := by
  obtain ⟨span, form⟩ := n
  cases form <;> simp [visitDeclarators]

theorem visitPropertyBindings_cons (self : Site) (bind : Site → List ScopeEvent)
    (i : Nat) (n : Node) (ns : List Node) : visitPropertyBindings self bind i (n :: ns) =
      visitPropertyBindings self bind i [n] ++ visitPropertyBindings self bind (i + 1) ns := by
  obtain ⟨span, form⟩ := n
  cases form <;> simp [visitPropertyBindings]

theorem visitInsideProperties_cons (self : Site) (i : Nat) (n : Node) (ns : List Node) :
    visitInsideProperties self i (n :: ns) =
      visitInsideProperties self i [n] ++ visitInsideProperties self (i + 1) ns := by
  obtain ⟨span, form⟩ := n
  cases form <;> simp [visitInsideProperties]

/-! ## Nodes -/

/-- A node that keeps to a zone. -/
structure Node.Placed (Z : Zone) (n : Node) : Prop where
  visit : ∀ {above depth}, depth ≤ above.length → Laid above depth Z (visit above n)
  /-- As a pattern. -/
  pattern : ∀ {base above depth bind}, depth ≤ base.length → Clear base above →
    Binds base depth bind → Split base depth Z (visitBindings above bind n) (visitInside above n)
  /-- As a member of an object pattern. -/
  member : ∀ {base depth bind} {self : Site} {i : Nat}, depth ≤ base.length →
    Clear base self.above → Binds base depth bind →
    Split base depth Z (visitPropertyBindings self bind i [n]) (visitInsideProperties self i [n])
  /-- As the body of a function. -/
  body : ∀ {self : Site} {depth}, depth ≤ self.above.length →
    Laid self.above depth Z (visitFunctionBody self (some n))
  /-- As the block of a static initializer. -/
  statements : ∀ {above depth}, depth ≤ above.length →
    Laid above depth Z (visitStatements ⟨n, above⟩ n.form)
  /-- As one of the declarators of a declaration. -/
  declarator : ∀ {declaration target loop i depth}, depth ≤ declaration.above.length →
    TargetFits declaration target →
    Laid declaration.above depth Z (visitDeclarators declaration target loop i [n])
  /-- As the declaration in the head of a loop. -/
  declaration : ∀ {above target loop depth keyword declarations},
    n.form = .variableDeclaration keyword declarations → depth ≤ above.length →
    TargetFits ⟨n, above⟩ target →
    Laid above depth Z (visitDeclarators ⟨n, above⟩ target loop 0 declarations)

theorem Node.Placed.mono {Z Z' : Zone} {n : Node} (h : n.Placed Z) (hZ : Z.Sub Z') :
    n.Placed Z' where
  visit hd := (h.visit hd).mono (.refl _) hZ
  pattern hd hc hb := (h.pattern hd hc hb).mono hZ
  member hd hc hb := (h.member hd hc hb).mono hZ
  body hd := (h.body hd).mono (.refl _) hZ
  statements hd := (h.statements hd).mono (.refl _) hZ
  declarator hd ht := (h.declarator hd ht).mono (.refl _) hZ
  declaration hf hd ht := (h.declaration hf hd ht).mono (.refl _) hZ

/-- As a parameter of a function or of a `catch` clause. -/
theorem Node.Placed.parameter {Z : Zone} {n : Node} (h : n.Placed Z) (kind : DefinitionKind)
    (self : Site) {slot : Slot} (hslot : slot.role.isLoose = false) :
    let bind := fun identifier => [defining .here ⟨kind, identifier, self, none⟩]
    Laid self.above self.above.length Z
      (visitBindings (self.frames slot) bind n ++ visitInside (self.frames slot) n) := by
  have hsplit := h.pattern (Nat.le_succ _) (.refl (self.frames slot))
    (binds_parameter kind self hslot)
  exact hsplit.laid.mono (.cons hslot) (.refl _)

/-- Nodes in a row that keep to zones of which no two have an offset in common. -/
inductive PlacedAll : Zone → List Node → Prop where
  | nil {Z} : PlacedAll Z []
  | cons {Z Z₁ Z₂ n ns} (head : n.Placed Z₁) (tail : PlacedAll Z₂ ns) (apart : Z₁.Apart Z₂)
      (sub₁ : Z₁.Sub Z) (sub₂ : Z₂.Sub Z) : PlacedAll Z (n :: ns)

namespace PlacedAll

variable {Z Z' Z₁ Z₂ : Zone} {n : Node} {ns ns' : List Node}

theorem mono (h : PlacedAll Z ns) (hZ : Z.Sub Z') : PlacedAll Z' ns := by
  cases h with
  | nil => exact .nil
  | cons head tail apart sub₁ sub₂ => exact .cons head tail apart (sub₁.trans hZ) (sub₂.trans hZ)

theorem singleton (h : n.Placed Z) : PlacedAll Z [n] :=
  .cons h (.nil (Z := Zone.none)) (fun _ _ => id) (.refl _) (Zone.none_sub _)

theorem placed (h : PlacedAll Z [n]) : n.Placed Z := by
  cases h with
  | cons head _ _ sub₁ _ => exact head.mono sub₁

theorem append (h : PlacedAll Z₁ ns) (h' : PlacedAll Z₂ ns') (apart : Z₁.Apart Z₂) (sub₁ : Z₁.Sub Z)
    (sub₂ : Z₂.Sub Z) : PlacedAll Z (ns ++ ns') := by
  induction h generalizing Z with
  | nil => exact h'.mono sub₂
  | @cons Z₁ Y Y' n ns head tail hapart hsub hsub' ih =>
    have rest : PlacedAll (Y'.join Z₂) (ns ++ ns') :=
      ih (apart.mono hsub' (.refl _)) (Zone.sub_join_left _ _) (Zone.sub_join_right _ _)
    exact .cons head rest (Zone.apart_join hapart (apart.mono hsub (.refl _))) (hsub.trans sub₁)
      (Zone.join_sub (hsub'.trans sub₁) sub₂)

theorem head? (h : PlacedAll Z ns) : PlacedAll Z ns.head?.toList := by
  cases h with
  | nil => exact .nil
  | cons head _ _ sub₁ _ => exact .singleton (head.mono sub₁)

/-! ### Events of nodes in a row -/

section Events

variable (self : Site) {depth i : Nat} (hd : depth ≤ self.above.length)

include hd

theorem visitOne {o : Option Node} (h : PlacedAll Z o.toList) (role : Role) :
    Laid (self.frames ⟨role, 0⟩) depth Z (ScopeEvent.visitOne self role o) := by
  cases o with
  | none => exact .nil
  | some n => exact h.placed.visit (Nat.le_succ_of_le hd)

theorem visitAll (h : PlacedAll Z ns) (role : Role) (hrole : role.isLoose = false) :
    Laid self.above depth Z (ScopeEvent.visitAll self role i ns) := by
  induction h generalizing i with
  | nil => exact .nil
  | cons head _ apart sub₁ sub₂ ih =>
    refine .append ?_ ih apart sub₁ sub₂
    exact (head.visit (Nat.le_succ_of_le hd)).mono (.cons hrole) (.refl _)

omit hd in
theorem visitParams (h : PlacedAll Z ns) :
    Laid self.above self.above.length Z (ScopeEvent.visitParams self i ns) := by
  induction h generalizing i with
  | nil => exact .nil
  | cons head _ apart sub₁ sub₂ ih =>
    refine .append ?_ ih apart sub₁ sub₂
    exact head.parameter .parameter self rfl

omit hd in
theorem visitOptionalParams {os : List (Option Node)} (h : PlacedAll Z (os.filterMap id)) :
    Laid self.above self.above.length Z (ScopeEvent.visitOptionalParams self i os) := by
  induction os generalizing i Z with
  | nil => exact .nil
  | cons o os ih =>
    cases o with
    | none => exact ih h
    | some n =>
      cases h with
      | cons head tail apart sub₁ sub₂ =>
        refine .append ?_ (ih tail) apart sub₁ sub₂
        exact head.parameter .parameter self rfl

theorem visitDeclarators {target : Target} {loop : Bool} (h : PlacedAll Z ns)
    (htarget : TargetFits self target) :
    Laid self.above depth Z (ScopeEvent.visitDeclarators self target loop i ns) := by
  induction h generalizing i with
  | nil => exact .nil
  | cons head _ apart sub₁ sub₂ ih =>
    rw [visitDeclarators_cons]
    exact .append (head.declarator hd htarget) ih apart sub₁ sub₂

omit hd in
theorem visitElements {base : List Frame} {bind : Site → List ScopeEvent} (h : PlacedAll Z ns)
    (hbase : depth ≤ base.length) (hclear : Clear base self.above) (hbind : Binds base depth bind) :
    Split base depth Z (visitElementBindings self bind i ns) (visitInsideElements self i ns) := by
  induction h generalizing i with
  | nil => exact .of_points (List.forall_mem_nil _)
  | cons head _ apart sub₁ sub₂ ih =>
    exact .append (head.pattern hbase (hclear.down rfl) hbind) ih apart sub₁ sub₂

omit hd in
theorem visitProperties {base : List Frame} {bind : Site → List ScopeEvent} (h : PlacedAll Z ns)
    (hbase : depth ≤ base.length) (hclear : Clear base self.above) (hbind : Binds base depth bind) :
    Split base depth Z (visitPropertyBindings self bind i ns)
      (visitInsideProperties self i ns) := by
  induction h generalizing i with
  | nil => exact .of_points (List.forall_mem_nil _)
  | cons head _ apart sub₁ sub₂ ih =>
    rw [visitPropertyBindings_cons, visitInsideProperties_cons]
    exact .append (head.member hbase hclear hbind) ih apart sub₁ sub₂

end Events

end PlacedAll

end ApiTrace
