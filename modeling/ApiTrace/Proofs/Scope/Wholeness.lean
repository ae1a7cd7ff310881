import ApiTrace.Proofs.Scope.FaithfulForms

/-!
# What a tree lacks

Scope analysis goes by the names of nodes, and a node of a form that nothing is known of can have
any name. It then lacks the parts that its name promises; and a place can need more of the node that
stands there than the node has (`Site.Lacks`). Nothing else goes wrong in reading: the events of a
node are clean exactly if nothing is lacking in it (`Node.Checked`). This module shows it of the
forms that do what their children do and of patterns.
-/

namespace ApiTrace

open ScopeEvent

/-! ## What a place lacks -/

/-- Whether the identifiers in a place are bound or written. -/
def Purpose.binds : Purpose → Bool
  | .write _ | .parameter .. | .declared .. => true
  | _ => false

theorem Purpose.inside_of_binds {u : Purpose} (h : u.binds = true) : u.inside = u := by
  cases u <;> first | rfl | cases h

/-- What a place can need of the node that stands there. -/
inductive Need where
  /-- A name to call a function or a class by. -/
  | name
  /-- A name to bind an import to. -/
  | binding
  /-- The statements of a static initializer. -/
  | statements
  | declarator
  | importSpecifier
  | exportSpecifier
  /-- The members of a class. -/
  | members
deriving DecidableEq

/-- What is needed at a place. -/
def need? : List Frame → Option Need
  | [] => none
  | ⟨slot, parent⟩ :: above =>
    match parent.form, slot.role with
    | .function .., .name | .classLike .., .name => some .name
    | .importDefault _, .binding | .importNamespace _, .binding | .importSpecifier .., .binding =>
      (import? above).map fun _ => .binding
    | .staticBlock _, .body => some .statements
    | .variableDeclaration .., _ => some .declarator
    | .importDeclaration .., _ => some .importSpecifier
    | .exportNamed none _ none, .specifiers => some .exportSpecifier
    | .classLike .., .body => some .members
    | _, _ => none

/-- Whether a node of a form has what is needed. -/
def Need.isMet (f : Form) : Need → Bool
  | .name | .binding => f.identifierName?.isSome
  | .statements =>
    match f with
    | .block _ | .program .. | .classBody _ => true
    | _ => false
  | .declarator =>
    match f with
    | .variableDeclarator .. => true
    | _ => false
  | .importSpecifier =>
    match f with
    | .importDefault _ | .importNamespace _ | .importSpecifier .. => true
    | _ => false
  | .exportSpecifier =>
    match f with
    | .exportSpecifier .. => true
    | _ => false
  | .members =>
    match f with
    | .classBody _ => true
    | _ => false

/-- A place whose node lacks something that scope analysis asks for. -/
inductive Site.Lacks (s : Site) : Prop where
  /-- The node has the name of a form with parts of its own, and not the parts. -/
  | parts {name : Text} {children : List Node} (hform : s.node.form = .other name children)
      (hname : name = Text.ofString "Identifier" ∨ name ∈ partedNames)
  /-- The node has the name of a pattern where a pattern is taken apart, and not the parts. -/
  | pattern {name : Text} {children : List Node} (hform : s.node.form = .other name children)
      (hname : name ∈ patternNames) (hplace : (purpose s.above).binds = true)
  /-- The place needs what the node does not have. -/
  | need {need : Need} (hplace : need? s.above = some need) (hform : need.isMet s.node.form = false)

/-- A tree in whose code nothing is lacking. -/
def Site.Whole (s : Site) : Prop := ∀ x ∈ s.code, ¬ x.Lacks

/-! ## Whole trees, part by part -/

theorem Site.whole_of_not_code {s : Site} (h : isCode s.above = false) : s.Whole := by
  intro x hx
  obtain ⟨hwalk, hcode⟩ := List.mem_filter.1 hx
  rw [isCode_of_suffix (Site.above_suffix_of_mem_walk hwalk) hcode] at h
  cases h

/-- Whether nothing is lacking in the children that a part holds. -/
def Part.Whole (self : Site) (p : Part) : Prop := ∀ c ∈ p.children, (self.down c.1 c.2).Whole

theorem Site.whole_iff {s : Site} (h : isCode s.above = true) :
    s.Whole ↔ ¬ s.Lacks ∧ ∀ p ∈ s.node.form.parts, p.Whole s := by
  have hcode : s.code = s :: s.children.flatMap Site.code := by
    rw [Site.code, Site.walk_eq, List.filter_cons_of_pos (by simpa using h), List.filter_flatMap]
    rfl
  have hparts : (∀ p ∈ s.node.form.parts, p.Whole s) ↔ ∀ c ∈ s.children, c.Whole := by
    simp only [Site.children, Form.children, List.forall_mem_map, List.forall_mem_flatMap]
    rfl
  rw [hparts, Site.Whole, hcode, List.forall_mem_cons, List.forall_mem_flatMap]
  rfl

theorem Site.not_whole {s : Site} (h : isCode s.above = true) (hlacks : s.Lacks) : ¬ s.Whole :=
  fun hwhole => ((Site.whole_iff h).1 hwhole).1 hlacks

section Forms

variable {span : Span} {f : Form} {above : List Frame}

/-- A node of a form that is known lacks nothing where nothing is needed. -/
theorem not_lacks (hneed : need? above = none) (hf : ∀ name children, f ≠ .other name children) :
    ¬ Site.Lacks ⟨.mk span f, above⟩ := by
  intro h
  cases h with
  | parts hform => exact hf _ _ hform
  | pattern hform => exact hf _ _ hform
  | need hplace => cases hneed.symm.trans hplace

theorem whole_iff_parts (hcode : isCode above = true) (hneed : need? above = none)
    (hf : ∀ name children, f ≠ .other name children) :
    Site.Whole ⟨.mk span f, above⟩ ↔ ∀ p ∈ f.parts, p.Whole ⟨.mk span f, above⟩ := by
  rw [Site.whole_iff (s := ⟨_, above⟩) hcode]
  exact and_iff_right (not_lacks hneed hf)

/-- A node that meets the need of its place is whole if its parts are. -/
theorem Site.whole_iff_of_isMet {s : Site} {need : Need} (hcode : isCode s.above = true)
    (hneed : need? s.above = some need) (hmet : need.isMet s.node.form = true) :
    s.Whole ↔ ∀ p ∈ s.node.form.parts, p.Whole s := by
  have hf : ∀ name children, s.node.form ≠ .other name children := by
    intro name children heq
    rw [heq] at hmet
    cases need <;> cases hmet
  rw [Site.whole_iff hcode]
  refine and_iff_right fun h => ?_
  cases h with
  | parts hform => exact hf _ _ hform
  | pattern hform => exact hf _ _ hform
  | need hplace hform =>
    cases hneed.symm.trans hplace
    cases hform.symm.trans hmet

end Forms

/-- Whether nothing is lacking in children in a row, the first one with number `i`. -/
def Site.WholeFrom (self : Site) (role : Role) (i : Nat) : List (Option Node) → Prop
  | [] => True
  | none :: os => self.WholeFrom role (i + 1) os
  | some n :: os => (self.down ⟨role, i⟩ n).Whole ∧ self.WholeFrom role (i + 1) os

section Parts

variable (self : Site) (role : Role)

theorem Site.wholeFrom_some (i : Nat) (n : Node) :
    self.WholeFrom role i [some n] ↔ (self.down ⟨role, i⟩ n).Whole := iff_of_eq (and_true _)

@[simp] theorem Part.whole_attribute (name : String) (value : Attribute) :
    (Part.attribute name value).Whole self := nofun

@[simp] theorem Part.whole_flag (name : String) (b : Bool) : (Part.flag name b).Whole self := nofun

@[simp] theorem Part.whole_text (name : String) (t : Text) : (Part.text name t).Whole self := nofun

@[simp] theorem Part.whole_one (o : Option Node) :
    (Part.one role o).Whole self ↔ self.WholeFrom role 0 [o] := by
  cases o <;> simp [Part.Whole, Part.children, Site.WholeFrom]

@[simp] theorem Part.whole_many (os : List (Option Node)) :
    (Part.many role os).Whole self ↔ self.WholeFrom role 0 os := by
  have h : ∀ i, (∀ c ∈ (os.zipIdx i).filterMap fun p => p.1.map ((⟨role, p.2⟩ : Slot), ·),
      (self.down c.1 c.2).Whole) ↔ self.WholeFrom role i os := by
    induction os with
    | nil => exact fun _ => by simp [Site.WholeFrom]
    | cons o os ih =>
      intro i
      cases o <;> simp [Site.WholeFrom, ← ih (i + 1)]
  exact h 0

@[simp] theorem Part.whole_all (ns : List Node) :
    (Part.all role ns).Whole self ↔ self.WholeFrom role 0 (ns.map some) :=
  Part.whole_many self role _

theorem Site.wholeFrom_of_not_code (h : self.holdsCode role = false) (i : Nat)
    (os : List (Option Node)) : self.WholeFrom role i os := by
  induction os generalizing i with
  | nil => trivial
  | cons o os ih =>
    cases o with
    | none => exact ih (i + 1)
    | some n =>
      have hcode : isCode (self.frames ⟨role, i⟩) = false := by
        simp [Site.frames, isCode, h]
      exact ⟨Site.whole_of_not_code hcode, ih (i + 1)⟩

end Parts

/-! ## Nodes that are checked by reading them -/

/-- Whether a node at a place is read for itself, where nothing is needed of it and where it is not
taken apart as a pattern. -/
structure Visited (n : Node) (above : List Frame) : Prop where
  ordinary : Ordinary n above
  need : need? above = none
  pattern : (purpose above).binds = true → ∀ name children, n.form = .other name children →
    name ∉ patternNames

/-- A node whose events are clean exactly if nothing is lacking in it, if it is read for itself and
if it is read as a pattern. -/
structure Node.Checked (n : Node) : Prop where
  visit : ∀ {above}, isCode above = true → Visited n above →
    (Clean (visit above n) ↔ Site.Whole ⟨n, above⟩)
  pattern : ∀ {above}, isCode above = true → (purpose above).binds = true → need? above = none →
    (n.form.isPattern = false → Ordinary n above) →
    (Clean (visitBindings above (purpose above).binding n) ∧ Clean (visitInside above n) ↔
      Site.Whole ⟨n, above⟩)

theorem visited_of_read {n : Node} {frame : Frame} {above : List Frame} (hf : frame.isPlain = true)
    (hread : purpose (frame :: above) = .read) (hneed : need? (frame :: above) = none) :
    Visited n (frame :: above) where
  ordinary := ordinary_of_read hf hread
  need := hneed
  pattern hbinds := by
    rw [hread] at hbinds
    cases hbinds

section Children

variable (self : Site) (role : Role)

theorem checked_gaps {os : List (Option Node)} {i : Nat} (hcode : isCode self.above = true)
    (hholds : self.holdsCode role = true) (hchecked : ∀ n, some n ∈ os → n.Checked)
    (hvisited : ∀ i n, some n ∈ os → Visited n (self.frames ⟨role, i⟩)) :
    Clean (visitGaps self role i os) ↔ self.WholeFrom role i os := by
  induction os generalizing i with
  | nil => exact ⟨fun _ => trivial, fun _ => nofun⟩
  | cons o os ih =>
    have hrest := @ih (i + 1) (fun n hn => hchecked n (.tail _ hn))
      (fun i n hn => hvisited i n (.tail _ hn))
    cases o with
    | none => exact hrest
    | some n =>
      have hfirst := (hchecked n (.head _)).visit ((isCode_frames role hcode i).trans hholds)
        (hvisited i n (.head _))
      rw [visitGaps, clean_append, hfirst, hrest]
      rfl

theorem checked_all {ns : List Node} {i : Nat} (hcode : isCode self.above = true)
    (hholds : self.holdsCode role = true) (hchecked : ∀ n ∈ ns, n.Checked)
    (hvisited : ∀ i, ∀ n ∈ ns, Visited n (self.frames ⟨role, i⟩)) :
    Clean (visitAll self role i ns) ↔ self.WholeFrom role i (ns.map some) := by
  rw [visitAll_eq_gaps]
  exact checked_gaps self role hcode hholds (by simpa using hchecked) (by simpa using hvisited)

theorem checked_one {o : Option Node} (hcode : isCode self.above = true)
    (hholds : self.holdsCode role = true) (hchecked : ∀ n, o = some n → n.Checked)
    (hvisited : ∀ n, o = some n → Visited n (self.frames ⟨role, 0⟩)) :
    Clean (visitOne self role o) ↔ self.WholeFrom role 0 [o] := by
  cases o with
  | none => exact ⟨fun _ => trivial, fun _ => nofun⟩
  | some n =>
    rw [Site.wholeFrom_some]
    exact (hchecked n rfl).visit ((isCode_frames role hcode 0).trans hholds) (hvisited n rfl)

/-- An optional pattern in a place that binds or writes its names. -/
theorem checked_pattern {o : Option Node} {bind : Site → List ScopeEvent}
    (hbind : bind = (purpose (self.frames ⟨role, 0⟩)).binding)
    (hchecked : ∀ n, o = some n → n.Checked) (hcode : isCode self.above = true)
    (hholds : self.holdsCode role = true)
    (hbinds : (purpose (self.frames ⟨role, 0⟩)).binds = true)
    (hneed : need? (self.frames ⟨role, 0⟩) = none)
    (hordinary : ∀ n, o = some n → n.form.isPattern = false → Ordinary n (self.frames ⟨role, 0⟩)) :
    Clean (visitPattern self role bind o) ↔ self.WholeFrom role 0 [o] := by
  subst hbind
  cases o with
  | none => exact ⟨fun _ => trivial, fun _ => nofun⟩
  | some n =>
    rw [Site.wholeFrom_some, visitPattern, clean_append]
    exact (hchecked n rfl).pattern ((isCode_frames role hcode 0).trans hholds) hbinds hneed
      (hordinary n rfl)

end Children

/-! ## Forms that do what their children do -/

section Transparent

variable {f : Form} {span : Span} {above : List Frame}

theorem need?_of_transparent (hf : f.isTransparent = true) (hordinary : Ordinary (.mk span f) above)
    {slot : Slot} (hcode : Site.holdsCode ⟨.mk span f, above⟩ slot.role = true) :
    need? (Site.frames ⟨.mk span f, above⟩ slot) = none := by
  obtain ⟨role, i⟩ := slot
  cases f with
  | exportNamed declaration specifiers source =>
    obtain _ | declaration := declaration <;> obtain _ | source := source
    · cases hf
    all_goals cases role <;> rfl
  | importDefault | importNamespace | importSpecifier =>
    have hnone : import? above = none := hordinary
    cases role <;> first | rfl | simp [need?, Site.frames, Node.form, hnone]
  | function | arrowFunction | staticBlock | classLike | forEach | variableDeclaration
  | importDeclaration => cases hf
  | _ => cases role <;> rfl

theorem clean_parts (self : Site) {ps : List Part} (hcode : isCode self.above = true)
    (hchild : ∀ slot n, (slot, n) ∈ ps.flatMap Part.children → self.holdsCode slot.role = true →
      n.Checked ∧ Visited n (self.frames slot)) :
    Clean (ps.flatMap (·.visitCode self)) ↔ ∀ p ∈ ps, p.Whole self := by
  have hone : ∀ slot n, (slot, n) ∈ ps.flatMap Part.children →
      (Clean (self.visitChild slot n) ↔ (self.down slot n).Whole) := by
    intro slot n hmem
    have hframes := isCode_frames slot.role hcode slot.index
    unfold Site.visitChild
    split
    · rename_i hholds
      obtain ⟨hchecked, hvisited⟩ := hchild slot n hmem hholds
      exact hchecked.visit (hframes.trans hholds) hvisited
    · rename_i hholds
      refine iff_of_true nofun (Site.whole_of_not_code ?_)
      exact hframes.trans (Bool.eq_false_iff.2 hholds)
  have hclean : Clean (ps.flatMap (·.visitCode self)) ↔
      ∀ p ∈ ps, ∀ c ∈ p.children, Clean (self.visitChild c.1 c.2) := by
    simp only [Clean, List.forall_mem_flatMap, Part.visitCode]
  rw [hclean]
  refine forall₂_congr fun p hp => forall₂_congr fun c hc => ?_
  exact hone c.1 c.2 (List.mem_flatMap.2 ⟨p, hp, hc⟩)

/-- A node of a form that opens no scope and does what its children do. -/
theorem checked_transparent (hf : f.isTransparent = true)
    (h : ∀ slot n, (slot, n) ∈ f.children → n.Checked) (hcode : isCode above = true)
    (hvisited : Visited (.mk span f) above) :
    Clean (visit above (.mk span f)) ↔ ∀ p ∈ f.parts, p.Whole ⟨.mk span f, above⟩ := by
  rw [visit, visitForm_eq_code hf hvisited.ordinary]
  refine clean_parts ⟨_, above⟩ hcode fun slot n hmem hholds => ?_
  refine ⟨h slot n hmem, visited_of_read ?_ ?_ ?_⟩
  · exact isPlain_of_transparent hf hholds
  · exact purpose_of_transparent hf hvisited.ordinary slot
  · exact need?_of_transparent hf hvisited.ordinary hholds

end Transparent

/-! ## Names and patterns -/

section Patterns

variable {f : Form} {span : Span} {above : List Frame}

theorem clean_nil : Clean [] := nofun

/-- What has a name can be bound. -/
theorem Purpose.clean_binding {u : Purpose} (hu : u.binds = true) {x : Site}
    (hx : x.name?.isSome = true) : Clean (u.binding x) := by
  intro e he
  cases u with
  | write value =>
    obtain rfl := List.mem_singleton.1 he
    exact hx
  | parameter kind owner =>
    obtain rfl := List.mem_singleton.1 he
    rw [defining_eq hx]
    rfl
  | declared declarator declaration =>
    rcases List.mem_cons.1 he with rfl | he
    · rw [defining_eq hx]
      rfl
    · split at he
      · obtain rfl := List.mem_singleton.1 he
        exact hx
      · cases he
  | read | update | imported | functionName | className => cases hu

theorem whole_identifier (hcode : isCode above = true) (hneed : need? above = none) (name : Text) :
    Site.Whole ⟨.mk span (.identifier name), above⟩ := by
  have hwhole : Site.Whole ⟨.mk span (.identifier name), above⟩ ↔ _ :=
    whole_iff_parts hcode hneed nofun
  rw [hwhole]
  simp [Form.parts]

theorem Node.Checked.identifier (name : Text) : (Node.mk span (.identifier name)).Checked where
  visit {above} hcode hvisited := by
    refine iff_of_true ?_ (whole_identifier hcode hvisited.need name)
    exact clean_cons.2 ⟨rfl, clean_nil⟩
  pattern {above} hcode hbinds hneed _ := by
    refine iff_of_true ⟨?_, clean_nil⟩ (whole_identifier hcode hneed name)
    exact Purpose.clean_binding hbinds rfl

/-- What is no pattern binds nothing and is read for itself. -/
theorem Node.Checked.of_visit (hf : f.isPattern = false)
    (h : ∀ {above}, isCode above = true → Visited (.mk span f) above →
      (Clean (ScopeEvent.visit above (.mk span f)) ↔ Site.Whole ⟨.mk span f, above⟩)) :
    (Node.mk span f).Checked where
  visit := h
  pattern := by
    intro above hcode _ hneed hordinary
    rw [visitBindings_of_not_pattern hf, visitInside_of_not_pattern hf]
    refine (and_iff_right nofun).trans
      (h hcode ⟨hordinary hf, hneed, fun _ name children hform => ?_⟩)
    obtain rfl : f = .other name children := hform
    cases hf

/-- A node that is called a property is one, or it is of a form that nothing is known of. -/
theorem Form.eq_other_of_name (h : f.name = Text.ofString "Property")
    (hf : ∀ key value computed shorthand isMethod kind,
      f ≠ .property key value computed shorthand isMethod kind) :
    ∃ children, f = .other (Text.ofString "Property") children := by
  cases f with
  | other name children =>
    obtain rfl : name = Text.ofString "Property" := h
    exact ⟨children, rfl⟩
  | property => exact absurd rfl (hf _ _ _ _ _ _)
  | forEach iteration => cases iteration <;> exact absurd h (by simp [name, Text.ofString_inj])
  | function placement | classLike placement =>
    cases placement <;> exact absurd h (by simp [name, Text.ofString_inj])
  | jump kind => cases kind <;> exact absurd h (by simp [name, Text.ofString_inj])
  | binary left operator right =>
    simp only [name] at h
    split at h <;> exact absurd h (by simp [Text.ofString_inj])
  | _ => exact absurd h (by simp [name, Text.ofString_inj])

/-- A pattern in the place of a part of a pattern. -/
theorem Node.Checked.step {n : Node} {frame : Frame} (h : n.Checked)
    (hcode : isCode (frame :: above) = true) (hplain : frame.isPlain = true)
    (hu : purpose (frame :: above) = (purpose above).inside)
    (hbinds : (purpose above).inside.binds = true) (hneed : need? (frame :: above) = none)
    (hmember : ∀ key value computed shorthand isMethod kind,
      n.form = .property key value computed shorthand isMethod kind → isMember
          (frame :: above) = false) :
    Clean (visitBindings (frame :: above) (purpose above).inside.binding n) ∧
      Clean (visitInside (frame :: above) n) ↔ Site.Whole ⟨n, frame :: above⟩ := by
  rw [← hu] at hbinds ⊢
  have hidem := Purpose.inside_of_binds hbinds
  exact h.pattern hcode hbinds hneed (ordinary_of_bound hplain hidem hmember)

end Patterns

section Smaller

variable {span : Span} {above : List Frame} {k : Nat} (h : ∀ m : Node, sizeOf m < k → m.Checked)

include h

theorem checked_elements {elements ns : List Node} (hcode : isCode above = true)
    (hbinds : (purpose above).inside.binds = true) (hns : sizeOf ns ≤ k) {i : Nat} :
    let self : Site := ⟨.mk span (.arrayPattern elements), above⟩
    Clean (visitElementBindings self (purpose above).inside.binding i ns) ∧
      Clean (visitInsideElements self i ns) ↔ self.WholeFrom .elements i (ns.map some) := by
  intro self
  induction ns generalizing i with
  | nil => exact iff_of_true ⟨nofun, nofun⟩ trivial
  | cons n ns ih =>
    simp only [List.cons.sizeOf_spec] at hns
    have hframes : isCode (self.frames ⟨.elements, i⟩) = true :=
      (isCode_frames .elements hcode i).trans rfl
    have hfirst := (h n (by omega)).step hframes rfl rfl hbinds rfl (fun _ _ _ _ _ _ _ => rfl)
    rw [visitElementBindings, visitInsideElements, clean_append, clean_append, and_and_and_comm,
      ih (by omega)]
    exact and_congr_left' hfirst

/-- An optional part of a pattern that is a pattern itself. -/
theorem checked_onePattern (self : Site) (role : Role) {o : Option Node} (ho : sizeOf o ≤ k)
    (hcode : isCode (self.frames ⟨role, 0⟩) = true)
    (hplain : Frame.isPlain ⟨⟨role, 0⟩, self.node⟩ = true)
    (hself : isMember (self.frames ⟨role, 0⟩) = false)
    (hu : purpose (self.frames ⟨role, 0⟩) = (purpose self.above).inside)
    (hbinds : (purpose self.above).inside.binds = true)
    (hneed : need? (self.frames ⟨role, 0⟩) = none) :
    Clean (visitOneBinding self role (purpose self.above).inside.binding o) ∧
      Clean (visitInsideOne self role o) ↔ self.WholeFrom role 0 [o] := by
  cases o with
  | none => exact iff_of_true ⟨nofun, nofun⟩ trivial
  | some n =>
    have hn : sizeOf n < k := by
      simp only [Option.some.sizeOf_spec] at ho
      omega
    rw [Site.wholeFrom_some]
    exact (h n hn).step hcode hplain hu hbinds hneed (fun _ _ _ _ _ _ _ => hself)

/-- A member of an object pattern. -/
theorem checked_member {properties : List Node} {n : Node} (hcode : isCode above = true)
    (hbinds : (purpose above).inside.binds = true) (hn : sizeOf n < k) {i : Nat} :
    let self : Site := ⟨.mk span (.objectPattern properties), above⟩
    Clean (visitPropertyBindings self (purpose above).inside.binding i [n]) ∧
      Clean (visitInsideProperties self i [n]) ↔ (self.down ⟨.properties, i⟩ n).Whole := by
  intro self
  have hframes : isCode (self.frames ⟨.properties, i⟩) = true :=
    (isCode_frames .properties hcode i).trans rfl
  obtain ⟨nSpan, form⟩ := n
  by_cases hform : ∃ key value computed shorthand isMethod kind,
      form = .property key value computed shorthand isMethod kind
  · obtain ⟨key, value, computed, shorthand, isMethod, kind, rfl⟩ := hform
    let property := self.down ⟨.properties, i⟩
      (.mk nSpan (.property key value computed shorthand isMethod kind))
    have hu : (purpose property.above).inside = (purpose above).inside :=
      (purpose above).inside_inside
    have hwhole : property.Whole ↔
        property.WholeFrom .key 0 [key] ∧ property.WholeFrom .value 0 [value] := by
      rw [show property.Whole ↔
        _ from whole_iff_parts hframes rfl (by intro _ _ hform; cases hform)]
      simp [Form.parts, property, Site.down]
    -- A key is an expression if it is computed and no code otherwise.
    have hkey : Clean (if computed then visitOne property .key key else []) ↔
        property.WholeFrom .key 0 [key] := by
      cases computed with
      | true =>
        refine checked_one property .key hframes rfl (holds_of_eq_some h ?_) fun n _ => ?_
        · simp at hn
          omega
        · exact visited_of_read rfl rfl rfl
      | false => exact iff_of_true clean_nil (property.wholeFrom_of_not_code .key rfl 0 _)
    have hvalue := checked_onePattern h property .value (o := value) (by simp at hn; omega)
      ((isCode_frames .value hframes 0).trans rfl) rfl rfl rfl (by rw [hu]; exact hbinds) rfl
    rw [hu] at hvalue
    simp only [visitPropertyBindings, visitInsideProperties, List.append_nil, clean_append]
    rw [show (self.down ⟨.properties, i⟩ _).Whole ↔ _ from hwhole, ← hkey, ← hvalue]
    exact and_left_comm
  · have hother : ∀ key value computed shorthand isMethod kind,
        form ≠ .property key value computed shorthand isMethod kind :=
      fun _ _ _ _ _ _ heq => hform ⟨_, _, _, _, _, _, heq⟩
    rw [visitPropertyBindings_of_not_property hother, visitInsideProperties_of_not_property hother]
    by_cases hkind : (Node.mk nSpan form).kind = Text.ofString "Property"
    · obtain ⟨children, rfl⟩ := Form.eq_other_of_name hkind hother
      rw [if_pos hkind]
      refine iff_of_false (fun hclean => not_clean_fault _ hclean.1) (Site.not_whole hframes ?_)
      exact .parts rfl (.inr (by decide))
    · rw [if_neg hkind, if_neg hkind]
      exact (h _ hn).step hframes rfl rfl hbinds rfl
        (fun _ _ _ _ _ _ heq => absurd heq (hother _ _ _ _ _ _))

theorem checked_properties {properties ns : List Node} (hcode : isCode above = true)
    (hbinds : (purpose above).inside.binds = true) (hns : sizeOf ns ≤ k) {i : Nat} :
    let self : Site := ⟨.mk span (.objectPattern properties), above⟩
    Clean (visitPropertyBindings self (purpose above).inside.binding i ns) ∧
      Clean (visitInsideProperties self i ns) ↔ self.WholeFrom .properties i (ns.map some) := by
  intro self
  induction ns generalizing i with
  | nil => exact iff_of_true ⟨clean_nil, clean_nil⟩ trivial
  | cons n ns ih =>
    simp only [List.cons.sizeOf_spec] at hns
    have hfirst : Clean (visitPropertyBindings self (purpose above).inside.binding i [n]) ∧
        Clean (visitInsideProperties self i [n]) ↔ (self.down ⟨.properties, i⟩ n).Whole :=
      checked_member h hcode hbinds (by omega)
    rw [visitPropertyBindings_cons, visitInsideProperties_cons, clean_append, clean_append,
      and_and_and_comm, ih (by omega)]
    exact and_congr_left' hfirst

end Smaller

section PatternForms

variable {span : Span} {f : Form}

/-- A node of a form that does what its children do is checked if it is so as a pattern. -/
theorem Node.Checked.of_pattern (hf : f.isTransparent = true)
    (hknown : ∀ name children, f ≠ .other name children)
    (h : ∀ m : Node, sizeOf m < sizeOf f → m.Checked)
    (hpattern : ∀ {above}, isCode above = true → (purpose above).inside.binds = true →
      (Clean (visitBindings above (purpose above).inside.binding (.mk span f)) ∧
          Clean (visitInside above (.mk span f)) ↔
        ∀ p ∈ f.parts, p.Whole ⟨.mk span f, above⟩)) :
    (Node.mk span f).Checked where
  visit hcode hvisited := by
    rw [whole_iff_parts hcode hvisited.need hknown]
    exact checked_transparent hf (fun _ n hmem => h n (Form.sizeOf_child_lt hmem)) hcode hvisited
  pattern {above} hcode hbinds hneed _ := by
    have hu := Purpose.inside_of_binds hbinds
    have hboth := hpattern hcode (by rw [hu]; exact hbinds)
    rw [hu] at hboth
    rw [whole_iff_parts hcode hneed hknown]
    exact hboth

theorem Node.Checked.arrayPattern {elements : List Node}
    (h : ∀ m : Node, sizeOf m < sizeOf (Form.arrayPattern elements) → m.Checked) :
    (Node.mk span (.arrayPattern elements)).Checked := by
  refine .of_pattern rfl nofun h fun {above} hcode hbinds => ?_
  simp only [visitBindings, visitInside]
  refine Iff.trans (checked_elements h hcode hbinds (by simp)) ?_
  simp [Form.parts]

theorem Node.Checked.objectPattern {properties : List Node}
    (h : ∀ m : Node, sizeOf m < sizeOf (Form.objectPattern properties) → m.Checked) :
    (Node.mk span (.objectPattern properties)).Checked := by
  refine .of_pattern rfl nofun h fun {above} hcode hbinds => ?_
  simp only [visitBindings, visitInside]
  refine Iff.trans (checked_properties h hcode hbinds (by simp)) ?_
  simp [Form.parts]

theorem Node.Checked.restElement {argument : Option Node}
    (h : ∀ m : Node, sizeOf m < sizeOf (Form.restElement argument) → m.Checked) :
    (Node.mk span (.restElement argument)).Checked := by
  refine .of_pattern rfl nofun h fun {above} hcode hbinds => ?_
  let self : Site := ⟨.mk span (.restElement argument), above⟩
  have hboth := checked_onePattern h self .argument (o := argument) (by simp)
    ((isCode_frames .argument hcode 0).trans rfl) rfl rfl rfl hbinds rfl
  simp only [visitBindings, visitInside]
  rw [show Clean (visitOneBinding _ .argument _ argument) ∧ _ ↔ _ from hboth]
  simp [Form.parts, self]

theorem Node.Checked.assignmentPattern {left right : Option Node}
    (h : ∀ m : Node, sizeOf m < sizeOf (Form.assignmentPattern left right) → m.Checked) :
    (Node.mk span (.assignmentPattern left right)).Checked := by
  refine .of_pattern rfl nofun h fun {above} hcode hbinds => ?_
  let self : Site := ⟨.mk span (.assignmentPattern left right), above⟩
  have hleft := checked_onePattern h self .left (o := left) (by simp; omega)
    ((isCode_frames .left hcode 0).trans rfl) rfl rfl rfl hbinds rfl
  have hright : Clean (visitOne self .right right) ↔ self.WholeFrom .right 0 [right] :=
    checked_one self .right hcode rfl (holds_of_eq_some h (by simp))
      (fun n _ => visited_of_read rfl rfl rfl)
  simp only [visitBindings, visitInside, clean_append, ← and_assoc]
  rw [show Clean (visitOneBinding _ .left _ left) ∧ _ ↔ _ from hleft, hright]
  simp [Form.parts, self]

theorem Node.Checked.other {name : Text} {children : List Node}
    (h : ∀ m : Node, sizeOf m < sizeOf (Form.other name children) → m.Checked) :
    (Node.mk span (.other name children)).Checked := by
  have hlacking : ∀ {above}, isCode above = true →
      (Form.other name children).isTransparent = false →
      ¬ Site.Whole ⟨.mk span (.other name children), above⟩ := by
    intro above hcode hf
    refine Site.not_whole hcode (.parts rfl ?_)
    simpa [Form.isTransparent, imp_iff_not_or] using hf
  have hvisit : ∀ {above}, isCode above = true → Visited (.mk span (.other name children)) above →
      (Clean (ScopeEvent.visit above (.mk span (.other name children))) ↔
        Site.Whole ⟨.mk span (.other name children), above⟩) := by
    intro above hcode hvisited
    cases hf : (Form.other name children).isTransparent with
    | true =>
      have hnot : ¬ Site.Lacks ⟨.mk span (.other name children), above⟩ := by
        intro hlacks
        cases hlacks with
        | parts hform hname =>
          cases hform
          simp [Form.isTransparent] at hf
          tauto
        | pattern hform hname hplace =>
          cases hform
          exact hvisited.pattern hplace _ _ rfl hname
        | need hplace => cases hvisited.need.symm.trans hplace
      rw [Site.whole_iff (s := ⟨_, above⟩) hcode, and_iff_right hnot]
      exact checked_transparent hf (fun _ n hmem => h n (Form.sizeOf_child_lt hmem)) hcode hvisited
    | false => exact iff_of_false (not_transparent_other hf) (hlacking hcode hf)
  refine ⟨hvisit, ?_⟩
  intro above hcode hbinds hneed _
  simp only [visitBindings, visitInside]
  by_cases hname : name = Text.ofString "Identifier"
  · refine iff_of_false (fun hclean => ?_) (hlacking hcode (by simp [Form.isTransparent, hname]))
    rw [if_pos hname] at hclean
    exact Purpose.not_clean_binding _ rfl hclean.1
  · by_cases hpattern : name ∈ patternNames
    · refine iff_of_false (fun hclean => ?_) (Site.not_whole hcode (.pattern rfl hpattern hbinds))
      rw [if_neg hname, if_pos hpattern] at hclean
      exact not_clean_fault _ hclean.1
    · simp only [hname, hpattern, if_false, or_self]
      refine (and_iff_right clean_nil).trans (hvisit hcode ⟨trivial, hneed, fun _ _ _ hform => ?_⟩)
      cases hform
      exact hpattern

end PatternForms

end ApiTrace
