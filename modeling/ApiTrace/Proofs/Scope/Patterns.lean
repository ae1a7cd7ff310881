import ApiTrace.Proofs.Flow.Trips

/-!
# Names bound by patterns

A pattern binds the identifiers in it, at any depth and besides its default values and keys
(`Node.Binds`). What an identifier is for, `purpose` finds by going up. The two ways meet, because
every step through a pattern leaves the scopes around alone and passes on what the names are for
(`Site.isPart`): a name that a pattern in code binds is an identifier that is for what the pattern
is for (`Node.Binds.down`), and every identifier that is a parameter or a variable is bound by such
a pattern (`Node.BindsAt.exists_pattern`).
-/

namespace ApiTrace

/-- Whether a pattern binds a name. Default values and the keys of properties are no part of a
pattern. -/
inductive Node.Binds (name : Text) : Node → Prop where
  | identifier {n : Node} (hn : n.form = .identifier name) : n.Binds name
  | property {n p value : Node} {properties : List Node} {key : Option Node}
      {computed shorthand isMethod : Bool} {kind : PropertyKind}
      (hn : n.form = .objectPattern properties)
      (hp : p ∈ properties) (hform : p.form = .property key (some value) computed shorthand
        isMethod kind)
      (hvalue : value.Binds name) : n.Binds name
  | member {n p : Node} {properties : List Node} (hn : n.form = .objectPattern properties)
      (hp : p ∈ properties) (hmember : p.Binds name) : n.Binds name
  | element {n p : Node} {elements : List Node} (hn : n.form = .arrayPattern elements)
      (hp : p ∈ elements)
      (helement : p.Binds name) : n.Binds name
  | withDefault {n left : Node} {right : Option Node}
      (hn : n.form = .assignmentPattern (some left) right)
      (hleft : left.Binds name) : n.Binds name
  | rest {n argument : Node} (hn : n.form = .restElement (some argument))
      (hargument : argument.Binds name) : n.Binds name

/-! ## Children by their role -/

section Roles

variable {f : Form} {slot : Slot} {n : Node}

/-- The children of a role are the nodes of one part. -/
theorem Form.mem_nodes_of_child (h : (slot, n) ∈ f.children) {part : Part} (hpart : part ∈ f.parts)
    (hrole : part.role? = some slot.role) : n ∈ part.nodes := by
  obtain ⟨part', hpart', hrole', hn⟩ := Form.exists_part h
  have hsame : part' = part := by
    by_contra hne
    have hroles := List.pairwise_filterMap.1 f.nodup_roles
    have hsymm : Std.Symm fun p p' : Part => ∀ r, p.role? = some r →
        ∀ r', p'.role? = some r' → r ≠ r' :=
      ⟨fun p p' h r hr r' hr' => (h r' hr' r hr).symm⟩
    exact hroles.forall hpart' hpart hne _ hrole' _ hrole rfl
  rwa [← hsame]

theorem Form.eq_of_child {role : Role} {child : Option Node} (h : (slot, n) ∈ f.children)
    (hpart : .one role child ∈ f.parts) (hrole : slot.role = role) : child = some n := by
  have hn := Form.mem_nodes_of_child h hpart (by rw [hrole]; rfl)
  simpa [Part.nodes] using hn

theorem Form.mem_of_child {role : Role} {ns : List Node} (h : (slot, n) ∈ f.children)
    (hpart : .all role ns ∈ f.parts) (hrole : slot.role = role) : n ∈ ns := by
  have hn := Form.mem_nodes_of_child h hpart (by rw [hrole]; rfl)
  simpa [Part.nodes, Part.all] using hn

/-- The children of a node that has one part only are the nodes of that part. -/
theorem Form.mem_nodes_of_parts {part : Part} (h : (slot, n) ∈ f.children)
    (hparts : f.parts = [part]) :
    n ∈ part.nodes := by
  obtain ⟨part', hpart', -, hn⟩ := Form.exists_part h
  rw [hparts, List.mem_singleton] at hpart'
  rwa [← hpart']

theorem Form.child_of_one {role : Role} (hpart : .one role (some n) ∈ f.parts) :
    ((⟨role, 0⟩ : Slot), n) ∈ f.children :=
  List.mem_flatMap.2 ⟨_, hpart, List.mem_cons_self⟩

theorem Form.exists_child_of_all {role : Role} {ns : List Node} (hpart : .all role ns ∈ f.parts)
    (hn : n ∈ ns) : ∃ k, ((⟨role, k⟩ : Slot), n) ∈ f.children := by
  obtain ⟨k, hk⟩ := List.mem_iff_getElem?.1 hn
  exact ⟨k, List.mem_flatMap.2 ⟨_, hpart, Part.mem_children_of_getElem? hk⟩⟩

end Roles

/-! ## Steps through patterns -/

/-- Whether a child of a pattern is a part of the pattern. -/
def Site.isPart (s : Site) (role : Role) : Bool :=
  match s.node.form, role with
  | .objectPattern _, _ | .arrayPattern _, _ | .restElement _, _ | .assignmentPattern ..,
      .left => true
  | .property .., .value => isMember s.above
  | _, _ => false

/-- Whether the names of a pattern are parameters or variables. -/
def Purpose.isBinder : Purpose → Bool
  | .parameter .. | .declared .. => true
  | _ => false

theorem Purpose.inside_eq_iff {u v : Purpose} (hv : v.isBinder = true) : u.inside = v ↔ u = v := by
  cases v with
  | parameter | declared => cases u <;> simp [inside]
  | _ => cases hv

section Parts

variable {s : Site} {slot : Slot}

theorem purpose_of_isPart (h : s.isPart slot.role = true) :
    purpose (s.frames slot) = (purpose s.above).inside := by
  unfold Site.isPart at h
  rw [Site.frames, purpose]
  split at h <;> simp_all

theorem regions_of_isPart (h : s.isPart slot.role = true) :
    regions (s.frames slot) = regions s.above := by
  have hopens : s.opens slot.role = [] := by
    unfold Site.isPart at h
    split at h <;> simp_all [Site.opens, Site.opened]
  show s.opens slot.role ++ regions s.above = _
  rw [hopens, List.nil_append]

theorem holdsCode_of_isPart (h : s.isPart slot.role = true) : s.holdsCode slot.role = true := by
  unfold Site.isPart at h
  split at h <;> simp_all [Site.holdsCode]

theorem isMember_frames_iff :
    isMember (s.frames slot) = true ↔ ∃ properties, s.node.form = .objectPattern properties := by
  obtain ⟨⟨span, form⟩, above⟩ := s
  cases form with
  | objectPattern properties => exact iff_of_true rfl ⟨properties, rfl⟩
  | _ => exact iff_of_false Bool.false_ne_true nofun

theorem Site.down_of_code {program n : Node} (hs : s ∈ (Site.root program).code)
    (hn : (slot, n) ∈ s.node.form.children) (hholds : s.holdsCode slot.role = true) :
    s.down slot n ∈ (Site.root program).code := by
  obtain ⟨hwalk, hcode⟩ := List.mem_filter.1 hs
  have hchild : s.down slot n ∈ s.children := List.mem_map.2 ⟨(slot, n), hn, rfl⟩
  have hdown := Site.mem_walk_trans hwalk (Site.mem_walk_of_child hchild (Site.mem_walk_self _))
  exact List.mem_filter.2 ⟨hdown, Bool.and_eq_true_iff.2 ⟨hholds, hcode⟩⟩

theorem Site.child_of_mem_code {program n : Node} (hs : s.down slot n ∈ (Site.root program).code) :
    s ∈ (Site.root program).code ∧ (slot, n) ∈ s.node.form.children := by
  obtain ⟨hs, hchild⟩ := Site.parent_of_mem_code hs rfl
  obtain ⟨⟨slot', n'⟩, hmem, heq⟩ := List.mem_map.1 hchild
  cases heq
  exact ⟨hs, hmem⟩

/-- A part of a pattern is in code if the pattern is, its names are for what those of the pattern
are for, and it stands in the same scopes. -/
theorem Site.part_of_code {program n : Node} (hs : s ∈ (Site.root program).code)
    (hpart : s.isPart slot.role = true) (hn : (slot, n) ∈ s.node.form.children) {u : Purpose}
    (hu : u.isBinder = true) (hpurpose : purpose s.above = u) :
    s.down slot n ∈ (Site.root program).code ∧ purpose (s.frames slot) = u ∧
      regions (s.frames slot) = regions s.above := by
  refine ⟨Site.down_of_code hs hn (holdsCode_of_isPart hpart), ?_, regions_of_isPart hpart⟩
  rw [purpose_of_isPart hpart, Purpose.inside_eq_iff hu, hpurpose]

end Parts

/-! ## Down and up -/

section Patterns

variable {program n : Node} {name : Text} {u : Purpose}

/-- Whether a name is that of an identifier in code which is for something, inside some scopes. -/
def NamedFor (program : Node) (name : Text) (u : Purpose) (around : List Region) : Prop :=
  ∃ x ∈ (Site.root program).code, x.node.form = .identifier name ∧ purpose x.above = u ∧
    regions x.above = around

/-- A name that a pattern binds is an identifier in the pattern, for what the pattern is for. -/
theorem Node.Binds.down (h : n.Binds name) {above : List Frame}
    (hcode : (⟨n, above⟩ : Site) ∈ (Site.root program).code) (hu : u.isBinder = true)
    (hpurpose : purpose above = u) : NamedFor program name u (regions above) := by
  -- Each step down is one through a part of the pattern.
  induction h generalizing above with
  | identifier hn => exact ⟨_, hcode, hn, hpurpose, rfl⟩
  | @property n p value properties key computed shorthand isMethod kind hn hp hform _ ih =>
    have hproperties : Part.all .properties properties ∈ n.form.parts := by simp [hn, Form.parts]
    have hvalue : Part.one .value (some value) ∈ p.form.parts := by simp [hform, Form.parts]
    obtain ⟨k, hk⟩ := Form.exists_child_of_all hproperties hp
    obtain ⟨hdown, hsame, hregions⟩ :=
      Site.part_of_code hcode (by simp [Site.isPart, hn]) hk hu hpurpose
    have hmember : isMember (Site.frames ⟨n, above⟩ ⟨.properties, k⟩) = true :=
      isMember_frames_iff.2 ⟨properties, hn⟩
    obtain ⟨hdown, hsame, hregions'⟩ := Site.part_of_code hdown
      (by simpa [Site.isPart, Site.down, hform] using hmember) (Form.child_of_one hvalue) hu hsame
    exact hregions ▸ hregions' ▸ ih hdown hsame
  | @member n p properties hn hp _ ih =>
    have hproperties : Part.all .properties properties ∈ n.form.parts := by simp [hn, Form.parts]
    obtain ⟨k, hk⟩ := Form.exists_child_of_all hproperties hp
    obtain ⟨hdown, hsame, hregions⟩ :=
      Site.part_of_code hcode (by simp [Site.isPart, hn]) hk hu hpurpose
    exact hregions ▸ ih hdown hsame
  | @element n p elements hn hp _ ih =>
    have helements : Part.all .elements elements ∈ n.form.parts := by simp [hn, Form.parts]
    obtain ⟨k, hk⟩ := Form.exists_child_of_all helements hp
    obtain ⟨hdown, hsame, hregions⟩ :=
      Site.part_of_code hcode (by simp [Site.isPart, hn]) hk hu hpurpose
    exact hregions ▸ ih hdown hsame
  | @withDefault n left right hn _ ih =>
    have hleft : Part.one .left (some left) ∈ n.form.parts := by simp [hn, Form.parts]
    obtain ⟨hdown, hsame, hregions⟩ :=
      Site.part_of_code hcode (by simp [Site.isPart, hn]) (Form.child_of_one hleft) hu hpurpose
    exact hregions ▸ ih hdown hsame
  | @rest n argument hn _ ih =>
    have hargument : Part.one .argument (some argument) ∈ n.form.parts := by simp [hn, Form.parts]
    obtain ⟨hdown, hsame, hregions⟩ :=
      Site.part_of_code hcode (by simp [Site.isPart, hn]) (Form.child_of_one hargument) hu hpurpose
    exact hregions ▸ ih hdown hsame

/-- Whether what stands at a place binds a name as a part of a pattern. -/
def Node.BindsAt (n : Node) (above : List Frame) (name : Text) : Prop :=
  n.Binds name ∨ isMember above = true ∧ ∃ key value computed shorthand isMethod kind,
    n.form = .property key (some value) computed shorthand isMethod kind ∧ value.Binds name

/-- A pattern binds what its parts bind. -/
theorem Node.BindsAt.up {s : Site} {slot : Slot} (hpart : s.isPart slot.role = true)
    (hchild : (slot, n) ∈ s.node.form.children) (h : n.BindsAt (s.frames slot) name) :
    s.node.BindsAt s.above name := by
  -- Only in an object pattern may the part be a property.
  have hbinds : (∀ properties, s.node.form ≠ .objectPattern properties) → n.Binds name := by
    intro hno
    rcases h with h | ⟨hmember, -⟩
    · exact h
    · obtain ⟨properties, hform⟩ := isMember_frames_iff.1 hmember
      exact absurd hform (hno properties)
  unfold Site.isPart at hpart
  split at hpart
  · rename_i properties hform
    have hparts : s.node.form.parts = [.all .properties properties] := by rw [hform, Form.parts]
    have hmem : n ∈ properties := by
      simpa [Part.nodes, Part.all] using Form.mem_nodes_of_parts hchild hparts
    rcases h with h | ⟨-, key, value, computed, shorthand, isMethod, kind, hproperty, hvalue⟩
    · exact .inl (.member hform hmem h)
    · exact .inl (.property hform hmem hproperty hvalue)
  · rename_i elements hform
    have hparts : s.node.form.parts = [.all .elements elements] := by rw [hform, Form.parts]
    have hmem : n ∈ elements := by
      simpa [Part.nodes, Part.all] using Form.mem_nodes_of_parts hchild hparts
    exact .inl (.element hform hmem (hbinds (by simp [hform])))
  · rename_i argument hform
    have hparts : s.node.form.parts = [.one .argument argument] := by rw [hform, Form.parts]
    have hargument : argument = some n :=
      by simpa [Part.nodes] using Form.mem_nodes_of_parts hchild hparts
    exact .inl (.rest (hargument ▸ hform) (hbinds (by simp [hform])))
  · rename_i left right hform hslot
    have hleft : left = some n := Form.eq_of_child hchild (by simp [hform, Form.parts]) hslot
    exact .inl (.withDefault (hleft ▸ hform) (hbinds (by simp [hform])))
  · rename_i key value computed shorthand isMethod kind hform hslot
    have hvalue : value = some n := Form.eq_of_child hchild (by simp [hform, Form.parts]) hslot
    exact .inr ⟨hpart, key, n, computed, shorthand, isMethod, kind, hvalue ▸ hform,
      hbinds (by simp [hform])⟩
  · cases hpart

/-- A name that is bound in code is bound by a whole pattern, which is for the same and stands in
the same scopes. -/
theorem Node.BindsAt.exists_pattern {above : List Frame} (h : n.BindsAt above name)
    (hcode : (⟨n, above⟩ : Site) ∈ (Site.root program).code) (hu : u.isBinder = true)
    (hpurpose : purpose above = u) :
    ∃ s slot p, s ∈ (Site.root program).code ∧ (slot, p) ∈ s.node.form.children ∧
      s.isPart slot.role = false ∧ p.Binds name ∧ purpose (s.frames slot) = u ∧
      regions (s.frames slot) = regions above := by
  -- Up through the parts, as long as there is a pattern around.
  induction above generalizing n with
  | nil =>
    rw [← hpurpose] at hu
    cases hu
  | cons frame above ih =>
    obtain ⟨slot, parent⟩ := frame
    let s : Site := ⟨parent, above⟩
    have hcode : s.down slot n ∈ (Site.root program).code := hcode
    obtain ⟨hs, hn⟩ := Site.child_of_mem_code hcode
    cases hpart : s.isPart slot.role with
    | true =>
      have hsame : purpose above = u := by
        have hpurpose : purpose (s.frames slot) = u := hpurpose
        rwa [purpose_of_isPart hpart, Purpose.inside_eq_iff hu] at hpurpose
      have hregions : regions (⟨slot, parent⟩ :: above) = regions above := regions_of_isPart hpart
      rw [hregions]
      exact ih (h.up hpart hn) hs hsame
    | false =>
      refine ⟨s, slot, n, hs, hn, hpart, ?_, hpurpose, rfl⟩
      rcases h with h | ⟨hmember, -⟩
      · exact h
      · have hmember : isMember (s.frames slot) = true := hmember
        obtain ⟨properties, hform⟩ := isMember_frames_iff.1 hmember
        simp [Site.isPart, hform] at hpart

end Patterns

end ApiTrace
