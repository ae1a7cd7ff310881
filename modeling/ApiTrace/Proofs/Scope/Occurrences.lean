import ApiTrace.Proofs.Scope.Records

/-!
# Nothing is said twice

No two places of a tree have the same path (`Site.nodup_paths`), since no two children of a node
hang in the same slot. A place mentions at most itself and opens scopes that stand in it, so in the
code of a tree no identifier is mentioned twice (`Site.nodup_mentions`) and no two scopes stand in
the same place (`Site.nodup_regions`).
-/

namespace ApiTrace

/-! ## Paths -/

theorem Part.nodup_slots (p : Part) : (p.children.map Prod.fst).Nodup := by
  match p with
  | .attribute .. => exact List.nodup_nil
  | .one role child => cases child <;> simp [Part.children]
  | .many role children =>
    have hslots : (Part.many role children).children.map Prod.fst =
        children.zipIdx.filterMap fun p => p.1.map fun _ => (⟨role, p.2⟩ : Slot) := by
      simp only [Part.children, List.map_filterMap, Option.map_map]
      rfl
    rw [hslots, List.Nodup, List.pairwise_filterMap]
    have hindices : (children.zipIdx.map Prod.snd).Nodup := by
      rw [List.zipIdx_map_snd]
      exact List.nodup_range'
    refine (List.pairwise_map.1 hindices).imp ?_
    rintro ⟨child, i⟩ ⟨child', j⟩ hij slot hslot slot' hslot' rfl
    obtain ⟨-, -, rfl⟩ := Option.map_eq_some_iff.1 hslot
    obtain ⟨-, -, heq⟩ := Option.map_eq_some_iff.1 hslot'
    exact hij (congrArg Slot.index heq).symm

theorem Form.nodup_roles (f : Form) : (f.parts.filterMap Part.role?).Nodup := by
  cases f with
  | literal value raw => cases value <;> exact List.nodup_nil
  | _ => simp [Form.parts, Part.role?, Part.all, Part.flag, Part.text, List.filterMap_cons]

theorem Form.nodup_slots (f : Form) : (f.children.map Prod.fst).Nodup := by
  rw [Form.children, List.map_flatMap, List.nodup_flatMap]
  refine ⟨fun p _ => p.nodup_slots, ?_⟩
  refine (List.pairwise_filterMap.1 f.nodup_roles).imp ?_
  intro p p' hroles slot hslot hslot'
  exact hroles _ (Part.role?_of_mem_children hslot) _ (Part.role?_of_mem_children hslot') rfl

theorem Site.path_suffix_of_mem_walk {s x : Site} (h : x ∈ s.walk) : s.path <:+ x.path :=
  (Site.above_suffix_of_mem_walk h).map Frame.slot

/-- The walks from two children of a node have no path in common. -/
theorem Site.disjoint_paths {s : Site} {slot slot' : Slot} (hne : slot ≠ slot') (n n' : Node) :
    ((s.down slot n).walk.map Site.path).Disjoint ((s.down slot' n').walk.map Site.path) := by
  intro path hpath hpath'
  obtain ⟨x, hx, rfl⟩ := List.mem_map.1 hpath
  obtain ⟨y, hy, heq⟩ := List.mem_map.1 hpath'
  have hsuffix : (slot :: s.path) <:+ x.path := Site.path_suffix_of_mem_walk hx
  have hsuffix' : (slot' :: s.path) <:+ x.path := heq ▸ Site.path_suffix_of_mem_walk hy
  have hsame : slot :: s.path = slot' :: s.path :=
    (List.suffix_of_suffix_length_le hsuffix hsuffix' (Nat.le_refl _)).eq_of_length rfl
  exact hne (List.cons.inj hsame).1

/-- No two places of a tree have the same path. -/
theorem Site.nodup_paths (s : Site) : (s.walk.map Site.path).Nodup := by
  induction s using Site.preorder.induct with
  | case1 s ih =>
    rw [Site.walk_eq, List.map_cons, List.nodup_cons]
    constructor
    -- The path of the node is shorter than those of the places below it.
    · intro hmem
      obtain ⟨x, hx, heq⟩ := List.mem_map.1 hmem
      obtain ⟨c, hc, hx⟩ := List.mem_flatMap.1 hx
      obtain ⟨⟨slot, n⟩, -, rfl⟩ := List.mem_map.1 hc
      have hlength := (Site.path_suffix_of_mem_walk hx).length_le
      rw [heq] at hlength
      simp only [Site.path, Site.down, Site.frames, List.length_map, List.length_cons] at hlength
      omega
    · rw [List.map_flatMap, List.nodup_flatMap]
      refine ⟨fun c hc => ih c hc, ?_⟩
      rw [Site.children, List.pairwise_map]
      refine (List.pairwise_map.1 s.node.form.nodup_slots).imp ?_
      intro child child' hne
      exact Site.disjoint_paths hne child.2 child'.2

theorem Site.nodup_code (s : Site) : (s.code.map Site.path).Nodup :=
  s.nodup_paths.sublist (List.filter_sublist.map _)

/-! ## What a place says -/

section Sayings

variable {around : List Region} {x : Site}

theorem regions_enters (around opened : List Region) :
    (enters around opened).filterMap (·.2.region?) = opened.reverse := by
  induction opened with
  | nil => rfl
  | cons inner outer ih =>
    rw [enters, List.filterMap_append, ih, List.reverse_cons]
    rfl

theorem mem_enters {opened : List Region} {s : Saying} (h : s ∈ enters around opened) :
    ∃ R ∈ opened, s.2 = .enter R.kind R.block := by
  induction opened with
  | nil => cases h
  | cons inner outer ih =>
    rcases List.mem_append.1 h with h | h
    · obtain ⟨R, hR, heq⟩ := ih h
      exact ⟨R, .tail _ hR, heq⟩
    · rw [List.mem_singleton.1 h]
      exact ⟨inner, .head _, rfl⟩

/-- An identifier mentions itself or is the name in a definition. -/
theorem Purpose.mem_sayings {u : Purpose} {s : Saying} (h : s ∈ u.sayings around x) :
    (∃ m, s = (around, .mention m) ∧ m.identifier = x ∧ u.isName = false) ∨
      ∃ target d, s.2 = .define target d ∧ d.name = x := by
  cases u with
  | read | update | write =>
    rw [List.mem_singleton.1 h]
    exact .inl ⟨_, rfl, rfl, rfl⟩
  | parameter | imported | functionName =>
    rw [List.mem_singleton.1 h]
    exact .inr ⟨_, _, rfl, rfl⟩
  | declared declarator declaration =>
    rcases List.mem_cons.1 h with rfl | h
    · exact .inr ⟨_, _, rfl, rfl⟩
    · split at h
      · rw [List.mem_singleton.1 h]
        exact .inl ⟨_, rfl, rfl, rfl⟩
      · cases h
  | className placement owner =>
    rcases List.mem_append.1 h with h | h
    · split at h
      · rw [List.mem_singleton.1 h]
        exact .inr ⟨_, _, rfl, rfl⟩
      · cases h
    · rw [List.mem_singleton.1 h]
      exact .inr ⟨_, _, rfl, rfl⟩

/-- An identifier mentions itself once at most. -/
theorem Purpose.mentions_sublist (u : Purpose) :
    (((u.sayings around x).filterMap (·.2.mention?)).map Mention.identifier).Sublist [x] := by
  cases u with
  | declared | className =>
    simp only [sayings]
    split <;> simp [ScopeEvent.mention?]
  | _ => simp [sayings, ScopeEvent.mention?]

/-- Whether a node is a function other than an arrow function. -/
def Node.isFunction (n : Node) : Bool :=
  match n.form with
  | .function .. => true
  | _ => false

/-- What a place says besides opening scopes. -/
theorem Site.sayings_cases (x : Site) :
    ∃ own, x.sayings = enters (regions x.above) x.opened ++ own ∧
    (own = [] ∨
      (own = (purpose x.above).sayings (regions x.above) x ∧
        (x.node.isIdentifier = true ∨ (purpose x.above).isName = true)) ∨
      (own = [(x.opened ++ regions x.above, .implicit "arguments")] ∧
        x.node.isFunction = true)) := by
  refine ⟨_, rfl, ?_⟩
  split
  · rename_i hform
    exact .inr (.inl ⟨rfl, .inl (by rw [Node.isIdentifier, hform])⟩)
  · split
    · rename_i hname
      exact .inr (.inl ⟨rfl, .inr hname⟩)
    · exact .inl rfl
  · split
    · rename_i hname
      exact .inr (.inl ⟨rfl, .inr hname⟩)
    · exact .inl rfl
  · rename_i hform
    exact .inr (.inr ⟨rfl, by rw [Node.isFunction, hform]⟩)
  · exact .inl rfl

/-- What a place can say: it opens a scope, mentions itself, is the name in a definition, or is a
function that has `arguments`. -/
theorem Site.mem_sayings {s : Saying} (h : s ∈ x.sayings) :
    (∃ R ∈ x.opened, s.2 = .enter R.kind R.block) ∨
      (∃ m, s = (regions x.above, .mention m) ∧ m.identifier = x ∧ x.node.isIdentifier = true) ∨
      (∃ target d, s.2 = .define target d ∧ d.name = x) ∨
      (s = (x.opened ++ regions x.above, .implicit "arguments") ∧ x.node.isFunction = true) := by
  obtain ⟨own, heq, hown⟩ := x.sayings_cases
  rw [heq] at h
  rcases List.mem_append.1 h with h | h
  · exact .inl (mem_enters h)
  · rcases hown with rfl | ⟨rfl, hname⟩ | ⟨rfl, hfunction⟩
    · cases h
    · rcases Purpose.mem_sayings h with ⟨m, hs, hm, hread⟩ | hdefine
      · rw [hread] at hname
        exact .inr (.inl ⟨m, hs, hm, hname.resolve_right nofun⟩)
      · exact .inr (.inr (.inl hdefine))
    · exact .inr (.inr (.inr ⟨List.mem_singleton.1 h, hfunction⟩))

theorem Site.regions_sayings (x : Site) : x.sayings.filterMap (·.2.region?) = x.opened.reverse := by
  obtain ⟨own, heq, hown⟩ := x.sayings_cases
  have hnone : own.filterMap (·.2.region?) = [] := by
    rw [List.filterMap_eq_nil_iff]
    intro s hs
    rcases hown with rfl | ⟨rfl, -⟩ | ⟨rfl, -⟩
    · cases hs
    · rcases Purpose.mem_sayings hs with ⟨m, rfl, -⟩ | ⟨target, d, heq, -⟩
      · rfl
      · rw [heq]
        rfl
    · rw [List.mem_singleton.1 hs]
      rfl
  rw [heq, List.filterMap_append, regions_enters, hnone, List.append_nil]

theorem Site.mentions_sublist (x : Site) :
    ((x.sayings.filterMap (·.2.mention?)).map Mention.identifier).Sublist [x] := by
  obtain ⟨own, heq, hown⟩ := x.sayings_cases
  have hnone : (enters (regions x.above) x.opened).filterMap (·.2.mention?) = [] := by
    rw [List.filterMap_eq_nil_iff]
    intro s hs
    obtain ⟨R, -, heq⟩ := mem_enters hs
    rw [heq]
    rfl
  rw [heq, List.filterMap_append, hnone, List.nil_append]
  rcases hown with rfl | ⟨rfl, -⟩ | ⟨rfl, -⟩
  · exact List.nil_sublist _
  · exact Purpose.mentions_sublist _
  · exact List.nil_sublist _

end Sayings

/-! ## What code says -/

section Code

variable (s : Site)

/-- No identifier is mentioned twice. -/
theorem Site.nodup_mentions :
    (((s.code.flatMap Site.sayings).filterMap (·.2.mention?)).map (·.identifier.path)).Nodup := by
  have hsublist : (((s.code.flatMap Site.sayings).filterMap (·.2.mention?)).map
      Mention.identifier).Sublist s.code := by
    induction s.code with
    | nil => exact List.Sublist.slnil
    | cons x code ih =>
      rw [List.flatMap_cons, List.filterMap_append, List.map_append]
      exact x.mentions_sublist.append ih
  have hpaths := s.nodup_code.sublist (hsublist.map Site.path)
  rwa [List.map_map] at hpaths

/-- The scopes that open are those that places open. -/
theorem Site.regions_told :
    ((s.code.flatMap Site.sayings).filterMap (·.2.region?)).Perm (s.code.flatMap Site.opened) := by
  rw [List.filterMap_flatMap]
  refine List.Perm.flatMap_left _ fun x _ => ?_
  rw [x.regions_sayings]
  exact List.reverse_perm _

theorem Site.nodup_opened : s.opened.Nodup ∧ ∀ R ∈ s.opened, R.block = s := by
  unfold Site.opened
  split
  all_goals try split
  all_goals try split
  all_goals simp

/-- No two scopes stand in the same place. -/
theorem Site.nodup_regions : (s.code.flatMap Site.opened).Nodup := by
  rw [List.nodup_flatMap]
  constructor
  · exact fun x _ => x.nodup_opened.1
  · refine (List.Nodup.of_map _ s.nodup_code).imp ?_
    intro x y hne R hR hR'
    have hx := x.nodup_opened.2 R hR
    have hy := y.nodup_opened.2 R hR'
    exact hne (hx.symm.trans hy)

end Code

end ApiTrace
