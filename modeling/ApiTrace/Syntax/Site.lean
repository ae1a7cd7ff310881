import ApiTrace.Syntax.Part

/-!
# Sites

A site is a node together with its place in the tree: the chain of nodes above it, each with the
slot that leads down. From a site the parent and the children can be reached, and two sites of one
tree are the same exactly if their paths of slots are. `Site.walk` lists the sites below a site with
a stack of sites that are still to be visited; it lists parents before children and children in
field order, as recursion does (`Site.walk_eq_preorder`). `Site.linkParents` is the parent of each
of them as a walk sets it.
-/

namespace ApiTrace

/-- One step down a tree: a node and the slot that is taken in it. -/
structure Frame where
  slot : Slot
  parent : Node

/-- A node in its tree; `above` is the way up, the parent first. -/
structure Site where
  node : Node
  above : List Frame

namespace Site

/-- The site of a whole tree. -/
def root (node : Node) : Site := ⟨node, []⟩

/-- The way up from a child that hangs at `slot`. -/
def frames (s : Site) (slot : Slot) : List Frame := ⟨slot, s.node⟩ :: s.above

/-- The site of a child that hangs at `slot`. -/
def down (s : Site) (slot : Slot) (child : Node) : Site := ⟨child, s.frames slot⟩

/-- The site of the parent. -/
def parent? (s : Site) : Option Site :=
  match s.above with
  | [] => none
  | frame :: above => some ⟨frame.parent, above⟩

/-- The slots that lead from the root to a site, the last one first. -/
def path (s : Site) : List Slot := s.above.map Frame.slot

/-- The sites of the children, in field order. -/
def children (s : Site) : List Site := s.node.form.children.map fun (slot, n) => s.down slot n

/-- The place of a site in the source. -/
def span (s : Site) : Span := s.node.span

/-- The offset at which a site begins. -/
def start (s : Site) : Nat := s.node.start

/-- The name of the form of a site. -/
def kind (s : Site) : Text := s.node.kind

/-- The name that an identifier carries. -/
def name? (s : Site) : Option Text := s.node.form.identifierName?

end Site

/-! ### Walks -/

theorem Form.sizeOf_child_lt {f : Form} {slot : Slot} {n : Node} (h : (slot, n) ∈ f.children) :
    sizeOf n < sizeOf f := by
  have one : ∀ {role child}, (slot, n) ∈ (Part.one role child).children →
      sizeOf n < sizeOf child := by
    intro role child hm
    rw [Part.mem_children_one hm]
    simp
  have many : ∀ {role children}, (slot, n) ∈ (Part.many role children).children →
      sizeOf n < sizeOf children := fun hm => sizeOf_lt_of_some_mem (Part.mem_children_many hm)
  have all : ∀ {role children}, (slot, n) ∈ (Part.all role children).children →
      sizeOf n < sizeOf children := fun hm => List.sizeOf_lt_of_mem (Part.mem_children_all hm)
  have none : ∀ {name value}, (slot, n) ∉ (Part.attribute name value).children := by
    simp [Part.children]
  obtain ⟨part, hpart, hmem⟩ := List.mem_flatMap.1 h
  cases f with
  | literal value raw =>
    cases value <;> simp [Form.parts, Literal.parts, Part.text] at hpart <;>
      rcases hpart with rfl | rfl | rfl <;> exact absurd hmem none
  | _ =>
    simp only [Form.parts, Part.flag, Part.text, List.mem_cons, List.not_mem_nil, or_false] at hpart
    all_goals
      try rcases hpart with rfl | rfl | rfl | rfl | rfl | rfl
    all_goals first
      | exact absurd hmem none
      | (have lt := one hmem; simp at lt ⊢; omega)
      | (have lt := all hmem; simp at lt ⊢; omega)
      | (have lt := many hmem; simp at lt ⊢; omega)

theorem Node.sizeOf_form_lt (n : Node) : sizeOf n.form < sizeOf n := by
  obtain ⟨span, form⟩ := n
  show sizeOf form < sizeOf (Node.mk span form)
  rw [Node.mk.sizeOf_spec]
  omega

theorem Site.sizeOf_child_lt {s c : Site} (h : c ∈ s.children) : sizeOf c.node < sizeOf s.node := by
  obtain ⟨⟨slot, n⟩, hmem, rfl⟩ := List.mem_map.1 h
  have := Form.sizeOf_child_lt hmem
  cases hn : s.node with
  | mk span form => simp [hn, Node.form, Site.down] at this ⊢; omega

/-- A site and all sites below it by recursion, parents before children and children in field
order. -/
def Site.preorder (s : Site) : List Site := s :: s.children.attach.flatMap fun ⟨c, _⟩ => c.preorder
termination_by sizeOf s.node
decreasing_by exact Site.sizeOf_child_lt (by assumption)

theorem Site.preorder_eq (s : Site) : s.preorder = s :: s.children.flatMap Site.preorder := by
  rw [Site.preorder]
  simp

/-- Puts sites on a stack, the last one first, so that the first one comes to lie on top. -/
def Site.push (sites stack : List Site) : List Site :=
  sites.reverse.foldl (fun stack s => s :: stack) stack

theorem Site.push_eq (sites stack : List Site) : Site.push sites stack = sites ++ stack := by
  simp [Site.push]

/-- Visits the sites on a stack. The one on top is taken off, and its children are put on. -/
def Site.visit : List Site → List Site
  | [] => []
  | s :: stack => s :: Site.visit (Site.push s.children stack)
termination_by stack => (stack.flatMap Site.preorder).length
decreasing_by simp [Site.push_eq, Site.preorder_eq s]

theorem Site.visit_eq (stack : List Site) : Site.visit stack = stack.flatMap Site.preorder := by
  fun_induction Site.visit stack with
  | case1 => rfl
  | case2 s stack ih =>
    rw [ih, Site.push_eq, List.flatMap_append, List.flatMap_cons, s.preorder_eq, List.cons_append]

/-- A site and all sites below it, in the order in which a walk with a stack comes to them. -/
def Site.walk (s : Site) : List Site := Site.visit [s]

theorem Site.walk_eq_preorder (s : Site) : s.walk = s.preorder := by
  rw [Site.walk, Site.visit_eq, List.flatMap_singleton]

theorem Site.walk_eq (s : Site) : s.walk = s :: s.children.flatMap Site.walk := by
  rw [funext Site.walk_eq_preorder, s.preorder_eq]

theorem Site.mem_walk_self (s : Site) : s ∈ s.walk := by
  rw [Site.walk_eq]
  exact .head _

theorem Site.mem_walk_of_child {s c x : Site} (hc : c ∈ s.children) (hx : x ∈ c.walk) :
    x ∈ s.walk := by
  rw [Site.walk_eq]
  exact .tail _ (List.mem_flatMap.2 ⟨c, hc, hx⟩)

/-- What a site passes on to its children is so of all sites of its walk. -/
theorem Site.walk_induction {s : Site} {P : Site → Prop} (hs : P s)
    (hdown : ∀ p ∈ s.walk, P p → ∀ c ∈ p.children, P c) {x : Site} (hx : x ∈ s.walk) : P x := by
  induction s using Site.preorder.induct with
  | case1 s ih =>
    rw [Site.walk_eq] at hx
    rcases List.mem_cons.1 hx with rfl | hx
    · exact hs
    · obtain ⟨c, hc, hx⟩ := List.mem_flatMap.1 hx
      exact ih c hc (hdown s s.mem_walk_self hs c hc)
        (fun p hp => hdown p (Site.mem_walk_of_child hc hp)) hx

theorem Site.mem_walk_trans {s x y : Site} (hx : x ∈ s.walk) (hy : y ∈ x.walk) : y ∈ s.walk := by
  revert y
  exact Site.walk_induction (P := fun x => ∀ {y}, y ∈ x.walk → y ∈ s.walk) id
    (fun p _ hp c hc y hy => hp (Site.mem_walk_of_child hc hy)) hx

/-- The parent of a place, unless it is the outermost one. -/
theorem Site.parent_of_mem_walk {s x p : Site} (hx : x ∈ s.walk) (hp : x.parent? = some p) :
    x = s ∨ p ∈ s.walk ∧ x ∈ p.children := by
  revert p
  refine Site.walk_induction (P := fun x => ∀ {p}, x.parent? = some p → x = s ∨ p ∈ s.walk ∧
    x ∈ p.children)
    (fun _ => .inl rfl) (fun q hq _ c hc p hp => ?_) hx
  obtain ⟨⟨slot, n⟩, -, rfl⟩ := List.mem_map.1 hc
  obtain rfl : q = p := Option.some.inj hp
  exact .inr ⟨hq, hc⟩

/-! ### Parent links -/

/-- Sets the parent of a site in a table of parents; a site is known by its path. -/
def Site.link (parents : List Slot → Option Site) (link : Site × Site) : List Slot → Option Site :=
  fun path => if path = link.1.path then some link.2 else parents path

/-- The links that a walk sets, in this order: each site that it comes to is the parent of its
children. -/
def Site.links (s : Site) : List (Site × Site) :=
  s.walk.flatMap fun p => p.children.map fun c => (c, p)

/-- The parents of sites by their paths after a walk has set its links; at first there are none. -/
def Site.linkParents (s : Site) : List Slot → Option Site := s.links.foldl Site.link fun _ => none

end ApiTrace
