import Mathlib.Algebra.Order.Group.Multiset
import Mathlib.Data.Multiset.Bind
import Mathlib.Tactic.Abel
import ApiTrace.Proofs.Scope.Lexical
import ApiTrace.Proofs.Scope.Forms

/-!
# Events that say what places say

Reading a program gives events in an order of its own: the names that a pattern binds come before
the expressions inside it, a class is named twice, and the body of a function is not read as the
block that it is. What the events say all the same, each with the scopes that are open when it comes
(`Yields`), is what the places of the program say (`Site.told`), nothing more and nothing less. This
module states it of a node (`Node.Faithful`) and proves it of the forms that do what their children
do and of patterns.
-/

namespace ApiTrace

open ScopeEvent

/-! ## What is told, part by part -/

theorem Site.above_suffix_of_mem_walk {s x : Site} (h : x ∈ s.walk) : s.above <:+ x.above := by
  refine Site.walk_induction (P := fun x => s.above <:+ x.above) (List.suffix_refl _)
    (fun p _ hp c hc => ?_) h
  obtain ⟨⟨slot, n⟩, -, rfl⟩ := List.mem_map.1 hc
  exact hp.trans (List.suffix_cons _ _)

theorem isCode_of_suffix {above above' : List Frame} (h : above <:+ above')
    (hcode : isCode above' = true) : isCode above = true := by
  obtain ⟨frames, rfl⟩ := h
  induction frames with
  | nil => exact hcode
  | cons frame frames ih =>
    rw [List.cons_append, isCode, Bool.and_eq_true] at hcode
    exact ih hcode.2

/-- What is not code says nothing, and neither does anything inside it. -/
theorem Site.told_eq_zero {s : Site} (h : isCode s.above = false) : s.told = 0 := by
  have hcode : s.code = [] := by
    rw [Site.code, List.filter_eq_nil_iff]
    intro x hx hcode
    rw [isCode_of_suffix (Site.above_suffix_of_mem_walk hx) hcode] at h
    cases h
  rw [Site.told, hcode]
  rfl

/-- What the children that a part holds say. -/
def Part.told (self : Site) (p : Part) : Multiset Saying :=
  (p.children.map fun (slot, n) => (self.down slot n).told).sum

theorem Site.told_eq {s : Site} (h : isCode s.above = true) :
    s.told = ↑s.sayings + (s.node.form.parts.map (·.told s)).sum := by
  have hparts : (s.node.form.parts.map (·.told s)).sum = (s.children.map Site.told).sum := by
    rw [Site.children, Form.children, List.map_map, List.map_flatMap, List.flatMap_def,
      List.sum_flatten, List.map_map]
    rfl
  have hchildren : (↑((s.children.flatMap Site.code).flatMap Site.sayings) : Multiset Saying) =
      (s.children.map Site.told).sum := by
    rw [List.flatMap_assoc, ← Multiset.coe_bind]
    rfl
  rw [hparts, ← hchildren, Site.told, Site.code, Site.walk_eq,
    List.filter_cons_of_pos (by simpa using h), List.flatMap_cons, ← Multiset.coe_add,
    List.filter_flatMap]
  rfl

/-- A node that says nothing by itself only tells what its children tell. -/
theorem told_of_silent {span : Span} {f : Form} {above : List Frame} (hcode : isCode above = true)
    (hsilent : Site.sayings ⟨.mk span f, above⟩ = []) :
    Site.told ⟨.mk span f, above⟩ = (f.parts.map (·.told ⟨.mk span f, above⟩)).sum := by
  rw [Site.told_eq (s := ⟨.mk span f, above⟩) hcode, hsilent, Multiset.coe_nil, zero_add]
  rfl

theorem coe_cons {α : Type} (a : α) (l : List α) : (↑(a :: l) : Multiset α) = {a} + ↑l := rfl

/-- What children in a row say, the first one with number `i`. -/
def Site.toldFrom (self : Site) (role : Role) (i : Nat) : List (Option Node) → Multiset Saying
  | [] => 0
  | none :: os => self.toldFrom role (i + 1) os
  | some n :: os => (self.down ⟨role, i⟩ n).told + self.toldFrom role (i + 1) os

section Parts

variable (self : Site) (role : Role)

theorem Site.toldFrom_some (i : Nat) (n : Node) :
    self.toldFrom role i [some n] = (self.down ⟨role, i⟩ n).told := add_zero _

@[simp] theorem Part.told_attribute (name : String) (value : Attribute) :
    (Part.attribute name value).told self = 0 := rfl

@[simp] theorem Part.told_flag (name : String) (b : Bool) : (Part.flag name b).told self = 0 := rfl

@[simp] theorem Part.told_text (name : String) (t : Text) : (Part.text name t).told self = 0 := rfl

@[simp] theorem Part.told_one (o : Option Node) :
    (Part.one role o).told self = self.toldFrom role 0 [o] := by
  cases o <;> simp [Part.told, Part.children, Site.toldFrom]

@[simp] theorem Part.told_many (os : List (Option Node)) :
    (Part.many role os).told self = self.toldFrom role 0 os := by
  have h : ∀ i, (((os.zipIdx i).filterMap fun p => p.1.map ((⟨role, p.2⟩ : Slot), ·)).map
      fun c => (self.down c.1 c.2).told).sum = self.toldFrom role i os := by
    induction os with
    | nil => exact fun _ => rfl
    | cons o os ih =>
      intro i
      cases o <;> simp [Site.toldFrom, ih]
  exact h 0

@[simp] theorem Part.told_all (ns : List Node) :
    (Part.all role ns).told self = self.toldFrom role 0 (ns.map some) := Part.told_many self role _

theorem Site.toldFrom_eq_zero (h : self.holdsCode role = false) (i : Nat)
    (os : List (Option Node)) : self.toldFrom role i os = 0 := by
  induction os generalizing i with
  | nil => rfl
  | cons o os ih =>
    cases o with
    | none => exact ih (i + 1)
    | some n =>
      have hcode : isCode (self.frames ⟨role, i⟩) = false := by
        simp [Site.frames, isCode, h]
      rw [Site.toldFrom, ih, Site.told_eq_zero hcode, add_zero]

end Parts

/-! ## Events and what they say -/

/-- Events that open and close scopes in pairs, with what they say inside the scopes `around`. -/
inductive Yields : List Region → List ScopeEvent → Multiset Saying → Prop where
  | nil {around} : Yields around [] 0
  | point {around e} (he : e.isBracket = false) : Yields around [e] {(around, e)}
  | append {around first second A B} (hfirst : Yields around first A)
      (hsecond : Yields around second B) : Yields around (first ++ second) (A + B)
  | scope {around kind block inside A} (hinside : Yields (⟨kind, block⟩ :: around) inside A) :
      Yields around (.enter kind block :: inside ++ [ScopeEvent.leave])
        ({(around, .enter kind block)} + A)

theorem Yields.of_eq {around : List Region} {events : List ScopeEvent} {A B : Multiset Saying}
    (h : Yields around events A) (hA : A = B) : Yields around events B := hA ▸ h

theorem Yields.points {around : List Region} {events : List ScopeEvent}
    (h : ∀ e ∈ events, e.isBracket = false) :
    Yields around events ↑(events.map (Prod.mk around)) := by
  induction events with
  | nil => exact .nil
  | cons e events ih =>
    exact .append (.point (h e (.head _))) (ih fun e' he' => h e' (.tail _ he'))

/-- Events of the names that a pattern binds, and of the expressions inside it, with what they say
together. -/
def YieldsBoth (around : List Region) (points inside : List ScopeEvent)
    (T : Multiset Saying) : Prop :=
  ∃ A B, Yields around points A ∧ Yields around inside B ∧ A + B = T

namespace YieldsBoth

variable {around : List Region} {points inside : List ScopeEvent} {T : Multiset Saying}

theorem yields (h : YieldsBoth around points inside T) : Yields around (points ++ inside) T := by
  obtain ⟨A, B, hpoints, hinside, rfl⟩ := h
  exact .append hpoints hinside

theorem append {points' inside' : List ScopeEvent} {T' : Multiset Saying}
    (h : YieldsBoth around points inside T) (h' : YieldsBoth around points' inside' T') :
    YieldsBoth around (points ++ points') (inside ++ inside') (T + T') := by
  obtain ⟨A, B, hpoints, hinside, rfl⟩ := h
  obtain ⟨A', B', hpoints', hinside', rfl⟩ := h'
  exact ⟨A + A', B + B', hpoints.append hpoints', hinside.append hinside',
    add_add_add_comm A A' B B'⟩

theorem nil : YieldsBoth around [] [] 0 := ⟨0, 0, .nil, .nil, zero_add 0⟩

theorem of_points (h : Yields around points T) : YieldsBoth around points [] T :=
  ⟨T, 0, h, .nil, add_zero T⟩

theorem of_inside (h : Yields around inside T) : YieldsBoth around [] inside T :=
  ⟨0, T, .nil, h, zero_add T⟩

end YieldsBoth

/-- Whether an event can come up in a program that has scopes. -/
def ScopeEvent.isClean : ScopeEvent → Bool
  | .fault _ => false
  | .mention m => m.identifier.name?.isSome
  | _ => true

/-- Events of which none is a fault or mentions something without a name. -/
def Clean (events : List ScopeEvent) : Prop := ∀ e ∈ events, e.isClean = true

theorem clean_append {first second : List ScopeEvent} :
    Clean (first ++ second) ↔ Clean first ∧ Clean second := List.forall_mem_append

theorem clean_cons {e : ScopeEvent} {events : List ScopeEvent} :
    Clean (e :: events) ↔ e.isClean = true ∧ Clean events := List.forall_mem_cons

theorem clean_scope {kind : ScopeKind} {block : Site} {inside : List ScopeEvent} :
    Clean (.enter kind block :: inside ++ [ScopeEvent.leave]) ↔ Clean inside := by
  rw [clean_append, clean_cons]
  constructor
  · exact fun h => h.1.2
  · intro h
    refine ⟨⟨rfl, h⟩, ?_⟩
    intro e he
    obtain rfl := List.mem_singleton.1 he
    rfl

theorem not_clean_fault (f : ScopeFault) : ¬ Clean [.fault f] := by
  intro h
  cases h _ (.head _)

/-! ## Nodes that are read for themselves -/

/-- Whether a child hangs where nodes of all forms are read for themselves, but for the names in
them. -/
def Frame.isPlain (f : Frame) : Bool :=
  match f.parent.form, f.slot.role with
  | .function .., .body | .arrowFunction .., .body | .staticBlock _, .body | .forEach .., .left
  | .variableDeclaration .., _ | .importDeclaration .., _ | .exportNamed .., .specifiers => false
  | _, _ => true

/-- Whether a node at a place is read for itself. The identifiers of a pattern are then read, and
what belongs to a declaration, an import or an export stands outside of one. -/
def Ordinary (n : Node) (above : List Frame) : Prop :=
  match n.form with
  | .identifier _ => purpose above = .read
  | .privateIdentifier _ | .jsxIdentifier _ => (purpose above).isName = false
  | .objectPattern _ | .arrayPattern _ | .restElement _ | .assignmentPattern .. =>
    (purpose above).inside = .read
  | .property .. => isMember above = true → (purpose above).inside = .read
  | .program .. => above ≠ []
  | .block _ => isBody above = false
  | .variableDeclaration .. => isLoopVariable above = false
  | .variableDeclarator .. => declaration? above = none
  | .importDefault _ | .importNamespace _ | .importSpecifier .. => import? above = none
  | .exportSpecifier .. => isExported above = false
  | _ => True

@[simp] theorem Purpose.inside_inside (u : Purpose) : u.inside.inside = u.inside := by
  cases u <;> rfl

@[simp] theorem Purpose.isName_inside (u : Purpose) : u.inside.isName = false := by
  cases u <;> rfl

section Plain

variable {f : Frame} {above : List Frame}

theorem isBody_of_plain (hf : f.isPlain = true) : isBody (f :: above) = false := by
  unfold isBody
  split
  · rename_i heq
    cases heq
    cases hf
  · rename_i heq
    cases heq
    cases hf
  · rename_i heq
    cases heq
    cases hf
  · rfl

theorem isLoopVariable_of_plain (hf : f.isPlain = true) : isLoopVariable (f :: above) = false := by
  unfold isLoopVariable
  split
  · rename_i heq
    cases heq
    cases hf
  · rfl

theorem declaration?_of_plain (hf : f.isPlain = true) : declaration? (f :: above) = none := by
  unfold declaration?
  split
  · rename_i heq
    cases heq
    simp [Frame.isPlain, Node.form] at hf
  · rfl

theorem import?_of_plain (hf : f.isPlain = true) : import? (f :: above) = none := by
  unfold import?
  split
  · rename_i heq
    cases heq
    simp [Frame.isPlain, Node.form] at hf
  · rfl

theorem isExported_of_plain (hf : f.isPlain = true) : isExported (f :: above) = false := by
  unfold isExported
  split
  · rename_i heq
    cases heq
    cases hf
  · rfl

/-- In most places every node is read for itself, as far as its identifiers are read. -/
theorem ordinary_of_plain {n : Node} (hf : f.isPlain = true)
    (hu : (purpose (f :: above)).isName = false)
    (hname : ∀ name, n.form = .identifier name → purpose (f :: above) = .read)
    (hpattern : n.form.isPattern = true → (purpose (f :: above)).inside = .read)
    (hmember : ∀ key value computed shorthand isMethod kind,
      n.form = .property key value computed shorthand isMethod kind →
        isMember (f :: above) = true → (purpose (f :: above)).inside = .read) :
    Ordinary n (f :: above) := by
  obtain ⟨span, form⟩ := n
  cases form with
  | identifier name => exact hname name rfl
  | privateIdentifier | jsxIdentifier => exact hu
  | objectPattern | arrayPattern | restElement | assignmentPattern => exact hpattern rfl
  | property => exact hmember _ _ _ _ _ _ rfl
  | program => exact List.cons_ne_nil _ _
  | block => exact isBody_of_plain hf
  | variableDeclaration => exact isLoopVariable_of_plain hf
  | variableDeclarator => exact declaration?_of_plain hf
  | importDefault | importNamespace | importSpecifier => exact import?_of_plain hf
  | exportSpecifier => exact isExported_of_plain hf
  | _ => trivial

theorem ordinary_of_read {n : Node} (hf : f.isPlain = true) (hread : purpose (f :: above) = .read) :
    Ordinary n (f :: above) := by
  have hinside : (purpose (f :: above)).inside = .read := by
    rw [hread]
    rfl
  have hu : (purpose (f :: above)).isName = false := by
    rw [hread]
    rfl
  exact ordinary_of_plain hf hu (fun _ _ => hread) (fun _ => hinside)
    (fun _ _ _ _ _ _ _ _ => hinside)

/-- What is no pattern is read for itself in a place where the names of a pattern are bound or
written. -/
theorem ordinary_of_bound {n : Node} (hf : f.isPlain = true)
    (hu : (purpose (f :: above)).inside = purpose (f :: above))
    (hmember : ∀ key value computed shorthand isMethod kind,
      n.form = .property key value computed shorthand isMethod kind → isMember (f :: above) = false)
    (hn : n.form.isPattern = false) : Ordinary n (f :: above) := by
  refine ordinary_of_plain hf ?_ (fun name hname => ?_) (fun hpattern => ?_) ?_
  · rw [← hu]
    exact Purpose.isName_inside _
  · rw [hname] at hn
    cases hn
  · rw [hn] at hpattern
    cases hpattern
  · intro key value computed shorthand isMethod kind hform hmem
    rw [hmember _ _ _ _ _ _ hform] at hmem
    cases hmem

end Plain

/-! ## Faithful nodes -/

/-- What is said of the identifiers of a pattern. -/
def Purpose.binding : Purpose → Site → List ScopeEvent
  | .write value => writing value
  | .parameter kind owner => fun x => [defining .here ⟨kind, x, owner, none⟩]
  | .declared declarator declaration => fun x =>
    defining declaration.target ⟨.declared, x, declarator, some declaration⟩
      :: if isLoopVariable declaration.above || declarator.initial?.isSome
        then [.mention ⟨x, .write, declarator.initial?, true⟩] else []
  | _ => fun x => [.mention ⟨x, .read, none, false⟩]

/-- A node whose events say what the places in it say, if it is read for itself and if it is read as
a pattern. -/
structure Node.Faithful (n : Node) : Prop where
  visit : ∀ {above}, isCode above = true → Ordinary n above → Clean (visit above n) →
    Yields (regions above) (visit above n) (Site.told ⟨n, above⟩)
  /-- The names that a pattern binds are apart from the expressions inside it. -/
  pattern : ∀ {above}, isCode above = true → (purpose above).inside = purpose above →
    (n.form.isPattern = false → Ordinary n above) →
    Clean (visitBindings above (purpose above).binding n) → Clean (visitInside above n) →
    YieldsBoth (regions above) (visitBindings above (purpose above).binding n) (visitInside above n)
      (Site.told ⟨n, above⟩)

/-! ## Children -/

/-- The events of a child if it is code. -/
def Site.visitChild (self : Site) (slot : Slot) (n : Node) : List ScopeEvent :=
  if self.holdsCode slot.role then ScopeEvent.visit (self.frames slot) n else []

/-- The events of the children of a part that are code. -/
def Part.visitCode (self : Site) (p : Part) : List ScopeEvent :=
  p.children.flatMap fun (slot, n) => self.visitChild slot n

section Children

variable (self : Site) (role : Role)

theorem Part.visitCode_eq_visit {self : Site} (h : ∀ role, self.holdsCode role = true) (p : Part) :
    p.visitCode self = p.visit self := by
  simp [Part.visitCode, Part.visit, Site.visitChild, h]

theorem Part.visitCode_one (o : Option Node) :
    (Part.one role o).visitCode self = if self.holdsCode role then visitOne self role o
      else [] := by
  cases o <;> simp [Part.visitCode, Part.children, Site.visitChild, visitOne]

theorem Part.visitCode_many (os : List (Option Node)) :
    (Part.many role os).visitCode self =
      if self.holdsCode role then visitGaps self role 0 os else [] := by
  have hrole : ∀ child ∈ (Part.many role os).children, child.1.role = role := by
    intro child hchild
    obtain ⟨⟨o, i⟩, -, hsome⟩ := List.mem_filterMap.1 hchild
    obtain ⟨n, -, rfl⟩ := Option.map_eq_some_iff.1 hsome
    rfl
  split
  · rename_i hholds
    rw [visitGaps_eq]
    refine List.flatMap_congr fun child hchild => ?_
    show self.visitChild child.1 child.2 = _
    rw [Site.visitChild, hrole child hchild, if_pos hholds]
  · rename_i hholds
    refine List.flatMap_eq_nil_iff.2 fun child hchild => ?_
    show self.visitChild child.1 child.2 = _
    rw [Site.visitChild, hrole child hchild, if_neg hholds]

theorem Part.visitCode_all (ns : List Node) :
    (Part.all role ns).visitCode self =
      if self.holdsCode role then visitAll self role 0 ns else [] := by
  rw [visitAll_eq, Part.all, ← visitGaps_eq]
  exact Part.visitCode_many self role _

@[simp] theorem Part.visitCode_flag (name : String) (b : Bool) :
    (Part.flag name b).visitCode self = [] := rfl

@[simp] theorem Part.visitCode_text (name : String) (t : Text) :
    (Part.text name t).visitCode self = [] := rfl

theorem isCode_frames {self : Site} (hcode : isCode self.above = true) (i : Nat) :
    isCode (self.frames ⟨role, i⟩) = self.holdsCode role := by
  simp [Site.frames, isCode, hcode]

theorem Node.Faithful.visitChild {self : Site} {n : Node} {slot : Slot}
    (hcode : isCode self.above = true)
    (h : self.holdsCode slot.role = true → n.Faithful ∧ Ordinary n (self.frames slot))
    (hclean : Clean (self.visitChild slot n)) :
    Yields (self.opens slot.role ++ regions self.above) (self.visitChild slot n)
      (self.down slot n).told := by
  unfold Site.visitChild at hclean ⊢
  split
  · rename_i hholds
    rw [if_pos hholds] at hclean
    obtain ⟨hfaithful, hordinary⟩ := h hholds
    exact hfaithful.visit ((isCode_frames slot.role hcode _).trans hholds) hordinary hclean
  · rename_i hholds
    have hnot : isCode (self.frames slot) = false :=
      (isCode_frames slot.role hcode _).trans (Bool.eq_false_iff.2 hholds)
    rw [Site.told_eq_zero hnot]
    exact .nil

theorem visitAll_eq_gaps (i : Nat) (ns : List Node) :
    visitAll self role i ns = visitGaps self role i (ns.map some) := by
  induction ns generalizing i with
  | nil => rfl
  | cons n ns ih => rw [visitAll, List.map_cons, visitGaps, ih]

/-- Children with one role that are read in a row say what their places say. -/
theorem yields_gaps {os : List (Option Node)} {i : Nat} (hcode : isCode self.above = true)
    (hholds : self.holdsCode role = true) (hfaithful : ∀ n, some n ∈ os → n.Faithful)
    (hordinary : ∀ i n, some n ∈ os → Ordinary n (self.frames ⟨role, i⟩))
    (hclean : Clean (visitGaps self role i os)) :
    Yields (self.opens role ++ regions self.above) (visitGaps self role i os)
      (self.toldFrom role i os) := by
  induction os generalizing i with
  | nil => exact .nil
  | cons o os ih =>
    have hrest := @ih (i + 1) (fun n hn => hfaithful n (.tail _ hn))
      (fun i n hn => hordinary i n (.tail _ hn))
    cases o with
    | none => exact hrest hclean
    | some n =>
      rw [visitGaps, clean_append] at hclean
      refine .append ?_ (hrest hclean.2)
      exact (hfaithful n (.head _)).visit ((isCode_frames role hcode i).trans hholds)
        (hordinary i n (.head _)) hclean.1

theorem yields_all {ns : List Node} {i : Nat} (hcode : isCode self.above = true)
    (hholds : self.holdsCode role = true) (hfaithful : ∀ n ∈ ns, n.Faithful)
    (hordinary : ∀ i, ∀ n ∈ ns, Ordinary n (self.frames ⟨role, i⟩))
    (hclean : Clean (visitAll self role i ns)) :
    Yields (self.opens role ++ regions self.above) (visitAll self role i ns)
      (self.toldFrom role i (ns.map some)) := by
  rw [visitAll_eq_gaps] at hclean ⊢
  exact yields_gaps self role hcode hholds (by simpa using hfaithful)
    (by simpa using hordinary) hclean

theorem yields_one {o : Option Node} (hcode : isCode self.above = true)
    (hholds : self.holdsCode role = true) (hfaithful : ∀ n, o = some n → n.Faithful)
    (hordinary : ∀ n, o = some n → Ordinary n (self.frames ⟨role, 0⟩))
    (hclean : Clean (visitOne self role o)) :
    Yields (self.opens role ++ regions self.above) (visitOne self role o)
      (self.toldFrom role 0 [o]) := by
  cases o with
  | none => exact .nil
  | some n =>
    rw [Site.toldFrom_some]
    exact (hfaithful n rfl).visit ((isCode_frames role hcode 0).trans hholds)
      (hordinary n rfl) hclean

/-- Children that are read in a row say what their places say. -/
theorem yields_parts {ps : List Part} {inner : List Region} (hcode : isCode self.above = true)
    (hopens : ∀ role, self.opens role = inner)
    (hchild : ∀ slot n, (slot, n) ∈ ps.flatMap Part.children → self.holdsCode slot.role = true →
      n.Faithful ∧ Ordinary n (self.frames slot))
    (hclean : Clean (ps.flatMap (·.visitCode self))) :
    Yields (inner ++ regions self.above) (ps.flatMap (·.visitCode self))
      (ps.map (·.told self)).sum := by
  have hsum : (ps.map (·.told self)).sum =
      ((ps.flatMap Part.children).map fun c => (self.down c.1 c.2).told).sum := by
    rw [List.map_flatMap, List.flatMap_def, List.sum_flatten, List.map_map]
    rfl
  have hevents : ps.flatMap (·.visitCode self) =
      (ps.flatMap Part.children).flatMap fun c => self.visitChild c.1 c.2 := by
    rw [List.flatMap_assoc]
    rfl
  rw [hevents] at hclean ⊢
  rw [hsum]
  clear hsum hevents
  -- The induction is on the children of all parts together.
  generalize ps.flatMap Part.children = children at hchild hclean
  induction children with
  | nil => exact .nil
  | cons child children ih =>
    rw [List.flatMap_cons, clean_append] at hclean
    refine .append ?_ (ih (fun slot n hmem => hchild slot n (.tail _ hmem)) hclean.2)
    rw [← hopens child.1.role]
    exact Node.Faithful.visitChild hcode (hchild _ _ (.head _)) hclean.1

end Children

/-! ## Forms that do what their children do -/

/-- Whether a form opens no scope and does to names what its children do. -/
def Form.isTransparent : Form → Bool
  | .identifier _ | .block _ | .staticBlock _ | .function .. | .arrowFunction .. | .classLike ..
  | .catchClause .. | .switch .. | .forLoop .. | .forEach .. | .variableDeclaration ..
  | .importDeclaration .. | .exportNamed none _ none | .assignment .. | .update .. => false
  | .other name _ => name ≠ Text.ofString "Identifier" ∧ name ∉ partedNames
  | _ => true

section Transparent

variable {f : Form} {span : Span} {above : List Frame}

theorem visitForm_eq_code (hf : f.isTransparent = true) (hordinary : Ordinary (.mk span f) above) :
    visitForm ⟨.mk span f, above⟩ f = f.parts.flatMap (·.visitCode ⟨.mk span f, above⟩) := by
  by_cases hgeneric : f.isGeneric = true
  -- In these forms every child is code.
  · have hcode : ∀ role, Site.holdsCode ⟨.mk span f, above⟩ role = true := by
      intro role
      cases f with
      | method | field | property | member | labeled | jump | exportAll | exportNamed |
          importSpecifier
      | exportSpecifier | other | importDeclaration => cases hgeneric
      | _ => rfl
    simp only [visitForm_eq_parts hgeneric, Part.visitCode_eq_visit hcode]
  · cases f with
    | method key computed | field key computed | property key value computed
    | member object property computed =>
      cases computed <;> simp [visitForm, Form.parts, Part.visitCode_one, Site.holdsCode, Node.form]
    | labeled | jump | exportAll | importDefault | importNamespace | classBody =>
      simp [visitForm, visitOne, Form.parts, Part.visitCode_one, Part.visitCode_all,
        Site.holdsCode, Node.form]
    | importSpecifier imported binding =>
      have himport : import? above = none := hordinary
      simp [visitForm, visitOne, Form.parts, Part.visitCode_one, Site.holdsCode, Node.form, himport]
    | exportSpecifier binding exported =>
      have hexport : isExported above = false := hordinary
      simp [visitForm, visitOne, Form.parts, Part.visitCode_one, Site.holdsCode, Node.form, hexport]
    | exportNamed declaration specifiers source =>
      obtain _ | ⟨⟨declSpan, form⟩⟩ := declaration
      all_goals obtain _ | source := source
      · cases hf
      · simp [visitForm, Form.parts, Part.visitCode_one, Part.visitCode_all, Site.holdsCode,
          Node.form]
      · simp [visitForm, visitOne, visit, Site.down, Form.parts, Part.visitCode_one,
          Part.visitCode_all, Site.holdsCode, Node.form]
      · simp [visitForm, Form.parts, Part.visitCode_one, Part.visitCode_all, Site.holdsCode,
          Node.form]
    | other name children =>
      obtain ⟨hname, hparted⟩ : name ≠ Text.ofString "Identifier" ∧ name ∉ partedNames := by
        simpa [Form.isTransparent] using hf
      by_cases hsilent : name ∈ silentNames <;>
        simp [visitForm, Form.parts, Part.visitCode_all, Site.holdsCode, Node.form, hname, hparted,
          hsilent]
    | identifier | block | staticBlock | function | arrowFunction | classLike | catchClause | switch
    | forLoop | forEach | variableDeclaration | importDeclaration | assignment | update => cases hf
    | _ => exact absurd rfl hgeneric

theorem opens_of_transparent (hf : f.isTransparent = true) (hordinary : Ordinary (.mk span f) above)
    (role : Role) : Site.opens ⟨.mk span f, above⟩ role = [] := by
  cases f with
  | program body sourceType =>
    have habove : above ≠ [] := hordinary
    simp [Site.opens, Site.opened, Node.form, habove]
  | block | staticBlock | function | arrowFunction | classLike | catchClause | switch | forLoop
  | forEach => cases hf
  | _ => rfl

theorem sayings_of_transparent (hf : f.isTransparent = true)
    (hordinary : Ordinary (.mk span f) above) :
    Site.sayings ⟨.mk span f, above⟩ = [] := by
  cases f with
  | program body sourceType =>
    have habove : above ≠ [] := hordinary
    simp [Site.sayings, Site.opened, Node.form, habove, enters]
  | privateIdentifier name | jsxIdentifier name =>
    have hu : (purpose above).isName = false := hordinary
    simp [Site.sayings, Site.opened, Node.form, hu, enters]
  | identifier | block | staticBlock | function | arrowFunction | classLike | catchClause | switch
  | forLoop | forEach => cases hf
  | _ => rfl

theorem purpose_of_transparent (hf : f.isTransparent = true)
    (hordinary : Ordinary (.mk span f) above) (slot : Slot) :
    purpose (Site.frames ⟨.mk span f, above⟩ slot) = .read := by
  cases f with
  | objectPattern | arrayPattern | restElement => exact hordinary
  | assignmentPattern left right =>
    have hread : (purpose above).inside = .read := hordinary
    obtain ⟨role, i⟩ := slot
    cases role <;> first | exact hread | rfl
  | property key value =>
    have hread : isMember above = true → (purpose above).inside = .read := hordinary
    obtain ⟨role, i⟩ := slot
    cases role <;> first | rfl | simpa [purpose, Site.frames, Node.form] using hread
  | variableDeclarator target init =>
    have hnone : declaration? above = none := hordinary
    obtain ⟨role, i⟩ := slot
    cases role <;> first | rfl | simp [purpose, Site.frames, Node.form, hnone]
  | importDefault | importNamespace | importSpecifier =>
    have hnone : import? above = none := hordinary
    obtain ⟨role, i⟩ := slot
    cases role <;> first | rfl | simp [purpose, Site.frames, Node.form, hnone]
  | block | staticBlock | function | arrowFunction | classLike | catchClause | switch | forLoop
  | forEach | assignment | update => cases hf
  | _ => rfl

theorem isPlain_of_transparent (hf : f.isTransparent = true) {slot : Slot}
    (hcode : Site.holdsCode ⟨.mk span f, above⟩ slot.role = true) :
    Frame.isPlain ⟨slot, .mk span f⟩ = true := by
  cases f with
  | exportNamed declaration specifiers source =>
    obtain _ | declaration := declaration <;> obtain _ | source := source
    · cases hf
    · cases hcode
    · have hrole : slot.role = .declaration := by simpa [Site.holdsCode, Node.form] using hcode
      simp [Frame.isPlain, Node.form, hrole]
    · cases hcode
  | function | arrowFunction | staticBlock | forEach | variableDeclaration |
      importDeclaration => cases hf
  | _ => rfl

/-- A node of a form that opens no scope and does what its children do says what its place says. -/
theorem yields_transparent (hf : f.isTransparent = true)
    (h : ∀ slot n, (slot, n) ∈ f.children → n.Faithful) (hcode : isCode above = true)
    (hordinary : Ordinary (.mk span f) above) (hclean : Clean (visit above (.mk span f))) :
    Yields (regions above) (visit above (.mk span f)) (Site.told ⟨.mk span f, above⟩) := by
  have hevents : visit above (.mk span f) = f.parts.flatMap (·.visitCode ⟨.mk span f, above⟩) := by
    rw [visit, visitForm_eq_code hf hordinary]
  rw [hevents] at hclean ⊢
  rw [told_of_silent hcode (sayings_of_transparent hf hordinary)]
  refine yields_parts ⟨.mk span f, above⟩ hcode (opens_of_transparent hf hordinary) ?_ hclean
  intro slot n hmem hholds
  refine ⟨h slot n hmem, ordinary_of_read ?_ ?_⟩
  · exact isPlain_of_transparent hf hholds
  · exact purpose_of_transparent hf hordinary slot

end Transparent

/-! ## Names and patterns -/

section Patterns

variable {f : Form} {span : Span} {above : List Frame}

theorem Purpose.binding_says {u : Purpose} (hu : u.inside = u) {x : Site}
    (hx : x.name?.isSome = true) (around : List Region) :
    (u.binding x).map (Prod.mk around) = u.sayings around x := by
  cases u with
  | read => rfl
  | write => rfl
  | parameter kind owner => simp [binding, sayings, defining, hx]
  | declared declarator declaration =>
    simp only [binding, sayings, defining, hx, if_true, List.map_cons]
    split <;> rfl
  | update | imported | functionName | className => cases hu

theorem Purpose.isBracket_binding (u : Purpose) (x : Site) :
    ∀ e ∈ u.binding x, e.isBracket = false := by
  have hdefining : ∀ target d, (defining target d).isBracket = false := by
    intro target d
    unfold defining
    split <;> rfl
  intro e he
  cases u with
  | parameter kind owner =>
    obtain rfl := List.mem_singleton.1 he
    exact hdefining _ _
  | declared declarator declaration =>
    rcases List.mem_cons.1 he with rfl | he
    · exact hdefining _ _
    · split at he
      · obtain rfl := List.mem_singleton.1 he
        rfl
      · cases he
  | _ =>
    obtain rfl := List.mem_singleton.1 he
    rfl

/-- What has no name can be neither bound nor mentioned. -/
theorem Purpose.not_clean_binding (u : Purpose) {x : Site} (hx : x.name? = none) :
    ¬ Clean (u.binding x) := by
  intro hclean
  have hfirst :=
    hclean _ (List.head_mem (l := u.binding x) (by cases u <;> simp [binding, writing]))
  cases u <;> simp [binding, writing, defining, isClean, hx] at hfirst

theorem told_identifier (hcode : isCode above = true) (name : Text) :
    Site.told ⟨.mk span (.identifier name), above⟩ =
      ↑((purpose above).sayings (regions above) ⟨.mk span (.identifier name), above⟩) := by
  rw [Site.told_eq (s := ⟨_, above⟩) hcode]
  simp [Form.parts, Node.form, Site.sayings, Site.opened, enters]

theorem Node.Faithful.identifier (name : Text) : (Node.mk span (.identifier name)).Faithful where
  visit {above} hcode hordinary _ := by
    have hread : purpose above = .read := hordinary
    rw [told_identifier hcode, hread]
    exact .point rfl
  pattern {above} hcode hu _ _ _ := by
    rw [told_identifier hcode, ← Purpose.binding_says hu rfl]
    exact .of_points (.points (Purpose.isBracket_binding _ _))

/-- What is no pattern binds nothing and is read for itself. -/
theorem Node.Faithful.of_visit (hf : f.isPattern = false)
    (h : ∀ {above}, isCode above = true → Ordinary (.mk span f) above →
      Clean (ScopeEvent.visit above (.mk span f)) →
      Yields (regions above) (ScopeEvent.visit above (.mk span f))
          (Site.told ⟨.mk span f, above⟩)) :
    (Node.mk span f).Faithful where
  visit := h
  pattern := by
    intro above hcode _ hordinary _ hclean
    rw [visitInside_of_not_pattern hf] at hclean
    rw [visitBindings_of_not_pattern hf, visitInside_of_not_pattern hf]
    exact .of_inside (h hcode (hordinary hf) hclean)

/-- A pattern in the place of a part of a pattern. -/
theorem Node.Faithful.step {n : Node} {frame : Frame} (h : n.Faithful)
    (hcode : isCode (frame :: above) = true) (hplain : frame.isPlain = true)
    (hu : purpose (frame :: above) = (purpose above).inside)
    (hmember : ∀ key value computed shorthand isMethod kind,
      n.form = .property key value computed shorthand isMethod kind → isMember
          (frame :: above) = false)
    (hbindings : Clean (visitBindings (frame :: above) (purpose above).inside.binding n))
    (hinside : Clean (visitInside (frame :: above) n)) :
    YieldsBoth (regions (frame :: above))
      (visitBindings (frame :: above) (purpose above).inside.binding n)
      (visitInside (frame :: above) n) (Site.told ⟨n, frame :: above⟩) := by
  have hidem : (purpose (frame :: above)).inside = purpose (frame :: above) := by
    rw [hu, Purpose.inside_inside]
  -- The names of the part are bound as those of the whole pattern are.
  rw [← hu] at hbindings ⊢
  exact h.pattern hcode hidem (ordinary_of_bound hplain hidem hmember) hbindings hinside

end Patterns

section Smaller

variable {span : Span} {above : List Frame} {k : Nat} (h : ∀ m : Node, sizeOf m < k → m.Faithful)

include h

theorem yieldsBoth_elements {elements ns : List Node} (hcode : isCode above = true)
    (hns : sizeOf ns ≤ k) {i : Nat} :
    let self : Site := ⟨.mk span (.arrayPattern elements), above⟩
    Clean (visitElementBindings self (purpose above).inside.binding i ns) →
    Clean (visitInsideElements self i ns) →
    YieldsBoth (regions above) (visitElementBindings self (purpose above).inside.binding i ns)
      (visitInsideElements self i ns) (self.toldFrom .elements i (ns.map some)) := by
  intro self hbindings hinside
  induction ns generalizing i with
  | nil => exact .nil
  | cons n ns ih =>
    simp only [List.cons.sizeOf_spec] at hns
    rw [visitElementBindings, clean_append] at hbindings
    rw [visitInsideElements, clean_append] at hinside
    rw [visitElementBindings, visitInsideElements]
    refine .append ?_ (ih (by omega) hbindings.2 hinside.2)
    refine (h n (by omega)).step ?_ rfl rfl (fun _ _ _ _ _ _ _ => rfl) hbindings.1 hinside.1
    simp [isCode, self, Site.holdsCode, hcode, Node.form]

/-- An optional part of a pattern that is a pattern itself. -/
theorem yieldsBoth_one (self : Site) (role : Role) {o : Option Node} (ho : sizeOf o ≤ k)
    (hcode : isCode (self.frames ⟨role, 0⟩) = true)
    (hplain : Frame.isPlain ⟨⟨role, 0⟩, self.node⟩ = true)
    (hself : isMember (self.frames ⟨role, 0⟩) = false)
    (hu : purpose (self.frames ⟨role, 0⟩) = (purpose self.above).inside)
    (hbindings : Clean (visitOneBinding self role (purpose self.above).inside.binding o))
    (hinside : Clean (visitInsideOne self role o)) :
    YieldsBoth (regions (self.frames ⟨role, 0⟩))
      (visitOneBinding self role (purpose self.above).inside.binding o) (visitInsideOne self role o)
      (self.toldFrom role 0 [o]) := by
  cases o with
  | none => exact .nil
  | some n =>
    have hn : sizeOf n < k := by
      simp only [Option.some.sizeOf_spec] at ho
      omega
    have hstep := (h n hn).step hcode hplain hu (fun _ _ _ _ _ _ _ => hself) hbindings hinside
    rw [Site.toldFrom_some]
    exact hstep

/-- A member of an object pattern. -/
theorem yieldsBoth_member {properties : List Node} {n : Node} (hcode : isCode above = true)
    (hn : sizeOf n < k) {i : Nat} :
    let self : Site := ⟨.mk span (.objectPattern properties), above⟩
    Clean (visitPropertyBindings self (purpose above).inside.binding i [n]) →
    Clean (visitInsideProperties self i [n]) →
    YieldsBoth (regions above) (visitPropertyBindings self (purpose above).inside.binding i [n])
      (visitInsideProperties self i [n]) (self.down ⟨.properties, i⟩ n).told := by
  intro self hbindings hinside
  have hframes : isCode (self.frames ⟨.properties, i⟩) = true := by
    simp [Site.frames, isCode, self, Site.holdsCode, hcode, Node.form]
  obtain ⟨nSpan, form⟩ := n
  by_cases hform : ∃ key value computed shorthand isMethod kind,
      form = .property key value computed shorthand isMethod kind
  · obtain ⟨key, value, computed, shorthand, isMethod, kind, rfl⟩ := hform
    let property := self.down ⟨.properties, i⟩
      (.mk nSpan (.property key value computed shorthand isMethod kind))
    have hu : (purpose property.above).inside = (purpose above).inside :=
      (purpose above).inside_inside
    have htold : property.told =
        property.toldFrom .key 0 [key] + property.toldFrom .value 0 [value] := by
      rw [show property.told = _ from told_of_silent hframes rfl]
      simp [Form.parts, property, Site.down]
    simp only [visitPropertyBindings, List.append_nil] at hbindings ⊢
    simp only [visitInsideProperties, List.append_nil, clean_append] at hinside ⊢
    rw [htold, ← hu] at *
    -- A key is an expression if it is computed and no code otherwise.
    have hkey : Yields (regions above) (if computed then visitOne property .key key else [])
        (property.toldFrom .key 0 [key]) := by
      cases computed with
      | true =>
        refine yields_one property .key hframes rfl ?_ ?_ hinside.1
        · rintro n rfl
          refine h n ?_
          simp at hn
          omega
        · exact fun n _ => ordinary_of_read rfl rfl
      | false =>
        rw [property.toldFrom_eq_zero .key rfl]
        exact .nil
    have hvalue := yieldsBoth_one h property .value (o := value) (by simp at hn; omega)
      ((isCode_frames .value hframes 0).trans rfl) rfl rfl rfl hbindings hinside.2
    exact YieldsBoth.append (.of_inside hkey) hvalue
  · have hother : ∀ key value computed shorthand isMethod kind,
        form ≠ .property key value computed shorthand isMethod kind :=
      fun _ _ _ _ _ _ heq => hform ⟨_, _, _, _, _, _, heq⟩
    rw [visitPropertyBindings_of_not_property hother] at hbindings ⊢
    rw [visitInsideProperties_of_not_property hother] at hinside ⊢
    by_cases hkind : (Node.mk nSpan form).kind = Text.ofString "Property"
    · rw [if_pos hkind] at hbindings
      exact absurd hbindings (not_clean_fault _)
    · rw [if_neg hkind] at hbindings hinside ⊢
      rw [if_neg hkind]
      refine (h _ hn).step hframes rfl rfl ?_ hbindings hinside
      exact fun _ _ _ _ _ _ heq => absurd heq (hother _ _ _ _ _ _)

theorem yieldsBoth_properties {properties ns : List Node} (hcode : isCode above = true)
    (hns : sizeOf ns ≤ k) {i : Nat} :
    let self : Site := ⟨.mk span (.objectPattern properties), above⟩
    Clean (visitPropertyBindings self (purpose above).inside.binding i ns) →
    Clean (visitInsideProperties self i ns) →
    YieldsBoth (regions above) (visitPropertyBindings self (purpose above).inside.binding i ns)
      (visitInsideProperties self i ns) (self.toldFrom .properties i (ns.map some)) := by
  intro self hbindings hinside
  induction ns generalizing i with
  | nil => exact .nil
  | cons n ns ih =>
    simp only [List.cons.sizeOf_spec] at hns
    rw [visitPropertyBindings_cons, clean_append] at hbindings
    rw [visitInsideProperties_cons, clean_append] at hinside
    rw [visitPropertyBindings_cons, visitInsideProperties_cons]
    refine .append ?_ (ih (by omega) hbindings.2 hinside.2)
    exact yieldsBoth_member h hcode (by omega) hbindings.1 hinside.1

end Smaller

section PatternForms

variable {span : Span}

/-- A node of a form that does what its children do is faithful if it is so as a pattern. -/
theorem Node.Faithful.of_pattern {f : Form} (hf : f.isTransparent = true)
    (h : ∀ m : Node, sizeOf m < sizeOf f → m.Faithful)
    (hpattern : ∀ {above}, isCode above = true →
      Clean (visitBindings above (purpose above).inside.binding (.mk span f)) →
      Clean (visitInside above (.mk span f)) →
      YieldsBoth (regions above) (visitBindings above (purpose above).inside.binding (.mk span f))
        (visitInside above (.mk span f)) (Site.told ⟨.mk span f, above⟩)) :
    (Node.mk span f).Faithful where
  visit hcode hordinary hclean :=
    yields_transparent hf (fun _ n hmem => h n (Form.sizeOf_child_lt hmem)) hcode hordinary hclean
  pattern {above} hcode hu _ hbindings hinside := by
    rw [← hu] at hbindings ⊢
    exact hpattern hcode hbindings hinside

theorem Node.Faithful.arrayPattern {elements : List Node}
    (h : ∀ m : Node, sizeOf m < sizeOf (Form.arrayPattern elements) → m.Faithful) :
    (Node.mk span (.arrayPattern elements)).Faithful := by
  refine .of_pattern rfl h fun {above} hcode hbindings hinside => ?_
  rw [told_of_silent hcode rfl]
  simp only [Form.parts, List.map_cons, List.map_nil, List.sum_cons, List.sum_nil, add_zero,
    Part.told_all]
  exact yieldsBoth_elements h hcode (by simp) hbindings hinside

theorem Node.Faithful.objectPattern {properties : List Node}
    (h : ∀ m : Node, sizeOf m < sizeOf (Form.objectPattern properties) → m.Faithful) :
    (Node.mk span (.objectPattern properties)).Faithful := by
  refine .of_pattern rfl h fun {above} hcode hbindings hinside => ?_
  rw [told_of_silent hcode rfl]
  simp only [Form.parts, List.map_cons, List.map_nil, List.sum_cons, List.sum_nil, add_zero,
    Part.told_all]
  exact yieldsBoth_properties h hcode (by simp) hbindings hinside

theorem Node.Faithful.restElement {argument : Option Node}
    (h : ∀ m : Node, sizeOf m < sizeOf (Form.restElement argument) → m.Faithful) :
    (Node.mk span (.restElement argument)).Faithful := by
  refine .of_pattern rfl h fun {above} hcode hbindings hinside => ?_
  rw [told_of_silent hcode rfl]
  simp only [Form.parts, List.map_cons, List.map_nil, List.sum_cons, List.sum_nil, add_zero,
    Part.told_one]
  exact yieldsBoth_one h ⟨_, above⟩ .argument (by simp)
    ((isCode_frames .argument hcode 0).trans rfl)
    rfl rfl rfl hbindings hinside

theorem Node.Faithful.assignmentPattern {left right : Option Node}
    (h : ∀ m : Node, sizeOf m < sizeOf (Form.assignmentPattern left right) → m.Faithful) :
    (Node.mk span (.assignmentPattern left right)).Faithful := by
  refine .of_pattern rfl h fun {above} hcode hbindings hinside => ?_
  let self : Site := ⟨.mk span (.assignmentPattern left right), above⟩
  rw [visitInside, clean_append] at hinside
  have hleft : YieldsBoth (regions above)
      (visitOneBinding self .left (purpose above).inside.binding left)
      (visitInsideOne self .left left) (self.toldFrom .left 0 [left]) :=
    yieldsBoth_one h self .left (by simp; omega) ((isCode_frames .left hcode 0).trans rfl)
      rfl rfl rfl hbindings hinside.1
  have hright : Yields (regions above) (visitOne self .right right)
      (self.toldFrom .right 0 [right]) := by
    refine yields_one self .right hcode rfl ?_ (fun n _ => ordinary_of_read rfl rfl) hinside.2
    rintro n rfl
    exact h n (by simp; omega)
  have hboth := hleft.append (.of_inside hright)
  rw [List.append_nil] at hboth
  rw [told_of_silent hcode rfl]
  simp only [Form.parts, List.map_cons, List.map_nil, List.sum_cons, List.sum_nil, add_zero,
    Part.told_one]
  exact hboth

theorem not_transparent_other {name : Text} {children : List Node} {above : List Frame}
    (hf : (Form.other name children).isTransparent = false) :
    ¬ Clean (visit above (.mk span (.other name children))) := by
  intro hclean
  rw [visit, visitForm] at hclean
  by_cases hname : name = Text.ofString "Identifier"
  · rw [if_pos hname] at hclean
    cases hclean _ (.head _)
  · by_cases hparted : name ∈ partedNames
    · rw [if_neg hname, if_pos hparted] at hclean
      exact not_clean_fault _ hclean
    · simp [Form.isTransparent, hname, hparted] at hf

theorem Node.Faithful.other {name : Text} {children : List Node}
    (h : ∀ m : Node, sizeOf m < sizeOf (Form.other name children) → m.Faithful) :
    (Node.mk span (.other name children)).Faithful := by
  have hvisit : ∀ {above}, isCode above = true →
      Clean (ScopeEvent.visit above (.mk span (.other name children))) →
      Yields (regions above) (ScopeEvent.visit above (.mk span (.other name children)))
        (Site.told ⟨.mk span (.other name children), above⟩) := by
    intro above hcode hclean
    cases hf : (Form.other name children).isTransparent with
    | true =>
      exact yields_transparent hf (fun _ n hmem => h n (Form.sizeOf_child_lt hmem)) hcode trivial
        hclean
    | false => exact absurd hclean (not_transparent_other hf)
  refine ⟨fun hcode _ hclean => hvisit hcode hclean, ?_⟩
  intro above hcode _ _ hbindings hinside
  simp only [visitBindings, visitInside] at hbindings hinside ⊢
  by_cases hname : name = Text.ofString "Identifier"
  · rw [if_pos hname] at hbindings
    exact absurd hbindings (Purpose.not_clean_binding _ rfl)
  · by_cases hpattern : name ∈ patternNames
    · rw [if_neg hname, if_pos hpattern] at hbindings
      exact absurd hbindings (not_clean_fault _)
    · simp only [hname, hpattern, if_false, or_self] at hbindings hinside ⊢
      exact .of_inside (hvisit hcode hinside)

end PatternForms

end ApiTrace
