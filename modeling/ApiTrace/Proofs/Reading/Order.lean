import Mathlib.Data.List.Basic
import Mathlib.Data.List.Pairwise
import ApiTrace.Proofs.Reading.Rules
import ApiTrace.Proofs.Scope.Blocks

/-!
# Concrete trees in source order

What is asked of a concrete tree so that a node of its program keeps to the place of the concrete
node that it is read from. The parts of a concrete node lie in its span one after the other, a
method has its parameters before its body (`Concrete.Head.inOrder`), and what becomes the parts of
one scope is not mixed with what lies outside of it (`Concrete.Head.keepsApart`).

* `Reading.Sound` says of a reading that it comes from such a tree and that the nodes read so far
  keep to their places,
* `Reading.Row` says so of readings in a row, whose nodes keep to places that have no offset in
  common,
* `Phrase.fieldZone` is where the children in a field are; different fields are in different places.
-/

namespace ApiTrace

/-! ## Order of concrete trees -/

namespace Concrete

/-- Whether nodes lie one after the other between two offsets. -/
def follow (stop : Nat) : Nat → List Head → Bool
  | start, [] => start ≤ stop
  | start, h :: hs =>
    start ≤ h.span.start && h.span.start ≤ h.span.stop && follow stop h.span.stop hs

/-- The first of some nodes that fills a field. -/
def inField? (heads : List Head) (field : String) : Option Head :=
  heads.find? (·.field == some field)

namespace Head

/-- Whether the parts of a node lie in it in source order, and a method has parameters and then a
body. -/
def inOrder (head : Head) (parts : List Head) : Bool :=
  follow head.span.stop head.span.start parts &&
    match head.kind with
    | "method_definition" =>
      match inField? parts "parameters", inField? parts "body" with
      | some params, some body => params.span.stop ≤ body.span.start
      | _, _ => false
    | _ => true

/-- Whether a node is a heritage clause of its class. -/
def isHeritage (head : Head) : Bool := head.named && head.kind == "class_heritage"

/-- Whether the computed name of a method does not lie between its parameters and its body, and the
heritage clause of a class, the last one if there are several, is not its body as well. -/
def keepsApart (head : Head) (parts : List Head) : Bool :=
  match head.kind with
  | "method_definition" =>
    match inField? parts "name", inField? parts "parameters", inField? parts "body" with
    | some name, some params, some body =>
      name.kind != "computed_property_name" || name.span.stop ≤ params.span.start
        || body.span.stop ≤ name.span.start
    | _, _, _ => true
  | "class_declaration" | "class" =>
    match inField? parts "body", (parts.filter isHeritage).getLast? with
    | some body, some clause => body != clause
    | _, _ => true
  | _ => true

end Head

mutual

/-- Whether something is so of every node of a tree and its parts. -/
def every (p : Head → List Head → Bool) : Concrete → Bool
  | .mk head children => p head (children.map Concrete.head) && everyOf p children

/-- Whether something is so of every node of some trees and its parts. -/
def everyOf (p : Head → List Head → Bool) : List Concrete → Bool
  | [] => true
  | c :: cs => c.every p && everyOf p cs

end

theorem follow_spec {stop start : Nat} {heads : List Head} (h : follow stop start heads = true) :
    heads.Pairwise (fun h h' => h.span.stop ≤ h'.span.start) ∧
      ∀ h ∈ heads, start ≤ h.span.start ∧ h.span.start ≤ h.span.stop ∧ h.span.stop ≤ stop := by
  induction heads generalizing start with
  | nil => exact ⟨.nil, List.forall_mem_nil _⟩
  | cons head heads ih =>
    simp only [follow, Bool.and_eq_true, decide_eq_true_eq] at h
    obtain ⟨hpairwise, hbounds⟩ := ih h.2
    have hstop : head.span.stop ≤ stop := by
      cases heads with
      | nil => simpa [follow] using h.2
      | cons next rest =>
        have := hbounds next (.head _)
        omega
    refine ⟨.cons (fun h' hh' => (hbounds h' hh').1) hpairwise, ?_⟩
    refine List.forall_mem_cons.2 ⟨⟨h.1.1, h.1.2, hstop⟩, fun h' hh' => ?_⟩
    have := hbounds h' hh'
    omega

end Concrete

theorem Span.zone_apart {s s' : Span} (h : s.stop ≤ s'.start) : s.zone.Apart s'.zone := by
  intro o ho ho'
  have h₁ := ho.2
  have h₂ := ho'.1
  omega

/-! ## Readings in a row -/

theorem Phrase.nodesOf_eq_ok {rs : List Reading} {ns : List Node} (h : nodesOf rs = .ok ns) :
    ∃ os, rs.mapM Reading.node = .ok os ∧ ns = os.filterMap id := by
  induction rs generalizing ns with
  | nil => exact ⟨[], rfl, (Except.ok.inj h).symm⟩
  | cons r rs ih =>
    simp only [nodesOf, bind_eq_ok, pure_eq_ok] at h
    obtain ⟨o, ho, ns, hns, rfl⟩ := h
    obtain ⟨os, hos, rfl⟩ := ih hns
    refine ⟨o :: os, ?_, ?_⟩
    · simp only [List.mapM_cons, bind_eq_ok, pure_eq_ok]
      exact ⟨o, ho, os, hos, rfl⟩
    · cases o <;> rfl

namespace Reading

/-- The offsets of some readings. -/
def zones (rs : List Reading) : Zone := fun o => ∃ r ∈ rs, r.span.zone o

theorem zone_sub_zones {rs : List Reading} {r : Reading} (h : r ∈ rs) :
    r.span.zone.Sub (zones rs) :=
  fun _ ho => ⟨r, h, ho⟩

theorem zones_sub {rs rs' : List Reading} (h : rs ⊆ rs') : (zones rs).Sub (zones rs') :=
  fun _ ⟨r, hr, ho⟩ => ⟨r, h hr, ho⟩

/-- A reading of a tree in source order whose nodes keep to their places. -/
inductive Sound : Reading → Prop where
  | mk {head : Concrete.Head} {children : List Reading} {node : Outcome (Option Node)}
      (order : head.inOrder (children.map (·.phrase.head)) = true)
      (apart : head.keepsApart (children.map (·.phrase.head)) = true)
      (sound : ∀ r ∈ children, Sound r)
      (placed : ∀ n, node = .ok (some n) → n.Placed head.span.zone) :
      Sound (.mk head children node)

/-- Sound readings that have no offset in common. -/
structure Row (rs : List Reading) : Prop where
  sound : ∀ r ∈ rs, r.Sound
  apart : rs.Pairwise fun r r' => r.span.zone.Apart r'.span.zone

theorem Sound.placed {r : Reading} (h : r.Sound) {n : Node} (hn : r.node = .ok (some n)) :
    n.Placed r.span.zone := by
  cases h with
  | mk _ _ _ placed => exact placed n hn

theorem Sound.placedAll {r : Reading} (h : r.Sound) {o : Option Node} (ho : r.node = .ok o) :
    PlacedAll r.span.zone o.toList := by
  cases o with
  | none => exact .nil
  | some n => exact .singleton (h.placed ho)

namespace Row

variable {rs rs' : List Reading}

theorem sublist (h : Row rs) (hs : rs'.Sublist rs) : Row rs' :=
  ⟨fun r hr => h.sound r (hs.subset hr), h.apart.sublist hs⟩

theorem head_apart {r : Reading} (h : Row (r :: rs)) : r.span.zone.Apart (zones rs) := by
  rintro o ho ⟨r', hr', ho'⟩
  exact List.rel_of_pairwise_cons h.apart hr' o ho ho'

/-- Two different readings of a row have no offset in common. -/
theorem apart_of_ne (h : Row rs) {r r' : Reading} (hr : r ∈ rs) (hr' : r' ∈ rs) (hne : r ≠ r') :
    r.span.zone.Apart r'.span.zone := by
  have : Std.Symm fun r r' : Reading => r.span.zone.Apart r'.span.zone :=
    ⟨fun _ _ => Zone.Apart.symm⟩
  exact h.apart.forall hr hr' hne

/-- What is read of a row, reading by reading, keeps to the places of the readings. -/
theorem placedAll {α : Type} {f : Reading → Outcome α} {g : α → List Node} (h : Row rs)
    (hf : ∀ r ∈ rs, ∀ a, f r = .ok a → PlacedAll r.span.zone (g a)) {as : List α}
    (has : rs.mapM f = .ok as) : PlacedAll (zones rs) (as.flatMap g) := by
  induction rs generalizing as with
  | nil =>
    obtain rfl := Except.ok.inj has
    exact .nil
  | cons r rs ih =>
    simp only [List.mapM_cons, bind_eq_ok, pure_eq_ok] at has
    obtain ⟨a, ha, as, has, rfl⟩ := has
    have hrest :=
      ih (h.sublist (List.sublist_cons_self r rs)) (fun r' hr' => hf r' (.tail _ hr')) has
    exact (hf r (.head _) a ha).append hrest h.head_apart (zone_sub_zones (.head _))
      (zones_sub (List.subset_cons_self r rs))

theorem placedAll_options {f : Reading → Outcome (Option Node)} (h : Row rs)
    (hf : ∀ r ∈ rs, ∀ n, f r = .ok (some n) → n.Placed r.span.zone) {os : List (Option Node)}
    (hos : rs.mapM f = .ok os) : PlacedAll (zones rs) (os.filterMap id) := by
  have hnodes := h.placedAll (g := Option.toList) (fun r hr o ho => ?_) hos
  · rw [List.filterMap_eq_flatMap_toList]
    exact hnodes
  · cases o with
    | none => exact .nil
    | some n => exact .singleton (hf r hr n ho)

theorem placedAll_nodesOf (h : Row rs) {ns : List Node} (hns : Phrase.nodesOf rs = .ok ns) :
    PlacedAll (zones rs) ns := by
  obtain ⟨os, hos, rfl⟩ := Phrase.nodesOf_eq_ok hns
  exact h.placedAll_options (fun r hr n hn => (h.sound r hr).placed hn) hos

end Row

end Reading

/-! ## Fields -/

/-- A phrase in source order whose children are sound. -/
structure Phrase.Sound (p : Phrase) : Prop where
  order : p.head.inOrder (p.children.map (·.phrase.head)) = true
  apart : p.head.keepsApart (p.children.map (·.phrase.head)) = true
  sound : ∀ r ∈ p.children, r.Sound

theorem Reading.Sound.phrase {r : Reading} (h : r.Sound) : r.phrase.Sound := by
  cases h with
  | mk order apart sound _ => exact ⟨order, apart, sound⟩

namespace Phrase

/-- Where the children in a field are. -/
def fieldZone (p : Phrase) (field : String) : Zone := Reading.zones (p.childrenIn field)

/-- What becomes of the child in a field, if there is one. -/
def inClause (p : Phrase) (field : String) (f : Phrase → Outcome (Option Node)) :
    Outcome (Option Node) :=
  match p.child? field with
  | some clause => f clause.phrase
  | none => pure none

theorem mem_childrenIn {p : Phrase} {field : String} {r : Reading} (h : p.child? field = some r) :
    r ∈ p.childrenIn field := by
  have hfield := List.find?_some h
  exact List.mem_filter.2 ⟨List.mem_of_find?_eq_some h, hfield⟩

namespace Sound

variable {p : Phrase} {field : String}

theorem follow (h : p.Sound) : Concrete.follow p.span.stop p.span.start
    (p.children.map (·.phrase.head)) = true :=
  (Bool.and_eq_true_iff.1 h.order).1

theorem row (h : p.Sound) : Reading.Row p.children := by
  have hpairwise := (Concrete.follow_spec h.follow).1
  rw [List.pairwise_map] at hpairwise
  exact ⟨h.sound, hpairwise.imp fun hle => Span.zone_apart hle⟩

theorem zones_sub (h : p.Sound) : (Reading.zones p.children).Sub p.span.zone := by
  rintro o ⟨r, hr, hstart, hstop⟩
  have hbounds := (Concrete.follow_spec h.follow).2 _ (List.mem_map_of_mem hr)
  exact ⟨Nat.le_trans hbounds.1 hstart, Nat.lt_of_lt_of_le hstop hbounds.2.2⟩

theorem zones_sub_of_sublist (h : p.Sound) {rs : List Reading} (hs : rs.Sublist p.children) :
    (Reading.zones rs).Sub p.span.zone :=
  (Reading.zones_sub hs.subset).trans h.zones_sub

theorem fieldZone_sub (h : p.Sound) (field : String) : (p.fieldZone field).Sub p.span.zone :=
  h.zones_sub_of_sublist List.filter_sublist

theorem fieldZone_apart (h : p.Sound) {field' : String} (hne : field ≠ field') :
    (p.fieldZone field).Apart (p.fieldZone field') := by
  rintro o ⟨r, hr, ho⟩ ⟨r', hr', ho'⟩
  obtain ⟨hmem, hfield⟩ := List.mem_filter.1 hr
  obtain ⟨hmem', hfield'⟩ := List.mem_filter.1 hr'
  refine h.row.apart_of_ne hmem hmem' ?_ o ho ho'
  rintro rfl
  rw [beq_iff_eq] at hfield hfield'
  exact hne (Option.some.inj (hfield.symm.trans hfield'))

theorem child (h : p.Sound) {r : Reading} (hr : p.child? field = some r) : r.Sound :=
  h.sound r (List.mem_of_find?_eq_some hr)

theorem child_sub {r : Reading} (hr : p.child? field = some r) :
    r.span.zone.Sub (p.fieldZone field) :=
  Reading.zone_sub_zones (mem_childrenIn hr)

/-! ### What stands in a field -/

theorem inChild (h : p.Sound) {ns : List Node} (hnone : p.child? field = none → ns = [])
    (hsome : ∀ r, p.child? field = some r → r.Sound → PlacedAll r.span.zone ns) :
    PlacedAll (p.fieldZone field) ns := by
  cases hr : p.child? field with
  | none =>
    rw [hnone hr]
    exact .nil
  | some r => exact (hsome r hr (h.child hr)).mono (child_sub hr)

theorem fieldNode (h : p.Sound) {o : Option Node} (ho : p.fieldNode field = .ok o) :
    PlacedAll (p.fieldZone field) o.toList := by
  unfold Phrase.fieldNode at ho
  refine h.inChild (fun hr => ?_) (fun r hr hsound => ?_)
  · rw [hr] at ho
    rw [← Except.ok.inj ho, Option.toList_none]
  · rw [hr] at ho
    exact hsound.placedAll ho

theorem nodes (h : p.Sound) {ns : List Node} (hns : p.nodes = .ok ns) : PlacedAll p.span.zone ns :=
  ((h.row.sublist List.filter_sublist).placedAll_nodesOf hns).mono
    (h.zones_sub_of_sublist List.filter_sublist)

/-- What is read of the children that count, each by a rule that keeps to the place of the child. -/
theorem members (h : p.Sound) {f : Reading → Outcome (Option Node)}
    (hf : ∀ {r n}, r.Sound → f r = .ok (some n) → n.Placed r.span.zone)
    {members : List (Option Node)} (hmembers : p.named.mapM f = .ok members) :
    PlacedAll p.span.zone (members.filterMap id) :=
  ((h.row.sublist List.filter_sublist).placedAll_options
    (fun r hr _ hn => hf (h.sound r (List.mem_filter.1 hr).1) hn) hmembers).mono
    (h.zones_sub_of_sublist List.filter_sublist)

theorem firstNode (h : p.Sound) {o : Option Node} (ho : p.firstNode = .ok o) :
    PlacedAll p.span.zone o.toList := by
  unfold Phrase.firstNode at ho
  cases hr : p.named.head? with
  | none =>
    rw [hr] at ho
    obtain rfl := Except.ok.inj ho
    exact .nil
  | some r =>
    rw [hr] at ho
    have hmem := (List.mem_filter.1 (List.mem_of_head? hr)).1
    exact ((h.sound r hmem).placedAll ho).mono ((Reading.zone_sub_zones hmem).trans h.zones_sub)

theorem nodesIn (h : p.Sound) {ns : List Node} (hns : nodesIn (p.child? field) = .ok ns) :
    PlacedAll (p.fieldZone field) ns := by
  refine h.inChild (fun hr => ?_) (fun r hr hsound => ?_)
  · rw [hr] at hns
    exact (Except.ok.inj hns).symm
  · rw [hr] at hns
    exact hsound.phrase.nodes hns

theorem inClause (h : p.Sound) {f : Phrase → Outcome (Option Node)} {o : Option Node}
    (hf : ∀ q : Phrase, q.Sound → f q = .ok o → PlacedAll q.span.zone o.toList)
    (ho : p.inClause field f = .ok o) : PlacedAll (p.fieldZone field) o.toList := by
  unfold Phrase.inClause at ho
  refine h.inChild (fun hr => ?_) (fun r hr hsound => ?_)
  · rw [hr] at ho
    rw [← Except.ok.inj ho, Option.toList_none]
  · rw [hr] at ho
    exact hf r.phrase hsound.phrase ho

/-- What stands in different fields, in any order of the fields. -/
theorem fields (h : p.Sound) (parts : List (String × List Node))
    (hnodup : (parts.map Prod.fst).Nodup)
    (hparts : ∀ part ∈ parts, PlacedAll (p.fieldZone part.1) part.2) :
    PlacedAll p.span.zone (parts.flatMap Prod.snd) := by
  have hall : PlacedAll (fun o => ∃ part ∈ parts, p.fieldZone part.1 o)
      (parts.flatMap Prod.snd) := by
    induction parts with
    | nil => exact .nil
    | cons part parts ih =>
      obtain ⟨hnew, hnodup⟩ := List.nodup_cons.1 hnodup
      obtain ⟨hpart, hparts⟩ := List.forall_mem_cons.1 hparts
      refine hpart.append (ih hnodup hparts) ?_ ?_ ?_
      · rintro o ho ⟨part', hpart', ho'⟩
        refine h.fieldZone_apart ?_ o ho ho'
        rintro heq
        exact hnew (List.mem_map.2 ⟨part', hpart', heq.symm⟩)
      · exact fun o ho => ⟨part, .head _, ho⟩
      · exact fun o ⟨part', hpart', ho⟩ => ⟨part', .tail _ hpart', ho⟩
  exact hall.mono fun o ⟨part, _, ho⟩ => h.fieldZone_sub part.1 o ho

/-- A form that does what its children do, which stand in different fields. -/
theorem generic (h : p.Sound) {f : Form} (hf : (f.isGeneric && f.isPlain && !f.isPattern) = true)
    (parts : List (String × List Node)) (hnodes : f.childNodes = parts.flatMap Prod.snd)
    (hnodup : (parts.map Prod.fst).Nodup)
    (hparts : ∀ part ∈ parts, PlacedAll (p.fieldZone part.1) part.2) :
    (p.build f).Placed p.span.zone := by
  refine .generic hf ?_
  rw [hnodes]
  exact h.fields parts hnodup hparts

end Sound

end Phrase

end ApiTrace
