import ApiTrace.Proofs.Reading.ModuleClauses
import ApiTrace.Proofs.Reading.Order
import ApiTrace.Proofs.Scope.ReadOrder

/-!
# Trees in source order

A concrete tree is in source order (`Concrete.inSourceOrder`) if what is in one part of a node ends
before what is in the next part begins, if the parts that a rule reads one after the other stand in
this order, and if names are not empty. This module says what is read of the parts of such a node
(`Concrete.Parted`), one after the other (`Concrete.Parted.inFields`), if the reads of each of them
ascend.
-/

namespace ApiTrace

namespace Concrete

/-! ## Trees in source order -/

mutual

/-- All nodes of a tree. -/
def heads : Concrete → List Head
  | .mk head children => head :: headsOf children

/-- All nodes of some trees. -/
def headsOf : List Concrete → List Head
  | [] => []
  | c :: cs => c.heads ++ headsOf cs

end

/-- Whether everything in a tree ends before anything in another begins. -/
def before (c d : Concrete) : Bool :=
  c.heads.all fun h => d.heads.all fun h' => h.span.stop ≤ h'.span.start

/-- Whether a node fills a field. -/
def Head.fills (field : String) (h : Head) : Bool := h.field == some field

/-- Whether parts that are read one after the other stand in this order and are different ones. -/
def inSequence (reads : List (Head → Bool)) (parts : List Head) : Bool :=
  decide (reads.Pairwise fun r r' => (parts.all fun h => !(r h && r' h)) = true ∧
    parts.Pairwise fun h h' => (r' h && r h') = false)

/-- The fields that the rule for a kind of node reads one after the other. -/
def readFields : String → List String
  | "if_statement" | "ternary_expression" => ["condition", "consequence", "alternative"]
  | "for_statement" => ["initializer", "condition", "increment", "body"]
  | "for_in_statement" => ["left", "right", "body"]
  | "while_statement" => ["condition", "body"]
  | "do_statement" => ["body", "condition"]
  | "try_statement" => ["body", "handler", "finalizer"]
  | "switch_statement" => ["value", "body"]
  | "variable_declarator" => ["name", "value"]
  | "function_declaration" | "generator_function_declaration" | "function_expression" | "function"
  | "generator_function" => ["parameters", "body"]
  | "arrow_function" => ["parameter", "parameters", "body"]
  | "method_definition" => ["name", "parameters", "body"]
  | "field_definition" => ["property", "value"]
  | "pair" | "pair_pattern" => ["key", "value"]
  | "subscript_expression" => ["object", "index"]
  | "call_expression" => ["function", "arguments"]
  | "new_expression" => ["constructor", "arguments"]
  | "assignment_expression" | "augmented_assignment_expression" | "binary_expression" |
      "assignment_pattern"
  | "object_assignment_pattern" => ["left", "right"]
  | _ => []

/-- Whether the parts of a node fill fields in an order. -/
def fieldsInOrder (fields : List String) (c : Concrete) : Bool :=
  inSequence (fields.map Head.fills) (c.children.map head)

/-- Whether the parts that the rule for a node reads stand in the order in which it reads them. The
clauses of a `try` or `switch` statement are read by the rule of the statement. -/
def readsInOrder (c : Concrete) : Bool :=
  c.fieldsInOrder (readFields c.head.kind) && match c.head.kind with
    | "try_statement" => (c.field? "handler").all (fieldsInOrder ["parameter", "body"])
    | "switch_statement" =>
      (c.field? "body").all fun d => (d.children.filter counts).all
        (fieldsInOrder ["value", "body"])
    | "class_declaration" | "class" =>
      inSequence [Head.isHeritage, Head.fills "body"] (c.children.map head)
    | _ => true

/-- Whether a node that is a name, or the name that it exports, is not empty. -/
def isSharp (c : Concrete) : Bool :=
  (!Phrase.identifierKinds.contains c.head.kind || c.head.span.start < c.head.span.stop) &&
    (c.head.kind != "export_specifier" ||
      (c.field? "name").all fun d => d.head.span.start < d.head.span.stop)

/-- What is asked of each node of a tree in source order. -/
def isOrderly (c : Concrete) : Bool :=
  c.readsInOrder && c.isSharp && decide (c.children.Pairwise fun d e => d.before e = true)

mutual

/-- Whether a tree is in source order. -/
def inSourceOrder : Concrete → Bool
  | .mk head children => isOrderly (.mk head children) && inSourceOrderAll children

/-- Whether trees are in source order, each for itself. -/
def inSourceOrderAll : List Concrete → Bool
  | [] => true
  | c :: cs => c.inSourceOrder && inSourceOrderAll cs

end

/-! ## Zones of trees -/

/-- Where the nodes of a tree begin that are not empty. -/
def zone (c : Concrete) : Zone :=
  fun o => ∃ h ∈ c.heads, h.span.start = o ∧ h.span.start < h.span.stop

/-- The zones of some trees. -/
def zones (cs : List Concrete) : Zone := fun o => ∃ c ∈ cs, c.zone o

variable {src : Source} {c d e : Concrete} {cs ds : List Concrete} {n : Node} {o : Option Node}
    {ns : List Node}
  {field : String}

theorem mem_headsOf {h : Head} : h ∈ headsOf cs ↔ ∃ c ∈ cs, h ∈ c.heads := by
  induction cs with
  | nil => simp [headsOf]
  | cons c cs ih => simp [headsOf, ih]

theorem heads_of_mem (hd : d ∈ c.children) {h : Head} (hh : h ∈ d.heads) : h ∈ c.heads := by
  obtain ⟨head, children⟩ := c
  rw [heads]
  exact .tail _ (mem_headsOf.2 ⟨d, hd, hh⟩)

theorem head_mem_heads (c : Concrete) : c.head ∈ c.heads := by
  obtain ⟨head, children⟩ := c
  rw [heads]
  exact .head _

theorem zone_head (h : c.head.span.start < c.head.span.stop) : c.zone c.head.span.start :=
  ⟨c.head, c.head_mem_heads, rfl, h⟩

theorem zone_sub (h : ∀ x ∈ d.heads, x ∈ c.heads) : d.zone.Sub c.zone :=
  fun _ ⟨x, hx, ho⟩ => ⟨x, h x hx, ho⟩

theorem zone_sub_of_mem (hd : d ∈ c.children) : d.zone.Sub c.zone :=
  zone_sub fun _ hh => heads_of_mem hd hh

theorem zones_sub (h : ds.Sublist c.children) : (zones ds).Sub c.zone :=
  fun o ⟨_, hd, ho⟩ => zone_sub_of_mem (h.subset hd) o ho

theorem before_iff :
    c.before d = true ↔ ∀ h ∈ c.heads, ∀ h' ∈ d.heads, h.span.stop ≤ h'.span.start := by
  simp only [before, List.all_eq_true, decide_eq_true_eq]

theorem zone_before (h : c.before d = true) : c.zone.Before d.zone := by
  rintro _ _ ⟨x, hx, rfl, hne⟩ ⟨y, hy, rfl, -⟩
  exact Nat.lt_of_lt_of_le hne (before_iff.1 h x hx y hy)

/-- Of two parts that are read one after the other the first comes first. -/
theorem before_of_inSequence {reads : List (Head → Bool)} {r r' : Head → Bool}
    (h : inSequence reads (cs.map head) = true) (row : cs.Pairwise fun c d => c.before d = true)
    (hreads : [r, r'].Sublist reads) (hc : c ∈ cs) (hd : d ∈ cs) (hr : r c.head = true)
    (hr' : r' d.head = true) :
    c.before d = true := by
  obtain ⟨hapart, horder⟩ :=
    List.rel_of_pairwise_cons ((of_decide_eq_true h).sublist hreads) (.head _)
  rw [List.pairwise_map] at horder
  -- Of two different trees in a row one comes before the other, and it is not the second part that
  -- comes first.
  let R := fun c d : Concrete => c.before d = true ∧ (r' c.head && r d.head) = false
  have : Std.Symm fun c d => R c d ∨ R d c := ⟨fun _ _ => Or.symm⟩
  have hne : c ≠ d := by
    rintro rfl
    have hboth := List.all_eq_true.1 hapart c.head (List.mem_map_of_mem hc)
    rw [hr, hr'] at hboth
    cases hboth
  have hpairs : cs.Pairwise fun c d => R c d ∨ R d c := (row.and horder).imp Or.inl
  rcases hpairs.forall hc hd hne with h | h
  · exact h.1
  · have hcrossed := h.2
    rw [hr, hr'] at hcrossed
    cases hcrossed

/-! ## Trees whose nodes read in source order -/

/-- A tree in source order of which every node reads in ascending order where the tree is. -/
inductive Even (src : Source) : Concrete → Prop where
  | mk {c : Concrete} (orderly : c.isOrderly = true) (inside : ∀ d ∈ c.children, Even src d)
      (reads : ∀ n, (c.read src).node = .ok (some n) → n.Ascending c.zone) : Even src c

/-- A node in source order whose parts read in ascending order. -/
structure Parted (src : Source) (c : Concrete) : Prop where
  order : c.readsInOrder = true
  sharp : c.isSharp = true
  row : c.children.Pairwise fun d e => d.before e = true
  inside : ∀ d ∈ c.children, Even src d

theorem parted_of_isOrderly (h : c.isOrderly = true) (inside : ∀ d ∈ c.children, Even src d) :
    Parted src c := by
  simp only [isOrderly, Bool.and_eq_true, decide_eq_true_eq] at h
  exact ⟨h.1.1, h.1.2, h.2, inside⟩

theorem Even.parted (h : Even src c) : Parted src c := by
  cases h with
  | mk orderly inside _ => exact parted_of_isOrderly orderly inside

theorem Even.ascendingAll (h : Even src c) (ho : (c.read src).node = .ok o) :
    AscendingAll c.zone o.toList := by
  cases h with
  | mk _ _ reads =>
    cases o with
    | none => exact .nil
    | some n => exact .singleton (reads n ho)

/-- Trees in a row that read in ascending order. -/
structure Row (src : Source) (cs : List Concrete) : Prop where
  even : ∀ c ∈ cs, Even src c
  ordered : cs.Pairwise fun c d => c.before d = true

namespace Row

theorem sublist (h : Row src cs) (hs : ds.Sublist cs) : Row src ds :=
  ⟨fun d hd => h.even d (hs.subset hd), h.ordered.sublist hs⟩

/-- What is read of a row, tree by tree. -/
theorem ascendingAll {α : Type} {f : Reading → Outcome α} {g : α → List Node} (h : Row src cs)
    (hf : ∀ c ∈ cs, Even src c → ∀ a, f (c.read src) = .ok a → AscendingAll c.zone (g a))
    {as : List α} (has : (cs.map (·.read src)).mapM f = .ok as) :
    AscendingAll (zones cs) (as.flatMap g) := by
  induction cs generalizing as with
  | nil =>
    obtain rfl := Except.ok.inj has
    exact .nil
  | cons c cs ih =>
    simp only [List.map_cons, List.mapM_cons, bind_eq_ok, pure_eq_ok] at has
    obtain ⟨a, ha, as, has, rfl⟩ := has
    have hrest := ih (h.sublist (List.sublist_cons_self c cs)) (fun d hd => hf d (.tail _ hd)) has
    refine (hf c (.head _) (h.even c (.head _)) a ha).append hrest ?_ ?_ ?_
    · -- The zone of the first tree lies before the zone of each other one.
      rintro o o' ho ⟨d, hd, ho'⟩
      exact zone_before (List.rel_of_pairwise_cons h.ordered hd) o o' ho ho'
    · exact fun o ho => ⟨c, .head _, ho⟩
    · exact fun o ⟨d, hd, ho⟩ => ⟨d, .tail _ hd, ho⟩

theorem options {f : Reading → Outcome (Option Node)} (h : Row src cs)
    (hf : ∀ c ∈ cs, Even src c → ∀ n, f (c.read src) = .ok (some n) → n.Ascending c.zone)
    {os : List (Option Node)} (hos : (cs.map (·.read src)).mapM f = .ok os) :
    AscendingAll (zones cs) (os.filterMap id) := by
  rw [List.filterMap_eq_flatMap_toList]
  refine h.ascendingAll (g := Option.toList) (fun c hc heven o ho => ?_) hos
  cases o with
  | none => exact .nil
  | some n => exact .singleton (hf c hc heven n ho)

theorem nodesOf (h : Row src cs) (hns : Phrase.nodesOf (cs.map (·.read src)) = .ok ns) :
    AscendingAll (zones cs) ns := by
  obtain ⟨os, hos, rfl⟩ := Phrase.nodesOf_eq_ok hns
  exact h.options (fun c _ heven n hn => (heven.ascendingAll hn).ascending) hos

end Row

/-! ## What stands in a field -/

/-- Where the parts are that fill a field. -/
def fieldZone (c : Concrete) (field : String) : Zone :=
  zones (c.children.filter fun d => d.head.fills field)

theorem fieldZone_sub (c : Concrete) (field : String) : (c.fieldZone field).Sub c.zone :=
  zones_sub List.filter_sublist

theorem mem_of_field? (h : c.field? field = some d) : d ∈ c.children := List.mem_of_find?_eq_some h

theorem zone_sub_fieldZone (h : c.field? field = some d) : d.zone.Sub (c.fieldZone field) := by
  have hfills := List.find?_some h
  exact fun _ ho => ⟨d, List.mem_filter.2 ⟨mem_of_field? h, hfills⟩, ho⟩

namespace Parted

theorem wholeRow (h : Parted src c) : Row src c.children := ⟨h.inside, h.row⟩

/-- What fills a field is even and lies in the zone of the field. -/
theorem child (h : Parted src c) {r : Reading} (hr : (c.read src).phrase.child? field = some r) :
    ∃ d, (Even src d ∧ d.zone.Sub (c.fieldZone field)) ∧ d.read src = r := by
  rw [child?_read] at hr
  obtain ⟨d, hd, rfl⟩ := Option.map_eq_some_iff.1 hr
  exact ⟨d, ⟨h.inside d (mem_of_field? hd), zone_sub_fieldZone hd⟩, rfl⟩

theorem inField (h : Parted src c) (hnone : c.field? field = none → ns = [])
    (hsome : ∀ d, c.field? field = some d → Even src d → AscendingAll d.zone ns) :
    AscendingAll (c.fieldZone field) ns := by
  cases hd : c.field? field with
  | none =>
    rw [hnone hd]
    exact .nil
  | some d => exact (hsome d hd (h.inside d (mem_of_field? hd))).mono (zone_sub_fieldZone hd)

theorem fieldNode (h : Parted src c) (ho : (c.read src).phrase.fieldNode field = .ok o) :
    AscendingAll (c.fieldZone field) o.toList := by
  rw [fieldNode_read, Fills] at ho
  refine h.inField (fun hd => ?_) (fun d hd heven => ?_)
  · rw [hd] at ho
    rw [← Except.ok.inj ho, Option.toList_none]
  · rw [hd] at ho
    exact heven.ascendingAll ho

theorem nodes (h : Parted src c) (hns : (c.read src).phrase.nodes = .ok ns) :
    AscendingAll c.zone ns := by
  rw [Phrase.nodes, named_read] at hns
  exact ((h.wholeRow.sublist List.filter_sublist).nodesOf hns).mono (zones_sub List.filter_sublist)

theorem nodesIn (h : Parted src c)
    (hns : Phrase.nodesIn ((c.read src).phrase.child? field) = .ok ns) :
    AscendingAll (c.fieldZone field) ns := by
  rw [child?_read] at hns
  refine h.inField (fun hd => ?_) (fun d hd heven => ?_)
  · rw [hd] at hns
    exact (Except.ok.inj hns).symm
  · rw [hd] at hns
    exact heven.parted.nodes hns

theorem firstNode (h : Parted src c) (ho : (c.read src).phrase.firstNode = .ok o) :
    AscendingAll c.zone o.toList := by
  rw [Phrase.firstNode, named_read, List.head?_map] at ho
  cases hd : (c.children.filter counts).head? with
  | none =>
    rw [hd] at ho
    obtain rfl := Except.ok.inj ho
    exact .nil
  | some d =>
    rw [hd] at ho
    have hmem := (List.mem_filter.1 (List.mem_of_head? hd)).1
    exact ((h.inside d hmem).ascendingAll ho).mono (zone_sub_of_mem hmem)

theorem inClause (h : Parted src c) {f : Phrase → Outcome (Option Node)}
    (hf : ∀ d, c.field? field = some d → Parted src d → f (d.read src).phrase = .ok o →
      AscendingAll d.zone o.toList)
    (ho : (c.read src).phrase.inClause field f = .ok o) :
    AscendingAll (c.fieldZone field) o.toList := by
  rw [Phrase.inClause, child?_read] at ho
  refine h.inField (fun hd => ?_) (fun d hd heven => ?_)
  · rw [hd] at ho
    rw [← Except.ok.inj ho, Option.toList_none]
  · rw [hd] at ho
    exact hf d hd heven.parted ho

/-- What is read of the parts that count, each by a rule of its own. -/
theorem members (h : Parted src c) {f : Reading → Outcome (Option Node)}
    (hf : ∀ d, Even src d → ∀ n, f (d.read src) = .ok (some n) → n.Ascending d.zone)
    {os : List (Option Node)} (hos : (c.read src).phrase.named.mapM f = .ok os) :
    AscendingAll c.zone (os.filterMap id) := by
  rw [named_read] at hos
  exact ((h.wholeRow.sublist List.filter_sublist).options (fun d _ => hf d) hos).mono
    (zones_sub List.filter_sublist)

/-- What is read of parts one after the other. -/
theorem sequence (h : Parted src c) {reads : List (Head → Bool)}
    (horder : inSequence reads (c.children.map head) = true)
    (parts : List ((Head → Bool) × List Node)) (hreads : (parts.map Prod.fst).Sublist reads)
    (hparts : ∀ part ∈ parts, AscendingAll
      (zones (c.children.filter fun d => part.1 d.head)) part.2) :
    AscendingAll c.zone (parts.flatMap Prod.snd) := by
  have hall : AscendingAll
    (fun o => ∃ part ∈ parts, zones (c.children.filter fun d => part.1 d.head) o)
      (parts.flatMap Prod.snd) := by
    induction parts with
    | nil => exact .nil
    | cons part parts ih =>
      obtain ⟨hpart, hrest⟩ := List.forall_mem_cons.1 hparts
      refine hpart.append (ih ((List.sublist_cons_self _ _).trans hreads) hrest) ?_ ?_ ?_
      · rintro o o' ⟨d, hd, ho⟩ ⟨part', hpart', e, he, ho'⟩
        obtain ⟨hd, hread⟩ := List.mem_filter.1 hd
        obtain ⟨he, hread'⟩ := List.mem_filter.1 he
        have hpair : [part.1, part'.1].Sublist ((part :: parts).map Prod.fst) :=
          (List.singleton_sublist.2 (List.mem_map_of_mem hpart')).cons_cons part.1
        exact zone_before (before_of_inSequence horder h.row (hpair.trans hreads) hd he hread
          hread') o o' ho ho'
      · exact fun o ho => ⟨part, .head _, ho⟩
      · exact fun o ⟨part', hpart', ho⟩ => ⟨part', .tail _ hpart', ho⟩
  exact hall.mono fun o ⟨_, _, ho⟩ => zones_sub List.filter_sublist o ho

/-- What stands in fields that are read one after the other. -/
theorem inFields (h : Parted src c) {fields : List String} (horder : c.fieldsInOrder fields = true)
    (parts : List (String × List Node)) (hfields : (parts.map Prod.fst).Sublist fields)
    (hparts : ∀ part ∈ parts, AscendingAll (c.fieldZone part.1) part.2) :
    AscendingAll c.zone (parts.flatMap Prod.snd) := by
  have hsequence := h.sequence horder (parts.map fun part => (Head.fills part.1, part.2)) ?_ ?_
  · simpa [List.flatMap_map] using hsequence
  · rw [List.map_map]
    have hmap := hfields.map Head.fills
    rwa [List.map_map] at hmap
  · intro _ hmem
    obtain ⟨part, hpart, rfl⟩ := List.mem_map.1 hmem
    exact hparts part hpart

/-- A node whose code stands in such fields. -/
theorem ofFields (h : Parted src c) {fields : List String}
    (horder : c.fieldsInOrder fields = true) {f : Form} (hf : f.identifierName? = none)
    (parts : List (String × List Node)) (hnodes : f.codeNodes = parts.flatMap Prod.snd)
    (hfields : (parts.map Prod.fst).Sublist fields)
    (hparts : ∀ part ∈ parts, AscendingAll (c.fieldZone part.1) part.2) :
    (Node.mk c.head.span f).Ascending c.zone :=
  .of_code hf (hnodes ▸ h.inFields horder parts hfields hparts)

/-- The fields that the rule for the kind of a node reads stand in order. -/
theorem fields (h : Parted src c) {kind : String} (hkind : c.head.kind = kind) :
    c.fieldsInOrder (readFields kind) = true := hkind ▸ (Bool.and_eq_true_iff.1 h.order).1

end Parted

end Concrete

end ApiTrace
