import Mathlib.Logic.Relation
import ApiTrace.Proofs.Reading.Shape
import ApiTrace.Proofs.Scope.Occurrences
import ApiTrace.Proofs.Scope.Resolution

/-!
# Programs as trees

The places of a program are those of a proper tree (`Site.IsTree`): a walk comes to each of them
once and to parents before children, and the parent that a walk sets for a place is the only one
that has it as a child. In the program of a concrete tree whose spans nest (`Concrete.Head.nests`),
every node lies in the span of its parent, unless it is a program that covers the source wherever it
stands (`Node.LiesIn`).
-/

namespace ApiTrace

/-! ## Parents -/

namespace Site

variable {s p q c d : Site}

theorem mem_walk_iff (s x : Site) :
    x ∈ s.walk ↔ Relation.ReflTransGen (fun p c => c ∈ p.children) s x := by
  constructor
  · exact walk_induction .refl fun p _ hp c hc => hp.tail hc
  · intro h
    induction h with
    | refl => exact s.mem_walk_self
    | tail _ hc ih => exact mem_walk_trans ih (mem_walk_of_child hc (mem_walk_self _))

theorem walk_sublist (hp : p ∈ s.walk) : p.walk.Sublist s.walk := by
  refine walk_induction (P := fun p => p.walk.Sublist s.walk) (.refl _) (fun p _ hp c hc => ?_) hp
  refine List.Sublist.trans ?_ hp
  rw [p.walk_eq]
  exact .cons _ (List.sublist_flatten_of_mem (List.mem_map_of_mem hc))

/-- A walk comes to a place before it comes to the children of the place. -/
theorem parent_before_child (hp : p ∈ s.walk) (hc : c ∈ p.children) : [p, c].Sublist s.walk := by
  refine List.Sublist.trans ?_ (walk_sublist hp)
  rw [p.walk_eq]
  exact .cons_cons _ (List.singleton_sublist.2 (List.mem_flatMap.2 ⟨c, hc, c.mem_walk_self⟩))

theorem path_of_child (hc : c ∈ p.children) : ∃ slot, c.path = slot :: p.path := by
  obtain ⟨⟨slot, n⟩, -, rfl⟩ := List.mem_map.1 hc
  exact ⟨slot, rfl⟩

/-- No two places of a walk have the same child. -/
theorem eq_of_same_child (hp : p ∈ s.walk) (hq : q ∈ s.walk) (hc : c ∈ p.children)
    (hd : d ∈ q.children) (hpath : d.path = c.path) : q = p := by
  obtain ⟨slot, hslot⟩ := path_of_child hc
  obtain ⟨slot', hslot'⟩ := path_of_child hd
  rw [hslot, hslot'] at hpath
  exact List.inj_on_of_nodup_map s.nodup_paths hq hp (List.cons.inj hpath).2

/-- After some links are set, a place has the parent that it had before or one that a link sets for
it. -/
theorem foldl_link (links : List (Site × Site)) (parents : List Slot → Option Site)
    (path : List Slot) :
    (links.foldl link parents path = parents path ∧ ∀ l ∈ links, l.1.path ≠ path) ∨
      ∃ l ∈ links, l.1.path = path ∧ links.foldl link parents path = some l.2 := by
  induction links generalizing parents with
  | nil => exact .inl ⟨rfl, List.forall_mem_nil _⟩
  | cons l links ih =>
    rcases ih (link parents l) with ⟨hsame, hother⟩ | ⟨l', hl', hpath, hset⟩
    · by_cases hpath : path = l.1.path
      · exact .inr ⟨l, .head _, hpath.symm, hsame.trans (if_pos hpath)⟩
      · exact .inl ⟨hsame.trans (if_neg hpath), List.forall_mem_cons.2 ⟨Ne.symm hpath, hother⟩⟩
    · exact .inr ⟨l', .tail _ hl', hpath, hset⟩

theorem mem_links {l : Site × Site} : l ∈ s.links ↔ l.2 ∈ s.walk ∧ l.1 ∈ l.2.children := by
  obtain ⟨c, p⟩ := l
  simp [links]

theorem linkParents_child (hp : p ∈ s.walk) (hc : c ∈ p.children) :
    s.linkParents c.path = some p := by
  rcases foldl_link s.links (fun _ => none) c.path with ⟨-, hother⟩ | ⟨l, hl, hpath, hset⟩
  · exact absurd rfl (hother (c, p) (mem_links.2 ⟨hp, hc⟩))
  · obtain ⟨hq, hd⟩ := mem_links.1 hl
    rw [linkParents, hset, eq_of_same_child hp hq hc hd hpath]

theorem linkParents_nil (s : Site) : s.linkParents [] = none := by
  rcases foldl_link s.links (fun _ => none) [] with ⟨hsame, -⟩ | ⟨l, hl, hpath, -⟩
  · exact hsame
  · obtain ⟨slot, hslot⟩ := path_of_child (mem_links.1 hl).2
    cases hslot.symm.trans hpath

/-- The parent that a walk from the root sets for a place is the one that the place knows. -/
theorem linkParents_eq {n : Node} {x : Site} (hx : x ∈ (root n).walk) :
    (root n).linkParents x.path = x.parent? := by
  rcases Relation.ReflTransGen.cases_tail ((mem_walk_iff _ x).1 hx) with rfl | ⟨p, hp, hc⟩
  · exact linkParents_nil _
  · rw [linkParents_child ((mem_walk_iff _ p).2 hp) hc]
    obtain ⟨⟨slot, n⟩, -, rfl⟩ := List.mem_map.1 hc
    rfl

end Site

/-- That a site is the top of a proper tree. -/
structure Site.IsTree (top : Site) : Prop where
  /-- The walk with a stack is the recursive one. -/
  preorder : top.walk = top.preorder
  /-- It comes to every place. -/
  complete : ∀ s, s ∈ top.walk ↔ Relation.ReflTransGen (fun p c => c ∈ p.children) top s
  /-- It comes to no place twice. -/
  once : (top.walk.map Site.path).Nodup
  /-- Every place but the top has as its parent the one place that has it as a child, which comes
  before it. -/
  parent : ∀ s ∈ top.walk, s ≠ top → ∃ p ∈ top.walk, top.linkParents s.path = some p ∧
    s ∈ p.children ∧
    (∀ q ∈ top.walk, ∀ c ∈ q.children, c.path = s.path → q = p) ∧ [p, s].Sublist top.walk

theorem Site.isTree (top : Site) : top.IsTree where
  preorder := top.walk_eq_preorder
  complete := top.mem_walk_iff
  once := top.nodup_paths
  parent s hs hne := by
    rcases Relation.ReflTransGen.cases_tail ((mem_walk_iff _ s).1 hs) with heq | ⟨p, hp, hc⟩
    · exact absurd heq hne
    · have hp := (mem_walk_iff _ p).2 hp
      exact ⟨p, hp, linkParents_child hp hc, hc, fun q hq c hd => eq_of_same_child hp hq hc hd,
        parent_before_child hp hc⟩

/-! ## Nested spans -/

/-- That a span lies in another one. -/
def Span.Within (s s' : Span) : Prop := s'.start ≤ s.start ∧ s.stop ≤ s'.stop

namespace Concrete

/-- Whether what fills one field ends before what fills another one begins, if both are filled. -/
def fieldBefore (field field' : String) (parts : List Head) : Bool :=
  match inField? parts field, inField? parts field' with
  | some h, some h' => h.span.stop ≤ h'.span.start
  | _, _ => true

/-- Whether the parts of a node lie in it one after the other, the keyword of a loop over members
before its variable and the parameters of a method before its body. -/
def Head.nests (head : Head) (parts : List Head) : Bool :=
  follow head.span.stop head.span.start parts &&
    match head.kind with
    | "for_in_statement" => fieldBefore "kind" "left" parts
    | "method_definition" => fieldBefore "parameters" "body" parts
    | _ => true

theorem every_child {P : Head → List Head → Bool} {c d : Concrete} (h : c.every P = true)
    (hd : d ∈ c.children) :
    d.every P = true := by
  obtain ⟨head, children⟩ := c
  replace h := (Bool.and_eq_true_iff.1 h).2
  induction children with
  | nil => cases hd
  | cons c cs ih =>
    obtain ⟨hc, hcs⟩ := Bool.and_eq_true_iff.1 h
    rcases List.mem_cons.1 hd with rfl | hd
    · exact hc
    · exact ih hd hcs

end Concrete

/-- Whether a node is a program. -/
def Node.isProgram (n : Node) : Bool :=
  match n.form with
  | .program .. => true
  | _ => false

/-- That a node lies in a span or is a program. -/
def Node.LiesIn (src : Source) (s : Span) (n : Node) : Prop :=
  n.span.Within s ∨ n.isProgram = true ∧ n.span = src.span

/-- A tree in which every node lies in its parent, unless it is a program. -/
inductive Node.Nested (src : Source) : Node → Prop where
  | mk {span : Span} {f : Form} (liesIn : ∀ p ∈ f.parts, ∀ n ∈ p.nodes, n.LiesIn src span)
      (nested : ∀ p ∈ f.parts, ∀ n ∈ p.nodes, Nested src n) : Nested src (Node.mk span f)

namespace Node.Nested

variable {src : Source}

theorem child {p c : Site} (h : p.node.Nested src) (hc : c ∈ p.children) :
    c.node.Nested src ∧ c.node.LiesIn src p.span := by
  obtain ⟨⟨slot, n⟩, hn, rfl⟩ := List.mem_map.1 hc
  obtain ⟨part, hpart, -, hmem⟩ := Form.exists_part hn
  obtain ⟨⟨span, f⟩, above⟩ := p
  cases h with
  | mk liesIn nested => exact ⟨nested part hpart n hmem, liesIn part hpart n hmem⟩

theorem of_mem_walk {n : Node} (h : n.Nested src) {x : Site} (hx : x ∈ (Site.root n).walk) :
    x.node.Nested src :=
  Site.walk_induction (P := fun x => x.node.Nested src) h (fun _ _ hp _ hc => (hp.child hc).1) hx

end Node.Nested

/-- Being nested, in a span that the node lies in, is kept by all rules. -/
def Reading.Invariant.nesting (src : Source) : Invariant src where
  names _ := true
  within := Span.Within
  holds s n := n.Nested src ∧ n.LiesIn src s
  widen hs h := ⟨h.1, h.2.imp_left fun hn => ⟨Nat.le_trans hs.1 hn.1, Nat.le_trans hn.2 hs.2⟩⟩
  build _ h := ⟨.mk (fun p hp n hn => (h p hp n hn).2) (fun p hp n hn => (h p hp n hn).1),
    .inl ⟨Nat.le_refl _, Nat.le_refl _⟩⟩
  program h := ⟨h.1, .inr ⟨rfl, rfl⟩⟩

namespace Concrete

variable {src : Source} {head : Head} {parts : List Head}

theorem Head.splices_within (h : head.nests parts = true) {splice : Span × List Head}
    (hs : splice ∈ head.splices parts) :
    splice.1.Within head.span ∧ ∀ h ∈ splice.2, h.span.Within splice.1 := by
  obtain ⟨hfollow, hfields⟩ := Bool.and_eq_true_iff.1 h
  have hbounds : ∀ {field part}, inField? parts field = some part →
      head.span.start ≤ part.span.start ∧
      part.span.start ≤ part.span.stop ∧ part.span.stop ≤ head.span.stop :=
    fun hpart => (follow_spec hfollow).2 _ (List.mem_of_find?_eq_some hpart)
  unfold splices at hs
  split at hs
  · rename_i hkind
    simp only [hkind, fieldBefore] at hfields
    split at hs
    · rename_i keyword left hkeyword hleft
      simp only [hkeyword, hleft, decide_eq_true_eq] at hfields
      obtain rfl := List.mem_singleton.1 hs
      have hk := hbounds hkeyword
      have hl := hbounds hleft
      refine ⟨⟨hk.1, hl.2.2⟩, List.forall_mem_singleton.2 ⟨?_, Nat.le_refl _⟩⟩
      exact Nat.le_trans hk.2.1 hfields
    · cases hs
  · rename_i hkind
    simp only [hkind, fieldBefore] at hfields
    obtain rfl := List.mem_singleton.1 hs
    cases hparams : inField? parts "parameters" with
    | none =>
      cases hbody : inField? parts "body" with
      | none => exact ⟨⟨Nat.le_refl _, Nat.le_refl _⟩, List.forall_mem_nil _⟩
      | some body =>
        have hb := hbounds hbody
        exact ⟨⟨Nat.le_refl _, hb.2.2⟩, List.forall_mem_singleton.2 ⟨hb.1, Nat.le_refl _⟩⟩
    | some params =>
      have hp := hbounds hparams
      cases hbody : inField? parts "body" with
      | none => exact ⟨⟨hp.1, Nat.le_refl _⟩, List.forall_mem_singleton.2 ⟨Nat.le_refl _, hp.2.2⟩⟩
      | some body =>
        have hb := hbounds hbody
        simp only [hparams, hbody, decide_eq_true_eq] at hfields
        refine ⟨⟨hp.1, hb.2.2⟩, List.forall_mem_cons.2
          ⟨⟨Nat.le_refl _, ?_⟩, List.forall_mem_singleton.2 ⟨?_, Nat.le_refl _⟩⟩⟩
        · exact Nat.le_trans hfields hb.2.1
        · exact Nat.le_trans hp.2.1 hfields
  · cases hs

theorem Head.nests_fits (h : head.nests parts = true)
    (hsource : head.span.stop ≤ src.bytes.length) :
    (Reading.Invariant.nesting src).Fits head parts where
  unruled _ := rfl
  source := ⟨Nat.zero_le _, hsource⟩
  inside part hpart :=
    have hbounds := (follow_spec (Bool.and_eq_true_iff.1 h).1).2 part hpart
    ⟨hbounds.1, hbounds.2.2⟩
  spliced _ hs := splices_within h hs

end Concrete

/-- The program of a concrete tree whose spans nest is nested. -/
theorem Node.ofConcrete_nested {src : Source} {sourceType : Option Text} {root : Concrete}
    {program : Node} (hnests : root.every Concrete.Head.nests = true)
    (hsource : root.head.span.stop ≤ src.bytes.length)
    (h : Node.ofConcrete src sourceType root = .ok program) : program.Nested src := by
  have hkeeps : (root.read src).Keeps (.nesting src) := by
    refine Concrete.keeps_read
      (Q := fun c => c.every Concrete.Head.nests = true ∧ c.head.span.stop ≤ src.bytes.length)
      (fun c hc => ?_) (fun c hc d hd => ?_) root ⟨hnests, hsource⟩
    · obtain ⟨head, children⟩ := c
      exact Concrete.Head.nests_fits (Bool.and_eq_true_iff.1 hc.1).1 hc.2
    · refine ⟨Concrete.every_child hc.1 hd, ?_⟩
      obtain ⟨head, children⟩ := c
      have hfits := Concrete.Head.nests_fits (Bool.and_eq_true_iff.1 hc.1).1 hc.2
      exact Nat.le_trans (hfits.inside _ (List.mem_map_of_mem hd)).2 hc.2
  obtain ⟨head, children⟩ := root
  exact (hkeeps.phrase.program h).1

/-- **Programs are proper trees with nested spans.** Let a concrete tree lie in its source, with
nested spans. The places of its program are those of a proper tree, and every node of the program
lies in the span of its parent, unless it is a program itself and covers the source. -/
theorem Node.tree_of_concrete {src : Source} {sourceType : Option Text} {root : Concrete}
    {program : Node} (hnests : root.every Concrete.Head.nests = true)
    (hsource : root.head.span.stop ≤ src.bytes.length)
    (h : Node.ofConcrete src sourceType root = .ok program) :
    (Site.root program).IsTree ∧
      ∀ s ∈ (Site.root program).walk, ∀ p, (Site.root program).linkParents s.path = some p →
      s.node.LiesIn src p.span := by
  refine ⟨(Site.root program).isTree, fun s hs p hp => ?_⟩
  rw [Site.linkParents_eq hs] at hp
  rcases Site.parent_of_mem_walk hs hp with rfl | ⟨hwalk, hchild⟩
  · cases hp
  · have hnested := (Node.ofConcrete_nested hnests hsource h).of_mem_walk hwalk
    exact (hnested.child hchild).2

/-- The tree of `for(let x of{m(p){}});`. -/
def memberLoop : Concrete :=
  .here "program" none 0 22 [.here "for_in_statement" none 0 22 [
    .here "let" (some "kind") 4 7 [], .here "identifier" (some "left") 8 9 [],
    .here "object" (some "right") 12 20 [.here "method_definition" none 13 19 [
      .here "property_identifier" (some "name") 13 14 [],
      .here "formal_parameters" (some "parameters") 14 17 [.here "identifier" none 15 16 []],
      .here "statement_block" (some "body") 17 19 []]],
    .here "empty_statement" (some "body") 21 22 []]]

/-- Whether a place below another one has a span. -/
def Site.isAt (span : Nat × Nat) (s : Site) : Bool :=
  (s.span.start, s.span.stop) == span && s.parent?.isSome && !s.node.isProgram

/-- The declaration of the loop and the function of the method lie in their parents. -/
theorem Node.tree_of_concrete_loop :
    ∃ (src : Source) (program : Node), memberLoop.every Concrete.Head.nests = true ∧
      memberLoop.head.span.stop ≤ src.bytes.length ∧
      Node.ofConcrete src none memberLoop = .ok program ∧
      (Site.root program).IsTree ∧
      ∀ span ∈ [(4, 9), (14, 19)], ∃ s ∈ (Site.root program).walk, s.isAt span = true ∧
        ∃ p, (Site.root program).linkParents s.path = some p ∧ s.span.Within p.span := by
  have hgraph : (graphOf "for(let x of\x7bm(p)\x7b\x7d\x7d);" memberLoop).any (fun g =>
      decide (memberLoop.head.span.stop ≤ g.1.bytes.length) &&
        [(4, 9), (14, 19)].all fun span => (Site.root g.2.1).walk.any (Site.isAt span)) = true := by
    decide +kernel
  obtain ⟨⟨src, program, g⟩, hsome, hall⟩ := (Option.any_eq_true _ _).1 hgraph
  have hprogram := (graphOf_eq_some hsome).1
  obtain ⟨hsource, hall⟩ := Bool.and_eq_true_iff.1 hall
  have hnests : memberLoop.every Concrete.Head.nests = true := by decide +kernel
  obtain ⟨htree, hwithin⟩ := Node.tree_of_concrete hnests (of_decide_eq_true hsource) hprogram
  refine ⟨src, program, hnests, of_decide_eq_true hsource, hprogram, htree, fun span hspan => ?_⟩
  obtain ⟨s, hs, hat⟩ := List.any_eq_true.1 (List.all_eq_true.1 hall span hspan)
  have hfacts := hat
  simp only [Site.isAt, Bool.and_eq_true, Bool.not_eq_true', Option.isSome_iff_exists] at hfacts
  obtain ⟨⟨-, p, hp⟩, hother⟩ := hfacts
  rw [← Site.linkParents_eq hs] at hp
  exact ⟨s, hs, hat, p, hp, (hwithin s hs p hp).resolve_right fun h => Bool.false_ne_true
    (hother.symm.trans h.1)⟩

/-- A tree of `{};` with a program in the block. -/
def innerProgram : Concrete :=
  .here "program" none 0 3 [.here "statement_block" none 0 2 [.here "program" none 1 1 []],
    .here "empty_statement" none 2 3 []]

/-- A program inside of another one does not lie in its parent. -/
theorem Node.inner_program_escapes :
    ∃ (src : Source) (program : Node), innerProgram.every Concrete.Head.nests = true ∧
      innerProgram.head.span.stop ≤ src.bytes.length ∧
      Node.ofConcrete src none innerProgram = .ok program ∧
      ∃ s ∈ (Site.root program).walk, ∃ p, (Site.root program).linkParents s.path = some p ∧
        ¬ s.span.Within p.span := by
  have hgraph : (graphOf "\x7b\x7d;" innerProgram).any (fun g =>
      decide (innerProgram.head.span.stop ≤ g.1.bytes.length) && (Site.root g.2.1).walk.any fun s =>
        s.parent?.any fun p => decide (p.span.stop < s.span.stop)) = true := by
    decide +kernel
  obtain ⟨⟨src, program, g⟩, hsome, hall⟩ := (Option.any_eq_true _ _).1 hgraph
  obtain ⟨hsource, hall⟩ := Bool.and_eq_true_iff.1 hall
  obtain ⟨s, hs, hparent⟩ := List.any_eq_true.1 hall
  obtain ⟨p, hp, hlt⟩ := (Option.any_eq_true _ _).1 hparent
  rw [← Site.linkParents_eq hs] at hp
  exact ⟨src, program, by decide +kernel, of_decide_eq_true hsource, (graphOf_eq_some hsome).1, s,
    hs, p, hp, fun hwithin => Nat.not_lt.2 hwithin.2 (of_decide_eq_true hlt)⟩

end ApiTrace
