import ApiTrace.Proofs.Reading.Shape
import ApiTrace.Proofs.Scope.Acceptance

/-!
# Scopes of programs that come of reading

Reading takes any concrete tree, and a kind of concrete node without a rule becomes a node that is
named after it. So a program can hold nodes with the name of a form and not its parts, and then it
has no scopes. Of what a place can need, reading provides all but two things: the name of a function
or of a class can be anything, and so can the body of a static initializer.
-/

namespace ApiTrace

/-- What a shaped node provides for the places of its children: all but names, and the statements of
static initializers. -/
theorem Form.isMet_of_hasShape {f : Form} {span : Span} {above : List Frame}
    {slot : Slot} {n : Node} {need : Need} {names : Text → Bool} (hshape : f.hasShape names = true)
    (hchild : (slot, n) ∈ f.children) (hholds : Site.holdsCode ⟨.mk span f, above⟩ slot.role = true)
    (hneed : need? (⟨slot, .mk span f⟩ :: above) = some need) :
    need.isMet n.form = true ∨ need = .name ∨ need = .statements := by
  obtain ⟨p, hp, hrole, hn⟩ := Form.exists_part hchild
  have hbinding : ∀ {need'}, (import? above).map (fun _ => Need.binding) = some need' →
      need' = .binding := by
    intro need' h
    obtain ⟨_, _, rfl⟩ := Option.map_eq_some_iff.1 h
    rfl
  simp only [need?, Node.form] at hneed
  split at hneed
  · exact .inr (.inl (Option.some.inj hneed).symm)
  · exact .inr (.inl (Option.some.inj hneed).symm)
  · obtain rfl := hbinding hneed
    obtain rfl := List.mem_singleton.1 hp
    obtain rfl := List.mem_singleton.1 hn
    exact .inl hshape
  · obtain rfl := hbinding hneed
    obtain rfl := List.mem_singleton.1 hp
    obtain rfl := List.mem_singleton.1 hn
    exact .inl hshape
  · rename_i hslot
    obtain rfl := hbinding hneed
    rw [hslot] at hrole
    simp only [Form.parts, List.mem_cons, List.not_mem_nil, or_false] at hp
    rcases hp with rfl | rfl
    · cases hrole
    · obtain rfl := List.mem_singleton.1 hn
      exact .inl (Bool.and_eq_true_iff.1 hshape).2
  · exact .inr (.inr (Option.some.inj hneed).symm)
  · cases hneed
    simp only [Form.parts, List.mem_cons, List.not_mem_nil, or_false] at hp
    rcases hp with rfl | rfl
    · cases hrole
    · rw [Part.nodes_all] at hn
      exact .inl (List.all_eq_true.1 hshape n hn)
  · cases hneed
    simp only [Form.parts, List.mem_cons, List.not_mem_nil, or_false] at hp
    rcases hp with rfl | rfl
    · rw [Part.nodes_all] at hn
      exact .inl (List.all_eq_true.1 hshape n hn)
    · rw [← Option.some.inj hrole] at hholds
      cases hholds
  · rename_i hslot
    cases hneed
    rw [hslot] at hrole
    simp only [Form.parts, List.mem_cons, List.not_mem_nil, or_false] at hp
    rcases hp with rfl | rfl | rfl
    · cases hrole
    · rw [Part.nodes_all] at hn
      exact .inl (List.all_eq_true.1 hshape n hn)
    · cases hrole
  · rename_i hslot
    cases hneed
    rw [hslot] at hrole
    simp only [Form.parts, List.mem_cons, List.not_mem_nil, or_false] at hp
    rcases hp with rfl | rfl | rfl
    · cases hrole
    · cases hrole
    · rw [Part.nodes_one, Option.mem_toList] at hn
      exact .inl ((Option.all_eq_true _ _).1 hshape n hn)
  · cases hneed

/-- Reading provides what a place needs, but for names and for the statements of static
initializers. -/
theorem Node.Shaped.isMet {program : Node} {names : Text → Bool}
    (h : program.Shaped names) {x : Site} (hx : x ∈ (Site.root program).code) {need : Need}
    (hneed : need? x.above = some need) :
    need.isMet x.node.form = true ∨ need = .name ∨ need = .statements := by
  obtain ⟨hwalk, hcode⟩ := List.mem_filter.1 hx
  obtain ⟨-, hroot | ⟨⟨slot, ⟨span, f⟩⟩, rest, habove, hparent, hchild⟩⟩ := h.of_mem_walk hwalk
  · rw [hroot] at hneed
    cases hneed
  · rw [habove] at hneed hcode
    cases hparent with
    | mk shape parts =>
      exact Form.isMet_of_hasShape shape hchild (Bool.and_eq_true_iff.1 hcode).1 hneed

/-- Of a program that comes of reading, only three things can lack something: a node of a kind that
has no rule, what a function or a class is called by, and the body of a static initializer. -/
theorem Node.Shaped.cases_of_lacks {program : Node} {names : Text → Bool} (h : program.Shaped names)
    {x : Site} (hx : x ∈ (Site.root program).code) (hlacks : x.Lacks) :
    (∃ name children, names name = true ∧ x.node.form = .other name children) ∨
      need? x.above = some .name ∨ need? x.above = some .statements := by
  have hnode := (h.of_mem_walk (List.mem_filter.1 hx).1).1
  have hname : ∀ {name children}, x.node.form = .other name children → names name = true := by
    intro name children hform
    obtain ⟨⟨span, f⟩, above⟩ := x
    obtain rfl : f = .other name children := hform
    cases hnode with
    | mk shape => exact shape
  cases hlacks with
  | parts hform => exact .inl ⟨_, _, hname hform, hform⟩
  | pattern hform => exact .inl ⟨_, _, hname hform, hform⟩
  | need hplace hform =>
    rcases h.isMet hx hplace with hmet | rfl | rfl
    · cases hform.symm.trans hmet
    · exact .inr (.inl hplace)
    · exact .inr (.inr hplace)

namespace ScopeGraph

/-- **A concrete tree that can be read has scopes exactly if nothing is lacking in the code of its
program.** What can be lacking are the parts of a node whose concrete node is of a kind that has no
rule, the name of a function or of a class, and the statements of a static initializer; reading
provides everything else. -/
theorem scopes_iff_nothing_lacking {src : Source} {sourceType : Option Text} {root : Concrete}
    {program : Node} (h : Node.ofConcrete src sourceType root = .ok program) :
    ((∃ g, analyze program = .ok g) ↔ ∀ s ∈ (Site.root program).code, ¬ s.Lacks) ∧
    ∀ s ∈ (Site.root program).code, s.Lacks →
      (∃ kind ∈ root.kinds, kind ∉ Phrase.ruledKinds ∧
        ∃ children, s.node.form = .other (Text.camelCase kind) children) ∨
      need? s.above = some .name ∨ need? s.above = some .statements := by
  have hshaped := Node.ofConcrete_shaped h
  refine ⟨?_, fun s hs hlacks => ?_⟩
  · simp only [Node.ofConcrete, Phrase.program, bind_eq_ok, pure_eq_ok] at h
    obtain ⟨body, -, rfl⟩ := h
    exact exists_analyze_iff
  · rcases hshaped.cases_of_lacks hs hlacks with ⟨name, children, hname, hform⟩ | hneed
    · obtain ⟨kind, hkind, hunruled⟩ := List.any_eq_true.1 hname
      simp only [Bool.and_eq_true, decide_eq_true_eq, beq_iff_eq] at hunruled
      obtain ⟨hruled, rfl⟩ := hunruled
      exact .inl ⟨kind, hkind, hruled, children, hform⟩
    · exact .inr hneed

/-- The tree of `#m`, which is no program: a method stands alone. -/
def strayMethod : Concrete :=
  .here "program" none 0 2 [.here "ERROR" none 0 2 [.here "method_definition" none 0 2 [
    .here "private_property_identifier" (some "name") 0 2 []]]]

/-- Whether a program has a statement with the name of no form that is left alone, and in it a node
with the name of a form that needs parts. -/
def holdsParted : Outcome Node → Bool
  | .ok (.mk _ (.program [.mk _ (.other outer [.mk _ (.other inner _)])] _)) =>
    outer ∉ ScopeEvent.silentNames && inner ∈ ScopeEvent.partedNames
  | _ => false

theorem scopes_iff_nothing_lacking_method :
    ∃ (src : Source) (program : Node), Node.ofConcrete src none strayMethod = .ok program ∧
      (¬ ∃ g, analyze program = .ok g) ∧
      ∃ s ∈ (Site.root program).code, s.Lacks ∧
        ∃ kind ∈ strayMethod.kinds, kind ∉ Phrase.ruledKinds ∧
          ∃ children, s.node.form = .other (Text.camelCase kind) children := by
  have hread : (Source.ofText? "#m").any
      (fun src => holdsParted (Node.ofConcrete src none strayMethod)) = true := by
    decide +kernel
  obtain ⟨src, -, hread⟩ := (Option.any_eq_true _ _).1 hread
  unfold holdsParted at hread
  split at hread
  · rename_i span errorSpan outer methodSpan inner children sourceType hprogram
    simp only [Bool.and_eq_true, decide_eq_true_eq] at hread
    let method := Node.mk methodSpan (.other inner children)
    let error := Node.mk errorSpan (.other outer [method])
    let program := Node.mk span (.program [error] sourceType)
    let s : Site := ((Site.root program).down ⟨.body, 0⟩ error).down ⟨.children, 0⟩ method
    have hwalk : s ∈ (Site.root program).walk :=
      Site.mem_walk_of_child (c := (Site.root program).down ⟨.body, 0⟩ error) (.head _)
        (Site.mem_walk_of_child (.head _) s.mem_walk_self)
    have hcode : isCode s.above = true := by
      simp [s, isCode, Site.down, Site.frames, Site.holdsCode, error, Node.form, hread.1, Site.root,
        program]
    have hs : s ∈ (Site.root program).code := List.mem_filter.2 ⟨hwalk, hcode⟩
    have hform : s.node.form = .other inner children := rfl
    have hlacks : s.Lacks := .parts hform (.inr hread.2)
    obtain ⟨hscopes, hcauses⟩ := scopes_iff_nothing_lacking hprogram
    refine ⟨src, program, hprogram, fun hg => hscopes.1 hg s hs hlacks, s, hs, hlacks, ?_⟩
    rcases hcauses s hs hlacks with hkind | hneed | hneed
    · exact hkind
    · cases hneed
    · cases hneed
  · cases hread

end ScopeGraph

end ApiTrace
