import ApiTrace.Proofs.Reading.Programs
import ApiTrace.Proofs.Scope.Building

/-!
# Names found by place

The variable of a name is known twice: a reference has the scope it was read in and the variable
that was looked up from there, and a name can also be looked up at a place, from the innermost scope
whose block covers the place. For the program of a concrete tree in source order the two agree
(`ScopeGraph.places_agree`), and a name is found where it is bound. What stands directly in the
expression that a class extends or a `switch` tests is left out: there the scope that opens next is
found instead.
-/

namespace ApiTrace

/-- Whether a site of scope `k` stands in something that is read before its node opens a scope: in
what a class extends or a `switch` tests, inside the block of scope `k`. -/
def ScopeGraph.IsLoose (g : ScopeGraph) (k : Nat) (s : Site) : Prop :=
  ∃ scope, g.scopes[k]? = some scope ∧ LooseBelow scope.block.above.length s.above

/-- What stands in no such expression at all is not loose. -/
theorem ScopeGraph.not_isLoose {s : Site} (h : ∀ frame ∈ s.above, frame.slot.role.isLoose = false)
    (g : ScopeGraph) (k : Nat) : ¬ g.IsLoose k s := by
  rintro ⟨scope, _, frame, hframe, hloose⟩
  rw [h frame (List.mem_of_mem_take hframe)] at hloose
  cases hloose

/-! ## Events of a program -/

/-- What is read in the outermost scope. -/
def bodyEvents (root : Site) (body : List Node) (sourceType : Text) : List ScopeEvent :=
  if sourceType = Text.ofString "module"
  then .enter .moduleBody root :: ScopeEvent.visitAll root .body 0 body ++ [ScopeEvent.leave]
  else ScopeEvent.visitAll root .body 0 body

theorem scopeEvents_program (span : Span) (body : List Node) (sourceType : Text) :
    (Node.mk span (.program body sourceType)).scopeEvents =
      .enter .program (.root (.mk span (.program body sourceType))) ::
        bodyEvents (.root (.mk span (.program body sourceType))) body sourceType ++
          [ScopeEvent.leave] := rfl

theorem laid_bodyEvents {body : List Node} {root : Site} {Z : Zone} (h : PlacedAll Z body)
    (within : Z.Sub root.span.zone) (sourceType : Text) :
    Laid root.above root.above.length root.span.zone (bodyEvents root body sourceType) := by
  have hbody : Laid root.above root.above.length Z (ScopeEvent.visitAll root .body 0 body) :=
    h.visitAll root (Nat.le_refl _) .body rfl
  unfold bodyEvents
  split
  · exact .bracket .moduleBody root (Nat.le_refl _) hbody within
  · exact hbody.mono (.refl _) within

/-! ## The outermost scope -/

namespace ScopeBuilder

/-- The builder in the outermost scope of a program, before anything in it is read. -/
def outermost (root : Site) : ScopeBuilder := empty.step (.enter .program root)

variable (root : Site)

theorem outermost_known : (outermost root).Known :=
  ⟨Nat.zero_lt_one, List.forall_mem_singleton.2 Nat.zero_lt_one⟩

theorem outermost_chained : (outermost root).Chained where
  falling := List.pairwise_singleton _ _
  known := List.forall_mem_singleton.2 Nat.zero_lt_one
  outermost := List.mem_singleton.2 rfl
  scopes i s hs := by
    obtain ⟨hi, rfl⟩ := List.getElem?_eq_some_iff.1 hs
    obtain rfl : i = 0 := Nat.lt_one_iff.1 hi
    exact ⟨List.pairwise_singleton _ _, List.mem_singleton.2 rfl⟩

theorem outermost_stands : (outermost root).Stands 0 root.above.length :=
  stands_enter empty .program root

theorem reach_outermost (o : Int) : reach (outermost root).scopes o = 0 := by
  simp [reach, outermost, step, empty]

theorem run_program (events : List ScopeEvent) :
    run (.enter .program root :: events ++ [ScopeEvent.leave]) =
      ((outermost root).after events).step .leave := by
  show empty.after _ = _
  simp [outermost]

end ScopeBuilder

/-! ## Analysis -/

theorem exists_of_mem_mapM_some {α β : Type} {f : α → Option β} {as : List α} {bs : List β}
    (h : as.mapM f = some bs) {b : β} (hb : b ∈ bs) : ∃ a ∈ as, f a = some b := by
  induction as generalizing bs with
  | nil =>
    rw [← Option.some.inj h] at hb
    cases hb
  | cons a as ih =>
    simp only [List.mapM_cons, Option.bind_eq_bind, Option.bind_eq_some_iff, Option.pure_def,
      Option.some.injEq] at h
    obtain ⟨b', hb', bs, hbs, rfl⟩ := h
    rcases List.mem_cons.1 hb with rfl | hb
    · exact ⟨a, .head _, hb'⟩
    · obtain ⟨a', ha', hf⟩ := ih hbs hb
      exact ⟨a', .tail _ ha', hf⟩

/-- What a scope graph is made of. -/
theorem ScopeGraph.analyze_eq_ok {program : Node} {g : ScopeGraph} (h : analyze program = .ok g) :
    g.scopes = addUndeclared (ScopeBuilder.run program.scopeEvents).scopes g.references ∧
      ∀ r ∈ g.references, (r.scope, r.mention) ∈ (ScopeBuilder.run program.scopeEvents).mentions ∧
        r.mention.identifier.name? = some r.name ∧
        r = resolve (ScopeBuilder.run program.scopeEvents).scopes r.scope r.name r.mention := by
  simp only [analyze] at h
  split at h
  · cases h
  · split at h
    · cases h
    · rename_i references hreferences
      cases h
      refine ⟨rfl, fun r hr => ?_⟩
      obtain ⟨⟨scope, mention⟩, hmem, hr⟩ := exists_of_mem_mapM_some hreferences hr
      obtain ⟨name, hname, rfl⟩ := Option.map_eq_some_iff.1 hr
      exact ⟨List.mem_reverse.1 hmem, hname, rfl⟩

/-- The innermost scope at an offset does not depend on the variables of the scopes. -/
theorem ScopeGraph.innermost_eq {g : ScopeGraph} {scopes : List Scope}
    (h : g.scopes.map Scope.outline = scopes.map Scope.outline) (o : Int) :
    g.innermost o = reach scopes o :=
  reach_congr h o

section Agreement

open ScopeBuilder

variable {root : Site} {events : List ScopeEvent} {Z : Zone} {references : List Reference}

/-- A place at which there is an event comes to the scope of the event. If it is loose it strays to
the scope that opens next. -/
theorem Laid.finds_place (h : Laid root.above root.above.length Z events) {j : Nat} {e : ScopeEvent}
    {s : Site} (hplace : (j, e) ∈ (outermost root).places events) (hs : e.site? = some s)
    (hne : s.node.start < s.node.stop) :
    ∃ scope, ((outermost root).after events).scopes[j]? = some scope ∧
      (¬ LooseBelow scope.block.above.length s.above →
        reach ((outermost root).after events).scopes s.node.start = j) ∧
      (LooseBelow scope.block.above.length s.above →
        Strays ((outermost root).after events).scopes j s.above
          (reach ((outermost root).after events).scopes s.node.start)) := by
  have hdescends := h.descends (outermost_stands root)
  obtain ⟨-, -, hlt, hreach⟩ := hdescends.finds j e s hplace hs hne
  obtain ⟨scope, hscope⟩ : ∃ scope, ((outermost root).after events).scopes[j]? = some scope :=
    ⟨_, List.getElem?_eq_getElem hlt⟩
  refine ⟨scope, hscope, ?_⟩
  rcases hreach (reach_outermost root _) with ⟨hfound, hsettled⟩ | ⟨-, hstrays⟩
  · have hclear : Clear scope.block.above s.above := by
      rcases hsettled with ⟨rfl, hclear⟩ | ⟨-, scope', hscope', hclear⟩
      · obtain ⟨scope', hscope', hblock, -⟩ := hdescends.grows.getElem? (i := 0) rfl
        obtain rfl : scope' = scope := Option.some.inj (hscope'.symm.trans hscope)
        rw [hblock]
        exact hclear
      · obtain rfl : scope' = scope := Option.some.inj (hscope'.symm.trans hscope)
        exact hclear
    refine ⟨fun _ => hfound, fun hloose => ?_⟩
    rw [hclear.looseBelow_iff (Nat.le_refl _)] at hloose
    exact absurd hloose (not_looseBelow_length _)
  · exact ⟨fun hloose => absurd (hstrays.looseBelow hscope) hloose, fun _ => hstrays⟩

/-- The scopes of a graph, as far as places go, are those of its builder. -/
theorem isLoose_of_scope {g : ScopeGraph} {scopes : List Scope}
    (h : g.scopes.map Scope.outline = scopes.map Scope.outline) {k : Nat} {scope : Scope}
    (hscope : scopes[k]? = some scope) {s : Site}
    (hloose : LooseBelow scope.block.above.length s.above) : g.IsLoose k s := by
  obtain ⟨scope', hscope', hblock, -⟩ := (Outlines.of_eq h.symm).getElem? hscope
  exact ⟨scope', hscope', hblock ▸ hloose⟩

variable {g : ScopeGraph}

theorem Laid.reference_agrees (h : Laid root.above root.above.length Z events)
    (hg : g.scopes = addUndeclared ((outermost root).after events).scopes g.references)
    {r : Reference} (hr : r ∈ g.references)
    (hmention : (r.scope, r.mention) ∈ ((outermost root).after events).mentions)
    (hresolved : r = resolve ((outermost root).after events).scopes r.scope r.name r.mention)
    (hne : r.mention.identifier.node.start < r.mention.identifier.node.stop)
    (hloose : ¬ g.IsLoose r.scope r.mention.identifier) :
    g.innermost r.mention.identifier.start = r.scope ∧
      g.findVariable? r.mention.identifier.start r.name = some r.resolved := by
  have houtline : g.scopes.map Scope.outline =
      ((outermost root).after events).scopes.map Scope.outline := by
    rw [hg, map_outline_addUndeclared]
  have hplace := (place_of_mention hmention).resolve_left (List.not_mem_nil)
  obtain ⟨scope, hscope, hreach, -⟩ := h.finds_place hplace rfl hne
  have hinnermost : g.innermost r.mention.identifier.start = r.scope := by
    rw [ScopeGraph.innermost_eq houtline]
    exact hreach fun hbelow => hloose (isLoose_of_scope houtline hscope hbelow)
  refine ⟨hinnermost, ?_⟩
  have hchained := (h.descends (outermost_stands root)).chained (outermost_chained root)
  obtain ⟨hfalling, hzero⟩ := hchained.scopes r.scope scope hscope
  have hlookup : lookup? g.scopes r.scope r.name = some r.resolved.scope := by
    have hscopeOf : r.resolved.scope =
        (lookup? ((outermost root).after events).scopes r.scope r.name).getD 0 :=
      congrArg (fun r => r.resolved.scope) hresolved
    rw [hg, hscopeOf]
    refine lookup?_addUndeclared hscope hfalling hzero ?_ hr hscopeOf
    exact hchained.known 0 hchained.outermost
  have hname : r.resolved.name = r.name := congrArg (fun r => r.resolved.name) hresolved
  rw [ScopeGraph.findVariable?, hinnermost, hlookup, Option.map_some, ← hname]

theorem Laid.binding_agrees (h : Laid root.above root.above.length Z events)
    (hg : g.scopes = addUndeclared ((outermost root).after events).scopes g.references)
    {target : Target} {d : Definition} {name : Text} (hd : .define target d ∈ events)
    (hbinds : d.bindsHere = true) (hname : d.name.name? = some name)
    (hne : d.name.node.start < d.name.node.stop) :
    ∃ k v, g.get? ⟨k, name⟩ = some v ∧ d ∈ v.definitions ∧
      (d.isParameter = true ∨ ¬ g.IsLoose k d.name →
        g.findVariable? d.name.start name = some ⟨k, name⟩) := by
  have houtline : g.scopes.map Scope.outline =
      ((outermost root).after events).scopes.map Scope.outline := by
    rw [hg, map_outline_addUndeclared]
  obtain ⟨k, hplace⟩ := (outermost root).exists_place hd
  have hsite : (ScopeEvent.define target d).site? = some d.name := by
    simp [ScopeEvent.site?, hbinds]
  obtain ⟨scope, hscope, hreach, -⟩ := h.finds_place hplace hsite hne
  obtain ⟨rfl, scope', hscope', hparameter⟩ :=
    (h.descends (outermost_stands root)).binds k target d hplace hbinds
  obtain rfl : scope' = scope := Option.some.inj (hscope'.symm.trans hscope)
  obtain ⟨s, hs, hdefines⟩ : ∃ s, g.scopes[k]? = some s ∧ s.Defines name d := by
    rw [hg, addUndeclared_eq]
    refine exists_modify (fun s hs => ?_) 0 (defines_of_place (outermost_known root) hplace hname)
    exact Scope.addUnresolved_induction (P := (·.Defines name d)) (fun s n hs => hs.addName n) _ hs
  obtain ⟨v, hv, hmem⟩ := hdefines
  refine ⟨k, v, by simp [ScopeGraph.get?, hs, hv], hmem, fun hclear => ?_⟩
  have hinnermost : g.innermost d.name.start = k := by
    rw [ScopeGraph.innermost_eq houtline]
    refine hreach fun hbelow => ?_
    rcases hclear with hclear | hclear
    · exact hparameter hclear hbelow
    · exact hclear (isLoose_of_scope houtline hscope hbelow)
  have hdeclares : s.declares name = true := Scope.Defines.declares ⟨v, hv, hmem⟩
  have hlookup : lookup? g.scopes k name = some k := by
    simp [lookup?, hs, hdeclares]
  rw [ScopeGraph.findVariable?, hinnermost, hlookup, Option.map_some]

end Agreement

/-! ## Where place and scope differ -/

/-- A named node of a tree over one line. -/
def Concrete.here (kind : String) (field : Option String) (start stop : Nat)
    (children : List Concrete) : Concrete :=
  .mk ⟨kind, true, ⟨start, stop, 1, start⟩, field⟩ children

/-- The source of a text and the program and the scope graph of its tree. -/
def graphOf (text : Text) (root : Concrete) : Option (Source × Node × ScopeGraph) := do
  let src ← Source.ofText? text
  let program ← (Node.ofConcrete src none root).toOption
  let g ← (ScopeGraph.analyze program).toOption
  return (src, program, g)

theorem graphOf_eq_some {text : Text} {root : Concrete} {src : Source} {program : Node}
    {g : ScopeGraph} (h : graphOf text root = some (src, program, g)) :
    Node.ofConcrete src none root = .ok program ∧ ScopeGraph.analyze program = .ok g := by
  have hok : ∀ {ε α : Type} {x : Except ε α} {a : α}, x.toOption = some a → x = .ok a := by
    intro ε α x a hx
    cases x with
    | error => cases hx
    | ok => exact congrArg _ (Option.some.inj hx)
  simp only [graphOf, Option.bind_eq_bind, Option.bind_eq_some_iff, Option.pure_def,
    Option.some.injEq, Prod.mk.injEq] at h
  obtain ⟨src, _, program, hprogram, g, hg, rfl, rfl, rfl⟩ := h
  exact ⟨hok hprogram, hok hg⟩

/-- The tree of `({(x)[x]{}})`: the name of a method lies between its parameters and its body. -/
def crossedMethod : Concrete :=
  .here "program" none 0 12 [.here "expression_statement" none 0 12 [
    .here "parenthesized_expression" none 0 12 [.here "object" none 1 11 [
      .here "method_definition" none 2 10 [
        .here "formal_parameters" (some "parameters") 2 5 [.here "identifier" none 3 4 []],
        .here "computed_property_name" (some "name") 5 8 [.here "identifier" none 6 7 []],
        .here "statement_block" (some "body") 8 10 []]]]]]

/-- The tree of `class A (p)=>1`: the body of a class is its heritage clause. -/
def bodyHeritage : Concrete :=
  .here "program" none 0 14 [.here "class_declaration" none 0 14 [
    .here "identifier" (some "name") 6 7 [],
    .here "class_heritage" (some "body") 8 14 [.here "arrow_function" none 8 14 [
      .here "formal_parameters" (some "parameters") 8 11 [.here "identifier" none 9 10 []],
      .here "number" (some "body") 13 14 []]]]]

/-- The declaration of `x` by `let x` from an offset on. -/
def letTree (field : Option String) (start : Nat) : Concrete :=
  .here "lexical_declaration" field start (start + 5) [
    .here "variable_declarator" none (start + 4) (start + 5) [
      .here "identifier" (some "name") (start + 4) (start + 5) []]]

/-- The tree of `switch(let x){case 1:let x}`: a name is bound in what the `switch` tests. -/
def bindingTest : Concrete :=
  .here "program" none 0 27 [.here "switch_statement" none 0 27 [
    .here "parenthesized_expression" (some "value") 6 13 [letTree none 7],
    .here "switch_body" (some "body") 13 27 [.here "switch_case" none 14 26 [
      .here "number" (some "value") 19 20 [], letTree (some "body") 21]]]]

/-- A tree that goes on behind the end of an empty source. -/
def overhang : Concrete :=
  .here "program" none 0 1 [.here "import_statement" none 0 1 [
    .here "import_clause" none 0 1 [.here "identifier" none 0 1 []]]]

namespace ScopeGraph

/-- Whether a reference outside of what classes extend and `switch` statements test is not found in
its scope by its place. -/
def losesReference (g : ScopeGraph) : Bool :=
  g.references.any fun r =>
    decide (r.mention.identifier.node.start < r.mention.identifier.node.stop) &&
      r.mention.identifier.above.all (!·.slot.role.isLoose) &&
      g.innermost r.mention.identifier.start != r.scope

/-- Whether a `let`, `const`, import or parameter is not found by its place. -/
def losesBinding (g : ScopeGraph) : Bool :=
  g.variableIds.any fun x => (g.get? x).any fun v => v.definitions.any fun d =>
    d.bindsHere && decide (d.name.node.start < d.name.node.stop) &&
      g.findVariable? d.name.start v.name != some x

/-- None of the conditions under which names are found by place can be left out: computed names of
methods beside their functions, classes whose body is no heritage clause, `let` outside of what a
`switch` tests, trees in their source. -/
theorem places_disagree :
    (crossedMethod.every Concrete.Head.inOrder = true ∧
      (graphOf "(\x7b(x)[x]\x7b\x7d\x7d)" crossedMethod).any (·.2.2.losesReference) = true) ∧
    (bodyHeritage.every Concrete.Head.inOrder = true ∧
      (graphOf "class A (p)=>1" bodyHeritage).any (·.2.2.losesBinding) = true) ∧
    (bindingTest.every Concrete.Head.inOrder = true ∧
      (graphOf "switch(let x)\x7bcase 1:let x\x7d" bindingTest).any (·.2.2.losesBinding) = true) ∧
    overhang.every Concrete.Head.inOrder = true ∧
      (graphOf "" overhang).any (·.2.2.losesBinding) = true := by
  decide +kernel

end ScopeGraph

/-! ## Programs of concrete trees -/

/-- The tree of `class A extends b{m(p){let q=p}}`. -/
def classTree : Concrete :=
  .here "program" none 0 32 [.here "class_declaration" none 0 32 [
    .here "identifier" (some "name") 6 7 [],
    .here "class_heritage" none 8 17 [.here "identifier" none 16 17 []],
    .here "class_body" (some "body") 17 32 [.here "method_definition" none 18 31 [
      .here "property_identifier" (some "name") 18 19 [],
      .here "formal_parameters" (some "parameters") 19 22 [.here "identifier" none 20 21 []],
      .here "statement_block" (some "body") 22 31 [.here "lexical_declaration" none 23 30 [
        .here "variable_declarator" none 27 30 [
          .here "identifier" (some "name") 27 28 [],
          .here "identifier" (some "value") 29 30 []]]]]]]]

/-- Whether an event binds a name at an offset, in no expression that is read before a scope
opens. -/
def ScopeEvent.bindsAt (offset : Nat) : ScopeEvent → Bool
  | .define _ d => d.bindsHere && d.name.name?.isSome && d.name.node.start == offset &&
    decide (offset < d.name.node.stop) && d.name.above.all (!·.slot.role.isLoose)
  | _ => false

namespace ScopeGraph

/-- **Names are found by place.** Let a concrete tree lie in its source, in source order, with
methods and classes kept apart from their names and heritage clauses. In its program

* the innermost scope at a reference that is not loose is the scope of the reference, and the
  variable of its name there is the variable that the reference has,
* everything that a `let`, a `const`, an import or a parameter defines is a variable with this
  definition, and that variable is found at its place. A parameter is found wherever it stands,
  everything else if it is not loose. -/
theorem places_agree {src : Source} {sourceType : Option Text} {root : Concrete} {program : Node}
    {g : ScopeGraph} (horder : root.every Concrete.Head.inOrder = true)
    (hapart : root.every Concrete.Head.keepsApart = true)
    (hsource : root.head.span.stop ≤ src.bytes.length)
    (hprogram : Node.ofConcrete src sourceType root = .ok program) (hg : analyze program = .ok g) :
    (∀ r ∈ g.references, r.mention.identifier.node.start < r.mention.identifier.node.stop →
      ¬ g.IsLoose r.scope r.mention.identifier →
        r.mention.identifier.name? = some r.name ∧
        g.innermost r.mention.identifier.start = r.scope ∧
        g.findVariable? r.mention.identifier.start r.name = some r.resolved) ∧
    ∀ target d name, .define target d ∈ program.scopeEvents → d.bindsHere = true →
      d.name.name? = some name → d.name.node.start < d.name.node.stop →
        ∃ k v, g.get? ⟨k, name⟩ = some v ∧ d ∈ v.definitions ∧
          (d.isParameter = true ∨ ¬ g.IsLoose k d.name →
            g.findVariable? d.name.start name = some ⟨k, name⟩) := by
  obtain ⟨body, kind, rfl, hplaced⟩ := Node.ofConcrete_placed horder hapart hprogram
  have within : root.head.span.zone.Sub
      (Site.root (.mk ⟨0, src.bytes.length, 1, 0⟩ (.program body kind))).span.zone :=
    fun o ho => ⟨Nat.zero_le o, Nat.lt_of_lt_of_le ho.2 hsource⟩
  have hlaid := laid_bodyEvents hplaced within kind
  obtain ⟨hscopes, hreferences⟩ := analyze_eq_ok hg
  rw [scopeEvents_program, ScopeBuilder.run_program] at hscopes hreferences
  refine ⟨fun r hr hne hloose => ?_, fun target d name hd hbinds hname hne => ?_⟩
  · obtain ⟨hmention, hname, hresolved⟩ := hreferences r hr
    exact ⟨hname, hlaid.reference_agrees hscopes hr hmention hresolved hne hloose⟩
  · have hmem : .define target d ∈ bodyEvents
        (.root (.mk ⟨0, src.bytes.length, 1, 0⟩ (.program body kind))) body kind := by
      simpa [scopeEvents_program] using hd
    exact hlaid.binding_agrees hscopes hmem hbinds hname hne

theorem places_agree_class :
    ∃ (src : Source) (program : Node) (g : ScopeGraph),
      classTree.every Concrete.Head.inOrder = true ∧
      classTree.every Concrete.Head.keepsApart = true ∧
      classTree.head.span.stop ≤ src.bytes.length ∧
      Node.ofConcrete src none classTree = .ok program ∧
      analyze program = .ok g ∧
      (∃ r ∈ g.references, r.mention.identifier.start = 29 ∧ r.scope = 2 ∧
        ¬ g.IsLoose r.scope r.mention.identifier ∧ g.innermost 29 = r.scope ∧
        g.findVariable? 29 r.name = some r.resolved) ∧
      ∃ target d k name v, .define target d ∈ program.scopeEvents ∧ d.name.start = 27 ∧
        d.bindsHere = true ∧ g.get? ⟨k, name⟩ = some v ∧ d ∈ v.definitions ∧ ¬ g.IsLoose k d.name ∧
        g.findVariable? 27 name = some ⟨k, name⟩ := by
  have hgraph : (graphOf "class A extends b\x7bm(p)\x7blet q=p\x7d\x7d" classTree).any
    (fun (src, program, g) =>
      decide (classTree.head.span.stop ≤ src.bytes.length) && (g.references.any fun r =>
        r.mention.identifier.node.start == 29 && decide (29 < r.mention.identifier.node.stop) &&
          r.scope == 2 && r.mention.identifier.above.all (!·.slot.role.isLoose)) &&
        program.scopeEvents.any (·.bindsAt 27)) = true := by
    decide +kernel
  obtain ⟨⟨src, program, g⟩, hsome, hall⟩ := (Option.any_eq_true _ _).1 hgraph
  obtain ⟨hprogram, hg⟩ := graphOf_eq_some hsome
  simp only [Bool.and_eq_true, List.any_eq_true, decide_eq_true_eq, beq_iff_eq] at hall
  obtain ⟨⟨hsource, r, hr, ⟨⟨hstart, hstop⟩, hscope⟩, hclear⟩, e, he, hbinds⟩ := hall
  have horder : classTree.every Concrete.Head.inOrder = true := by decide +kernel
  have hapart : classTree.every Concrete.Head.keepsApart = true := by decide +kernel
  have hnotLoose : ∀ {s : Site} (k : Nat), s.above.all (!·.slot.role.isLoose) = true →
      ¬ g.IsLoose k s := fun k h => not_isLoose (by simpa using h) g k
  obtain ⟨hreferences, hbindings⟩ := places_agree horder hapart hsource hprogram hg
  obtain ⟨_, hinnermost, hfound⟩ := hreferences r hr (hstart ▸ hstop) (hnotLoose _ hclear)
  refine ⟨src, program, g, horder, hapart, hsource, hprogram, hg, ?_, ?_⟩
  · have hat : (r.mention.identifier.start : Int) = 29 := congrArg Int.ofNat hstart
    rw [hat] at hinnermost hfound
    exact ⟨r, hr, hstart, hscope, hnotLoose _ hclear, hinnermost, hfound⟩
  · cases e with
    | define target d =>
      simp only [ScopeEvent.bindsAt, Bool.and_eq_true, beq_iff_eq, decide_eq_true_eq] at hbinds
      obtain ⟨⟨⟨⟨hhere, hname⟩, hstart⟩, hstop⟩, hclear⟩ := hbinds
      obtain ⟨name, hname⟩ := Option.isSome_iff_exists.1 hname
      obtain ⟨k, v, hv, hd, hfound⟩ := hbindings target d name he hhere hname (hstart ▸ hstop)
      have hat : (d.name.start : Int) = 27 := congrArg Int.ofNat hstart
      rw [hat] at hfound
      exact ⟨target, d, k, name, v, he, hstart, hhere, hv, hd, hnotLoose _ hclear,
        hfound (.inr (hnotLoose _ hclear))⟩
    | _ => cases hbinds

end ScopeGraph

end ApiTrace
