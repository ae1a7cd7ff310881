import ApiTrace.Proofs.Scope.LexicalResolution

/-!
# What is read before a scope opens

A class reads what it extends, and a `switch` statement what it tests, before its scope opens,
although both lie in the block of that scope. A name that stands there is resolved from the scope
around, but looked up by place it is found from the scope that opens next
(`ScopeGraph.strays_into_next_scope`). So the two disagree exactly on the names that the class or
the `switch` itself declares.
-/

namespace ApiTrace

open ScopeBuilder

variable {g : ScopeGraph} {root : Site} {scopes : List Scope}

/-- Where a loose reference of laid events is found. -/
theorem Laid.strays {events : List ScopeEvent} {Z : Zone}
    (h : Laid root.above root.above.length Z events)
    (hg : g.scopes = addUndeclared ((outermost root).after events).scopes g.references)
    {r : Reference} (hmention : (r.scope, r.mention) ∈ ((outermost root).after events).mentions)
    (hne : r.mention.identifier.node.start < r.mention.identifier.node.stop)
    (hloose : g.IsLoose r.scope r.mention.identifier) :
    Strays g.scopes r.scope r.mention.identifier.above
      (g.innermost r.mention.identifier.start) := by
  have houtline : g.scopes.map Scope.outline =
      ((outermost root).after events).scopes.map Scope.outline := by
    rw [hg, map_outline_addUndeclared]
  have hplace := (place_of_mention hmention).resolve_left List.not_mem_nil
  obtain ⟨scope, hscope, -, hstrays⟩ := h.finds_place hplace rfl hne
  obtain ⟨scope', hscope', hbelow⟩ := hloose
  obtain ⟨scope₀, hscope₀, hblock, -⟩ := (Outlines.of_eq houtline).getElem? hscope'
  obtain rfl : scope₀ = scope := Option.some.inj (hscope₀.symm.trans hscope)
  rw [ScopeGraph.innermost_eq houtline]
  exact (hstrays (hblock ▸ hbelow)).mono (.of_eq houtline.symm)

namespace ScopeGraph.Built

/-- A scope of the graph stands in the same scopes as before undeclared names were made known. -/
theorem getElem?_outer (h : g.Built root scopes) {i : Nat} {s : Scope}
    (hs : g.scopes[i]? = some s) :
    ∃ s₀, scopes[i]? = some s₀ ∧ s₀.outer = s.outer := by
  have hback : Outlines g.scopes scopes := by
    rw [h.scopes_eq]
    exact .of_eq (map_outline_addUndeclared scopes g.references)
  obtain ⟨s₀, hs₀, -, houter⟩ := hback.getElem? hs
  exact ⟨s₀, hs₀, houter⟩

/-- The scopes around a scope opened before it. -/
theorem pairwise_outer (h : g.Built root scopes) {i : Nat} {s : Scope}
    (hs : g.scopes[i]? = some s) :
    (i :: s.outer).Pairwise (· > ·) := by
  obtain ⟨s₀, hs₀, houter⟩ := h.getElem?_outer hs
  rw [← houter]
  exact (h.falling i s₀ hs₀).1

/-- The scope next around a scope has the others around it. -/
theorem outer_eq (h : g.Built root scopes) {i u : Nat} {s : Scope} {rest : List Nat}
    (hs : g.scopes[i]? = some s) (houter : s.outer = u :: rest) :
    ∃ s', g.scopes[u]? = some s' ∧ s'.outer = rest := by
  obtain ⟨s₀, hs₀, houter₀⟩ := h.getElem?_outer hs
  obtain ⟨s₁, hs₁, hrest⟩ := h.linked i s₀ u rest hs₀ (houter₀.trans houter)
  obtain ⟨s', hs', -, houter'⟩ := h.outlines.getElem? hs₁
  exact ⟨s', hs', houter'.trans hrest⟩

/-- Look-up finds the scope it starts from or one that opened before. -/
theorem lookup?_le (h : g.Built root scopes) {i k : Nat} {name : Text}
    (hlookup : lookup? g.scopes i name = some k) : k ≤ i := by
  unfold lookup? at hlookup
  split at hlookup
  · cases hlookup
  · rename_i s hs
    have hfalling := List.pairwise_cons.1 (h.pairwise_outer hs)
    rcases List.mem_cons.1 (List.mem_of_find?_eq_some hlookup) with rfl | hk
    · exact Nat.le_refl k
    · exact Nat.le_of_lt (hfalling.1 k hk)

/-- A reference finds its variable from its scope, once undeclared names are known. -/
theorem lookup?_resolved (h : g.Built root scopes) {r : Reference} (hr : r ∈ g.references) :
    lookup? g.scopes r.scope r.name = some r.resolved.scope := by
  obtain ⟨hlt, -, -, hresolved⟩ := h.resolved r hr
  obtain ⟨s, hs⟩ : ∃ s, scopes[r.scope]? = some s := ⟨_, List.getElem?_eq_getElem hlt⟩
  obtain ⟨hfalling, hzero⟩ := h.falling r.scope s hs
  have hscope : r.resolved.scope = (lookup? scopes r.scope r.name).getD 0 := by rw [hresolved]
  rw [hscope, h.scopes_eq]
  exact lookup?_addUndeclared hs hfalling hzero (Nat.lt_of_le_of_lt (Nat.zero_le _) hlt) hr hscope

theorem declares_iff_of_ne_zero (h : g.Built root scopes) {c : Nat} (hc : c ≠ 0) {s : Scope}
    (hs : g.scopes[c]? = some s) {name : Text} :
    g.Declares root name c ↔ s.declares name = true := by
  rw [h.scopes_eq, getElem?_addUndeclared hc] at hs
  rw [h.declares_iff, hs, Option.any_some]

/-- Look-up from the scope that a reference strays to: only that scope itself comes before those in
which the name of the reference is looked up. -/
theorem findVariable?_of_strays (h : g.Built root scopes) {r : Reference} (hr : r ∈ g.references)
    (hstrays : Strays g.scopes r.scope r.mention.identifier.above
      (g.innermost r.mention.identifier.start)) :
    ∃ x, g.findVariable? r.mention.identifier.start r.name = some x ∧
      (g.Declares root r.name (g.innermost r.mention.identifier.start) →
        x = ⟨g.innermost r.mention.identifier.start, r.name⟩ ∧ x ≠ r.resolved) ∧
      (¬ g.Declares root r.name (g.innermost r.mention.identifier.start) → x = r.resolved) := by
  set c := g.innermost r.mention.identifier.start with hc
  obtain ⟨scope, scope', slot, hscope, hscope', hhead, -⟩ := hstrays
  obtain ⟨rest, houter⟩ := List.head?_eq_some_iff.1 hhead
  obtain ⟨scope₀, hscope₀, hrest⟩ := h.outer_eq hscope' houter
  have hlt : r.scope < c := by
    have hfalling := h.pairwise_outer hscope'
    rw [houter] at hfalling
    exact (List.pairwise_cons.1 hfalling).1 r.scope (.head _)
  have hnext := h.lookup?_resolved hr
  -- Scope `c` is not the outermost one, so it knows only what the text declares for it.
  rw [h.declares_iff_of_ne_zero (Nat.ne_zero_of_lt hlt) hscope', findVariable?, ← hc]
  by_cases hdeclares : scope'.declares r.name = true
  · have hlookup : lookup? g.scopes c r.name = some c := by
      simp [lookup?, hscope', hdeclares]
    rw [hlookup]
    refine ⟨⟨c, r.name⟩, rfl, fun _ => ⟨rfl, fun heq => ?_⟩, fun hnot => absurd hdeclares hnot⟩
    have hle := h.lookup?_le hnext
    rw [← heq] at hle
    exact absurd hlt (Nat.not_lt.2 hle)
  · have hlookup : lookup? g.scopes c r.name = lookup? g.scopes r.scope r.name := by
      simp [lookup?, hscope', hscope₀, houter, hrest, hdeclares]
    rw [hlookup, hnext, Option.map_some]
    refine ⟨_, rfl, fun hyes => absurd hyes hdeclares, fun _ => ?_⟩
    rw [(h.resolved r hr).2.2.2]

end ScopeGraph.Built

/-- A value goes from a name that receives it to the variable that is found at its place. -/
theorem Tracer.step_receives {ι : Type} {joins : Bool} {self : Site} {name : Text} {x : VariableId}
    (hform : self.node.form = .identifier name) (hx : g.findVariable? self.start name = some x)
    (v : Traced ι) (via : List VariableId) (n : Nat) (s : FlowState ι) :
    Tracer.Step ⟨g, joins⟩ ⟨.pattern self, v, via⟩ n s ↔
      n = 0 ∧ s = ⟨.variable x false, v, via⟩ := by
  rw [step_pattern_iff, hform]
  simp [hx]

/-- The tree of `switch(x=y){case 1:let x}`. -/
def assigningTest : Concrete :=
  .here "program" none 0 25 [.here "switch_statement" none 0 25 [
    .here "parenthesized_expression" (some "value") 6 11 [.here "assignment_expression" none 7 10 [
      .here "identifier" (some "left") 7 8 [], .here "identifier" (some "right") 9 10 []]],
    .here "switch_body" (some "body") 11 25 [.here "switch_case" none 12 24 [
      .here "number" (some "value") 17 18 [], letTree (some "body") 19]]]]

namespace ScopeGraph

/-- **A name that is read before a scope opens is found in that scope.** Let a concrete tree lie in
its source, in source order, with methods and classes kept apart from their names and heritage
clauses. Look up a reference of its program by its place. This finds a variable, and there a value
goes on that the name receives.

* If the reference is not loose, the variable is its own.
* If it is loose, the innermost scope at its place is that of the nearest class or `switch`
  statement in whose heritage or test it stands. This scope opens in the scope of the reference. If
  the text declares the name there, the variable is that of the class or `switch` statement, which
  is not the variable of the reference. Otherwise it is the variable of the reference. -/
theorem strays_into_next_scope {src : Source} {sourceType : Option Text} {root : Concrete}
    {program : Node} {g : ScopeGraph} (horder : root.every Concrete.Head.inOrder = true)
    (hapart : root.every Concrete.Head.keepsApart = true)
    (hsource : root.head.span.stop ≤ src.bytes.length)
    (hprogram : Node.ofConcrete src sourceType root = .ok program) (hg : analyze program = .ok g) :
    ∀ r ∈ g.references, r.mention.identifier.node.start < r.mention.identifier.node.stop →
      ∃ x, g.findVariable? r.mention.identifier.start r.name = some x ∧
        (r.mention.identifier.node.form = .identifier r.name →
          ∀ {ι : Type} (joins : Bool) (v : Traced ι) (via : List VariableId) (n : Nat)
            (s : FlowState ι),
            Tracer.Step ⟨g, joins⟩ ⟨.pattern r.mention.identifier, v, via⟩ n s ↔
              n = 0 ∧ s = ⟨.variable x false, v, via⟩) ∧
        (¬ g.IsLoose r.scope r.mention.identifier → x = r.resolved) ∧
        (g.IsLoose r.scope r.mention.identifier → ∃ c scope slot,
          g.innermost r.mention.identifier.start = c ∧ g.scopes[c]? = some scope ∧
          scope.kind.defers slot.role = true ∧
          Clear (scope.block.frames slot) r.mention.identifier.above ∧ g.upper? c = some r.scope ∧
          (g.Declares (Site.root program) r.name c → x = ⟨c, r.name⟩ ∧ x ≠ r.resolved) ∧
          (¬ g.Declares (Site.root program) r.name c → x = r.resolved)) := by
  obtain ⟨scopes, hbuilt⟩ := exists_built hg
  obtain ⟨body, kind, rfl, hplaced⟩ := Node.ofConcrete_placed horder hapart hprogram
  have within : root.head.span.zone.Sub
      (Site.root (.mk ⟨0, src.bytes.length, 1, 0⟩ (.program body kind))).span.zone :=
    fun o ho => ⟨Nat.zero_le o, Nat.lt_of_lt_of_le ho.2 hsource⟩
  have hlaid := laid_bodyEvents hplaced within kind
  obtain ⟨hscopes, hreferences⟩ := analyze_eq_ok hg
  rw [scopeEvents_program, ScopeBuilder.run_program] at hscopes hreferences
  intro r hr hne
  obtain ⟨hmention, -, hresolved⟩ := hreferences r hr
  by_cases hloose : g.IsLoose r.scope r.mention.identifier
  · have hstrays := hlaid.strays hscopes hmention hne hloose
    obtain ⟨x, hx, hinner, houter⟩ := hbuilt.findVariable?_of_strays hr hstrays
    obtain ⟨scope, scope', slot, -, hscope', hhead, -, hdefers, hclear⟩ := hstrays
    refine ⟨x, hx, fun hform _ _ => Tracer.step_receives hform hx, absurd hloose, fun _ => ?_⟩
    refine ⟨_, scope', slot, rfl, hscope', hdefers, hclear, ?_, hinner, houter⟩
    rw [upper?, hscope', Option.bind_some, hhead]
  · have hx := (hlaid.reference_agrees hscopes hr hmention hresolved hne hloose).2
    exact ⟨_, hx, fun hform _ _ => Tracer.step_receives hform hx, fun _ => rfl, (absurd · hloose)⟩

/-- Whether the frames above a site are loose from scope `k` on. -/
def looseFrom (g : ScopeGraph) (k : Nat) (s : Site) : Bool :=
  g.scopes[k]?.any fun scope =>
    (s.above.take (s.above.length - scope.block.above.length)).any (·.slot.role.isLoose)

theorem isLoose_of_looseFrom {g : ScopeGraph} {k : Nat} {s : Site} (h : g.looseFrom k s = true) :
    g.IsLoose k s := by
  obtain ⟨scope, hscope, hany⟩ := (Option.any_eq_true _ _).1 h
  exact ⟨scope, hscope, List.any_eq_true.1 hany⟩

/-- Whether a mention is an identifier with the name of its reference. -/
def writesName (r : Reference) : Bool :=
  match r.mention.identifier.node.form with
  | .identifier name => name == r.name
  | _ => false

theorem strays_into_next_scope_switch :
    ∃ (src : Source) (program : Node) (g : ScopeGraph),
      assigningTest.every Concrete.Head.inOrder = true ∧
      assigningTest.every Concrete.Head.keepsApart = true ∧
      assigningTest.head.span.stop ≤ src.bytes.length ∧
      Node.ofConcrete src none assigningTest = .ok program ∧ analyze program = .ok g ∧
      ∃ r ∈ g.references, r.mention.identifier.start = 7 ∧ r.resolved = ⟨0, "x"⟩ ∧
        g.IsLoose r.scope r.mention.identifier ∧ g.innermost 7 = 1 ∧ g.upper? 1 = some r.scope ∧
        g.Declares (Site.root program) r.name 1 ∧ g.findVariable? 7 r.name = some ⟨1, "x"⟩ ∧
        ∀ (v : Traced Unit) (via : List VariableId) (n : Nat) (s : FlowState Unit),
          Tracer.Step ⟨g, false⟩ ⟨.pattern r.mention.identifier, v, via⟩ n s ↔
            n = 0 ∧ s = ⟨.variable ⟨1, "x"⟩ false, v, via⟩ := by
  have hgraph : (graphOf "switch(x=y)\x7bcase 1:let x\x7d" assigningTest).any (fun p =>
      decide (assigningTest.head.span.stop ≤ p.1.bytes.length) && (p.2.2.references.any fun r =>
        r.mention.identifier.node.start == 7 && decide (7 < r.mention.identifier.node.stop) &&
          writesName r && r.resolved == ⟨0, "x"⟩ && p.2.2.looseFrom r.scope r.mention.identifier &&
          p.2.2.findVariable? 7 r.name == some ⟨1, "x"⟩)) = true := by
    decide +kernel
  obtain ⟨⟨src, program, g⟩, hsome, hall⟩ := (Option.any_eq_true _ _).1 hgraph
  obtain ⟨hprogram, hg⟩ := graphOf_eq_some hsome
  simp only [Bool.and_eq_true, List.any_eq_true, decide_eq_true_eq, beq_iff_eq] at hall
  obtain ⟨hsource, r, hr, ⟨⟨⟨⟨hstart, hstop⟩, hname⟩, hresolved⟩, hfrom⟩, hone⟩ := hall
  have horder : assigningTest.every Concrete.Head.inOrder = true := by decide +kernel
  have hapart : assigningTest.every Concrete.Head.keepsApart = true := by decide +kernel
  have hform : r.mention.identifier.node.form = .identifier r.name := by
    unfold writesName at hname
    split at hname
    · rename_i name hform
      rw [hform, eq_of_beq hname]
    · cases hname
  have hloose := isLoose_of_looseFrom hfrom
  have hat : (r.mention.identifier.start : Int) = 7 := congrArg Int.ofNat hstart
  obtain ⟨x, hx, hsteps, -, hstrays⟩ :=
    strays_into_next_scope horder hapart hsource hprogram hg r hr (hstart ▸ hstop)
  obtain ⟨c, scope, slot, hinnermost, -, -, -, hupper, hinner, houter⟩ := hstrays hloose
  rw [hat] at hx hinnermost
  obtain rfl : x = ⟨1, "x"⟩ := Option.some.inj (hx.symm.trans hone)
  -- The variable found is not that of the reference, so the `switch` statement declares the name.
  have hdeclares : g.Declares (Site.root program) r.name c := by
    by_contra hnot
    rw [hresolved] at houter
    cases houter hnot
  obtain rfl : c = 1 := (congrArg VariableId.scope (hinner hdeclares).1).symm
  exact ⟨src, program, g, horder, hapart, hsource, hprogram, hg, r, hr, hstart, hresolved, hloose,
    hinnermost, hupper, hdeclares, hx, hsteps hform false⟩

end ScopeGraph

end ApiTrace
