import ApiTrace.Proofs.Scope.Layout

/-!
# Look-up by place follows the layout

Looking for a scope by place can be done while the scopes are built: `reach` is the scope that has
been found so far, and it only moves when a scope opens inside it that covers the place
(`reach_snoc`). For events that are laid out (`Laid`) this gives what a whole list of events does to
it.

* Events that stand elsewhere do not move it (`Descends.keeps`).
* It comes to the scope of every event that is not loose, and for a loose event to the scope that
  opens after it (`Descends.finds`).
-/

namespace ApiTrace

/-! ## The scope that is found so far -/

/-- A scope without its variables. -/
def Scope.outline (s : Scope) : Scope := { s with bindings := [] }

/-- The number of the innermost scope at an offset, of some scopes. -/
def reach (scopes : List Scope) (offset : Int) : Nat :=
  scopes.zipIdx.foldl
    (fun i (s, j) => if s.outer.head? = some i ∧ s.covers offset then j else i) 0

theorem reach_outline (scopes : List Scope) (offset : Int) :
    reach (scopes.map Scope.outline) offset = reach scopes offset := by
  simp only [reach, List.zipIdx_map, List.foldl_map]
  rfl

theorem reach_congr {scopes scopes' : List Scope}
    (h : scopes.map Scope.outline = scopes'.map Scope.outline) (offset : Int) :
    reach scopes offset = reach scopes' offset := by
  rw [← reach_outline scopes, h, reach_outline]

theorem reach_snoc (scopes : List Scope) (s : Scope) (offset : Int) :
    reach (scopes ++ [s]) offset =
      if s.outer.head? = some (reach scopes offset) ∧ s.covers offset then scopes.length
      else reach scopes offset := by
  rw [reach, List.zipIdx_append, List.foldl_append, Nat.zero_add]
  rfl

theorem covers_iff (s : Scope) (o : Nat) : s.covers o = true ↔ s.block.span.zone o := by
  simp [Scope.covers, Span.zone, Site.span, Node.start, Node.stop]

/-- Scopes that have the same places and the same scopes around them, and maybe some more after
them. -/
def Outlines (scopes scopes' : List Scope) : Prop :=
  scopes.map Scope.outline <+: scopes'.map Scope.outline

namespace Outlines

variable {scopes scopes' scopes'' : List Scope}

theorem of_eq (h : scopes.map Scope.outline = scopes'.map Scope.outline) :
    Outlines scopes scopes' :=
  ⟨[], (List.append_nil _).trans h⟩

theorem trans (h : Outlines scopes scopes') (h' : Outlines scopes' scopes'') :
    Outlines scopes scopes'' :=
  List.IsPrefix.trans h h'

theorem length_le (h : Outlines scopes scopes') : scopes.length ≤ scopes'.length := by
  simpa using List.IsPrefix.length_le h

theorem snoc (scopes : List Scope) (s : Scope) : Outlines scopes (scopes ++ [s]) := by
  simp [Outlines]

theorem outline_eq (h : Outlines scopes scopes') {i : Nat} {s : Scope} (hs : scopes[i]? = some s) :
    ∃ s', scopes'[i]? = some s' ∧ s'.outline = s.outline := by
  obtain ⟨rest, hrest⟩ := h
  have hi : i < (scopes.map Scope.outline).length := by
    simpa using (List.getElem?_eq_some_iff.1 hs).1
  have houtline : (scopes'.map Scope.outline)[i]? = some s.outline := by
    rw [← hrest, List.getElem?_append_left hi, List.getElem?_map, hs]
    rfl
  rw [List.getElem?_map] at houtline
  exact Option.map_eq_some_iff.1 houtline

theorem getElem? (h : Outlines scopes scopes') {i : Nat} {s : Scope} (hs : scopes[i]? = some s) :
    ∃ s', scopes'[i]? = some s' ∧ s'.block = s.block ∧ s'.outer = s.outer := by
  obtain ⟨s', hs', heq⟩ := h.outline_eq hs
  obtain ⟨-, hblock, houter, -⟩ := Scope.mk.inj heq
  exact ⟨s', hs', hblock, houter⟩

end Outlines

theorem Scope.outline_addName (s : Scope) (name : Text) : (s.addName name).outline = s.outline := by
  unfold Scope.addName
  split <;> rfl

theorem Scope.outline_addDefinition (s : Scope) (name : Text) (d : Definition) :
    (s.addDefinition name d).outline = s.outline :=
  s.outline_addName name

theorem map_outline_modify {f : Scope → Scope} (hf : ∀ s, (f s).outline = s.outline) (i : Nat)
    (scopes : List Scope) : (scopes.modify i f).map Scope.outline = scopes.map Scope.outline := by
  apply List.ext_getElem?
  intro j
  simp only [List.getElem?_map, List.getElem?_modify]
  cases scopes[j]? with
  | none => rfl
  | some s =>
    by_cases hij : i = j
    · simp [hij, hf]
    · simp [hij]

/-! ## Builders -/

namespace ScopeBuilder

/-- The builder after some events. -/
def after (b : ScopeBuilder) (events : List ScopeEvent) : ScopeBuilder := events.foldl step b

/-- The events, each with the number of the scope that is innermost when it comes. -/
def places (b : ScopeBuilder) : List ScopeEvent → List (Nat × ScopeEvent)
  | [] => []
  | e :: events => (b.current, e) :: (b.step e).places events

variable (b : ScopeBuilder)

@[simp] theorem after_nil : b.after [] = b := rfl

@[simp] theorem after_cons (e : ScopeEvent) (events : List ScopeEvent) :
    b.after (e :: events) = (b.step e).after events := rfl

@[simp] theorem after_append (first second : List ScopeEvent) :
    b.after (first ++ second) = (b.after first).after second := by
  simp [after]

@[simp] theorem places_append (first second : List ScopeEvent) :
    b.places (first ++ second) = b.places first ++ (b.after first).places second := by
  induction first generalizing b with
  | nil => rfl
  | cons e events ih => simp [places, ih]

theorem mem_of_mem_places {j : Nat} {e : ScopeEvent} {events : List ScopeEvent}
    (h : (j, e) ∈ b.places events) : e ∈ events := by
  induction events generalizing b with
  | nil => cases h
  | cons e' events ih =>
    rcases List.mem_cons.1 h with heq | h
    · cases heq
      exact List.mem_cons_self
    · exact List.mem_cons_of_mem _ (ih _ h)

/-- What opens and closes nothing leaves the scopes as they are, but for their variables. -/
theorem step_point {e : ScopeEvent} (he : e.isBracket = false) :
    (b.step e).openScopes = b.openScopes ∧
      (b.step e).scopes.map Scope.outline = b.scopes.map Scope.outline := by
  cases e with
  | enter | leave => cases he
  | define target d =>
    simp only [step]
    split
    · exact ⟨rfl, map_outline_modify (fun s => s.outline_addDefinition _ _) _ _⟩
    · exact ⟨rfl, rfl⟩
  | implicit name => exact ⟨rfl, map_outline_modify (fun s => s.outline_addName _) _ _⟩
  | mention | fault => exact ⟨rfl, rfl⟩

theorem after_points {events : List ScopeEvent} (h : ∀ e ∈ events, e.isBracket = false) :
    (b.after events).openScopes = b.openScopes ∧
      (b.after events).scopes.map Scope.outline = b.scopes.map Scope.outline := by
  induction events generalizing b with
  | nil => exact ⟨rfl, rfl⟩
  | cons e events ih =>
    obtain ⟨hopen, hscopes⟩ := b.step_point (h e List.mem_cons_self)
    obtain ⟨hopen', hscopes'⟩ := ih (b.step e) fun e' he' => h e' (List.mem_cons_of_mem _ he')
    exact ⟨hopen'.trans hopen, hscopes'.trans hscopes⟩

theorem places_points {events : List ScopeEvent} (h : ∀ e ∈ events, e.isBracket = false) {j : Nat}
    {e : ScopeEvent} (hmem : (j, e) ∈ b.places events) : j = b.current := by
  induction events generalizing b with
  | nil => cases hmem
  | cons e' events ih =>
    rcases List.mem_cons.1 hmem with heq | hmem
    · cases heq
      rfl
    · have hopen := (b.step_point (h e' List.mem_cons_self)).1
      rw [ih _ (fun e'' he'' => h e'' (List.mem_cons_of_mem _ he'')) hmem, current, hopen]
      rfl

section Bracket

variable (kind : ScopeKind) (block : Site) (inside : List ScopeEvent)

theorem length_enter : (b.step (.enter kind block)).scopes.length = b.scopes.length + 1 := by
  simp [step]

theorem after_bracket : b.after (.enter kind block :: inside ++ [ScopeEvent.leave]) =
    ((b.step (.enter kind block)).after inside).step .leave := by
  simp

theorem scopes_bracket : (b.after (.enter kind block :: inside ++ [ScopeEvent.leave])).scopes =
    ((b.step (.enter kind block)).after inside).scopes := by
  rw [after_bracket]
  rfl

theorem places_bracket : b.places (.enter kind block :: inside ++ [ScopeEvent.leave]) =
    (b.current, .enter kind block) :: (b.step (.enter kind block)).places inside ++
      [(((b.step (.enter kind block)).after inside).current, .leave)] := by
  rw [List.cons_append, places, places_append]
  rfl

variable {b kind block inside}

theorem mem_places_bracket {j : Nat} {e : ScopeEvent}
    (h : (j, e) ∈ b.places (.enter kind block :: inside ++ [ScopeEvent.leave]))
    (he : e.isBracket = false) :
    (j, e) ∈ (b.step (.enter kind block)).places inside := by
  rw [places_bracket] at h
  rcases List.mem_append.1 h with h | h
  · rcases List.mem_cons.1 h with heq | h
    · cases heq
      cases he
    · exact h
  · cases List.mem_singleton.1 h
    cases he

end Bracket

/-- The numbers of the open scopes and of the scopes around each scope fall, down to that of the
outermost scope. -/
structure Chained (b : ScopeBuilder) : Prop where
  falling : b.openScopes.Pairwise (· > ·)
  known : ∀ i ∈ b.openScopes, i < b.scopes.length
  outermost : 0 ∈ b.openScopes
  scopes : ∀ i s, b.scopes[i]? = some s → (i :: s.outer).Pairwise (· > ·) ∧ 0 ∈ i :: s.outer

variable {b}

theorem Chained.of_outlines {b' : ScopeBuilder} (h : b.Chained)
    (hopen : b'.openScopes = b.openScopes)
    (hscopes : b'.scopes.map Scope.outline = b.scopes.map Scope.outline) : b'.Chained where
  falling := hopen ▸ h.falling
  known i hi := by
    have hlength := congrArg List.length hscopes
    simp only [List.length_map] at hlength
    rw [hlength]
    exact h.known i (hopen ▸ hi)
  outermost := hopen ▸ h.outermost
  scopes i s hs := by
    obtain ⟨s', hs', -, houter⟩ := (Outlines.of_eq hscopes).getElem? hs
    exact houter ▸ h.scopes i s' hs'

theorem Chained.enter (h : b.Chained) (kind : ScopeKind) (block : Site) :
    (b.step (.enter kind block)).Chained where
  falling := List.pairwise_cons.2 ⟨h.known, h.falling⟩
  known i hi := by
    simp only [step, List.length_append, List.length_singleton]
    rcases List.mem_cons.1 hi with rfl | hi
    · omega
    · have := h.known i hi
      omega
  outermost := List.mem_cons_of_mem _ h.outermost
  scopes i s hs := by
    simp only [step] at hs
    rcases Nat.lt_or_ge i b.scopes.length with hi | hi
    · rw [List.getElem?_append_left hi] at hs
      exact h.scopes i s hs
    · have hbound := (List.getElem?_eq_some_iff.1 hs).1
      simp only [List.length_append, List.length_singleton] at hbound
      obtain rfl : i = b.scopes.length := by omega
      rw [List.getElem?_concat_length] at hs
      cases hs
      exact ⟨List.pairwise_cons.2 ⟨h.known, h.falling⟩, List.mem_cons_of_mem _ h.outermost⟩

theorem Chained.leave {b' : ScopeBuilder} (h : b.Chained) (h' : b'.Chained) {i : Nat}
    (hopen : b'.openScopes = i :: b.openScopes) : (b'.step .leave).Chained where
  falling := by
    have hfalling := h'.falling
    rw [hopen] at hfalling
    show b'.openScopes.tail.Pairwise _
    rw [hopen]
    exact (List.pairwise_cons.1 hfalling).2
  known j hj := h'.known j (List.mem_of_mem_tail hj)
  outermost := by
    show 0 ∈ b'.openScopes.tail
    rw [hopen]
    exact h.outermost
  scopes := h'.scopes

/-- Scope number `k` is the innermost one, and its block has `depth` nodes above it. -/
structure Stands (b : ScopeBuilder) (k depth : Nat) : Prop where
  innermost : b.openScopes.head? = some k
  block : ∃ s, b.scopes[k]? = some s ∧ s.block.above.length = depth

theorem Stands.lt {k depth : Nat} (h : b.Stands k depth) : k < b.scopes.length := by
  obtain ⟨s, hs, -⟩ := h.block
  exact (List.getElem?_eq_some_iff.1 hs).1

theorem Stands.current {k depth : Nat} (h : b.Stands k depth) : b.current = k := by
  simp [ScopeBuilder.current, h.innermost]

theorem Stands.of_outlines {b' : ScopeBuilder} {k depth : Nat} (h : b.Stands k depth)
    (hopen : b'.openScopes = b.openScopes) (hscopes : Outlines b.scopes b'.scopes) :
    b'.Stands k depth := by
  obtain ⟨s, hs, hdepth⟩ := h.block
  obtain ⟨s', hs', hblock, -⟩ := hscopes.getElem? hs
  exact ⟨hopen ▸ h.innermost, s', hs', by rw [hblock, hdepth]⟩

theorem stands_enter (b : ScopeBuilder) (kind : ScopeKind) (block : Site) :
    (b.step (.enter kind block)).Stands b.scopes.length block.above.length :=
  ⟨rfl, _, List.getElem?_concat_length, rfl⟩

theorem reach_enter (b : ScopeBuilder) (kind : ScopeKind) (block : Site) {o : Nat}
    (h : b.openScopes.head? = some (reach b.scopes o)) (hzone : block.span.zone o) :
    reach (b.step (.enter kind block)).scopes o = b.scopes.length := by
  rw [step, reach_snoc, if_pos]
  exact ⟨h, (covers_iff _ o).2 hzone⟩

theorem reach_enter_of_not (b : ScopeBuilder) (kind : ScopeKind) (block : Site) {o : Nat}
    (h : b.openScopes.head? ≠ some (reach b.scopes o) ∨ ¬ block.span.zone o) :
    reach (b.step (.enter kind block)).scopes o = reach b.scopes o := by
  rw [step, reach_snoc, if_neg]
  rintro ⟨hopen, hcovers⟩
  rcases h with h | h
  · exact h hopen
  · exact h ((covers_iff _ o).1 hcovers)

end ScopeBuilder

/-! ## Strays -/

/-- A place in scope `j` that stands in what is read before scope `i` opens there. -/
def Strays (scopes : List Scope) (j : Nat) (above : List Frame) (i : Nat) : Prop :=
  ∃ (scope scope' : Scope) (slot : Slot), scopes[j]? = some scope ∧ scopes[i]? = some scope' ∧
    scope'.outer.head? = some j ∧ scope.block.above.length ≤ scope'.block.above.length ∧
    scope'.kind.defers slot.role = true ∧ Clear (scope'.block.frames slot) above

namespace Strays

variable {scopes scopes' : List Scope} {i j : Nat} {above : List Frame}

theorem lt (h : Strays scopes j above i) : i < scopes.length := by
  obtain ⟨scope, scope', slot, -, hscope', -⟩ := h
  exact (List.getElem?_eq_some_iff.1 hscope').1

theorem mono (h : Strays scopes j above i) (hgrows : Outlines scopes scopes') :
    Strays scopes' j above i := by
  obtain ⟨scope, scope', slot, hscope, hscope', houter, hdepth, hdefers, hclear⟩ := h
  obtain ⟨inner, hinner, heq⟩ := hgrows.outline_eq hscope
  obtain ⟨inner', hinner', heq'⟩ := hgrows.outline_eq hscope'
  obtain ⟨-, hblock, -, -⟩ := Scope.mk.inj heq
  obtain ⟨hkind', hblock', houter', -⟩ := Scope.mk.inj heq'
  refine ⟨inner, inner', slot, hinner, hinner', ?_, ?_, ?_, ?_⟩
  · rw [houter', houter]
  · rw [hblock, hblock']
    exact hdepth
  · rw [hkind', hdefers]
  · rw [hblock']
    exact hclear

/-- What strays is loose. -/
theorem looseBelow (h : Strays scopes j above i) {scope : Scope}
    (hscope : scopes[j]? = some scope) :
    LooseBelow scope.block.above.length above := by
  obtain ⟨scope₀, scope', slot, hscope₀, -, -, hdepth, hdefers, hclear⟩ := h
  obtain rfl : scope₀ = scope := Option.some.inj (hscope₀.symm.trans hscope)
  rw [hclear.looseBelow_iff (Nat.le_succ_of_le hdepth)]
  exact (looseBelow_cons hdepth _).2 (.inl (ScopeKind.isLoose_of_defers hdefers))

end Strays

/-- A place that stands in scope `j` without being loose: below `base` if the scope is `k`, and
otherwise below the block of the scope. -/
def Settled (base : List Frame) (k : Nat) (scopes : List Scope) (j : Nat)
    (above : List Frame) : Prop :=
  j = k ∧ Clear base above ∨
    j ≠ k ∧ ∃ scope : Scope, scopes[j]? = some scope ∧ Clear scope.block.above above

theorem Settled.mono {base : List Frame} {j k : Nat} {scopes scopes' : List Scope}
    {above : List Frame} (h : Settled base k scopes j above) (hgrows : Outlines scopes scopes') :
    Settled base k scopes' j above := by
  refine h.imp_right fun ⟨hne, scope, hscope, hclear⟩ => ⟨hne, ?_⟩
  obtain ⟨scope', hscope', hblock, -⟩ := hgrows.getElem? hscope
  exact ⟨scope', hscope', hblock ▸ hclear⟩

/-! ## What laid events do -/

/-- What events in scope `k` do that keep to the zone `Z` below the frames `base`. -/
structure Descends (base : List Frame) (Z : Zone) (k : Nat) (b : ScopeBuilder)
    (events : List ScopeEvent) : Prop where
  opens : (b.after events).openScopes = b.openScopes
  grows : Outlines b.scopes (b.after events).scopes
  chained : b.Chained → (b.after events).Chained
  /-- A place that is not in the zone, or not in scope `k`, stays where it is. -/
  keeps : ∀ o : Nat, reach b.scopes o < b.scopes.length → reach b.scopes o ≠ k ∨ ¬ Z o →
    reach (b.after events).scopes o = reach b.scopes o
  /-- A place in scope `k` at which there is an event comes to the scope of the event, or to the
  scope that it strays to. -/
  finds : ∀ j e s, (j, e) ∈ b.places events → e.site? = some s → s.node.start < s.node.stop →
    Z s.node.start ∧ (j = k ∨ b.scopes.length ≤ j) ∧ j < (b.after events).scopes.length ∧
      (reach b.scopes s.node.start = k →
        reach (b.after events).scopes s.node.start = j ∧
            Settled base k (b.after events).scopes j s.above ∨
          b.scopes.length ≤ reach (b.after events).scopes s.node.start ∧
            Strays (b.after events).scopes j s.above (reach (b.after events).scopes s.node.start))
  binds : ∀ j target d, (j, .define target d) ∈ b.places events → d.bindsHere = true →
    target = .here ∧ ∃ scope, (b.after events).scopes[j]? = some scope ∧
      (d.isParameter = true → ¬ LooseBelow scope.block.above.length d.name.above)

section Descends

variable {base base' : List Frame} {depth k : Nat} {Z Z₁ Z₂ : Zone} {b : ScopeBuilder}

theorem descends_points {events : List ScopeEvent} (h : ∀ e ∈ events, e.IsPoint base depth Z)
    (hb : b.Stands k depth) : Descends base Z k b events := by
  have hbracket : ∀ e ∈ events, e.isBracket = false := fun e he => (h e he).bracket
  obtain ⟨hopen, hscopes⟩ := b.after_points hbracket
  have houtlines : Outlines b.scopes (b.after events).scopes := .of_eq hscopes.symm
  have hplace : ∀ {j e}, (j, e) ∈ b.places events → j = k := fun hmem => by
    rw [b.places_points hbracket hmem, hb.current]
  obtain ⟨scope, hscope, hdepth⟩ := (hb.of_outlines hopen houtlines).block
  refine ⟨hopen, houtlines, fun hc => hc.of_outlines hopen hscopes, ?_, ?_, ?_⟩
  · intro o _ _
    exact reach_congr hscopes o
  · intro j e s hmem hs hne
    obtain ⟨hclear, hzone⟩ := (h e (b.mem_of_mem_places hmem)).site s hs
    obtain rfl := hplace hmem
    refine ⟨hzone hne, .inl rfl, (List.getElem?_eq_some_iff.1 hscope).1,
      fun hreach => .inl ⟨?_, ?_⟩⟩
    · rw [reach_congr hscopes, hreach]
    · exact .inl ⟨rfl, hclear⟩
  · intro j target d hmem hbinds
    obtain ⟨htarget, hloose⟩ := (h _ (b.mem_of_mem_places hmem)).binding target d rfl hbinds
    obtain rfl := hplace hmem
    exact ⟨htarget, scope, hscope, fun hparameter => hdepth ▸ hloose hparameter⟩

/-- Events after others: it is left to show where the places of the first ones are found in the end,
and that the others stand elsewhere. -/
theorem Descends.append_of_finds {first second : List ScopeEvent} (h : Descends base' Z₁ k b first)
    (hb : b.Stands k depth) (h' : Descends base Z₂ k (b.after first) second) (sub₁ : Z₁.Sub Z)
    (sub₂ : Z₂.Sub Z) (hfinds : ∀ j e s, (j, e) ∈ b.places first → e.site? = some s →
      s.node.start < s.node.stop →
      reach b.scopes s.node.start = k →
        reach ((b.after first).after second).scopes s.node.start = j ∧
            Settled base k ((b.after first).after second).scopes j s.above ∨
          b.scopes.length ≤ reach ((b.after first).after second).scopes s.node.start ∧
            Strays ((b.after first).after second).scopes j s.above
              (reach ((b.after first).after second).scopes s.node.start))
    (helse : ∀ j e s, (j, e) ∈ (b.after first).places second → e.site? = some s →
      s.node.start < s.node.stop → ¬ Z₁ s.node.start) : Descends base Z k b (first ++ second) := by
  have hlength := h.grows.length_le
  constructor
  case opens => rw [ScopeBuilder.after_append, h'.opens, h.opens]
  case grows =>
    rw [ScopeBuilder.after_append]
    exact h.grows.trans h'.grows
  case chained =>
    rw [ScopeBuilder.after_append]
    exact fun hc => h'.chained (h.chained hc)
  case keeps =>
    intro o hlt hout
    have hfirst : reach (b.after first).scopes o = reach b.scopes o :=
      h.keeps o hlt (hout.imp_right fun hZ hZ₁ => hZ (sub₁ o hZ₁))
    rw [ScopeBuilder.after_append, h'.keeps o (by omega)]
    · exact hfirst
    · rw [hfirst]
      exact hout.imp_right fun hZ hZ₂ => hZ (sub₂ o hZ₂)
  case finds =>
    intro j e s hmem hs hne
    rw [ScopeBuilder.places_append] at hmem
    rw [ScopeBuilder.after_append]
    rcases List.mem_append.1 hmem with hmem | hmem
    · obtain ⟨hZ, hj, hlt, -⟩ := h.finds j e s hmem hs hne
      exact ⟨sub₁ _ hZ, hj, Nat.lt_of_lt_of_le hlt h'.grows.length_le, hfinds j e s hmem hs hne⟩
    · obtain ⟨hZ, hj, hlt, hreach⟩ := h'.finds j e s hmem hs hne
      refine ⟨sub₂ _ hZ, hj.imp_right (Nat.le_trans hlength), hlt, fun hk => ?_⟩
      refine (hreach ?_).imp_right fun ⟨hnew, hstrays⟩ => ⟨Nat.le_trans hlength hnew, hstrays⟩
      rw [h.keeps _ (hk ▸ hb.lt) (.inr (helse j e s hmem hs hne)), hk]
  case binds =>
    intro j target d hmem hbinds
    rw [ScopeBuilder.places_append] at hmem
    rw [ScopeBuilder.after_append]
    rcases List.mem_append.1 hmem with hmem | hmem
    · obtain ⟨htarget, scope, hscope, hloose⟩ := h.binds j target d hmem hbinds
      obtain ⟨scope', hscope', hblock, -⟩ := h'.grows.getElem? hscope
      exact ⟨htarget, scope', hscope', hblock ▸ hloose⟩
    · exact h'.binds j target d hmem hbinds

theorem Descends.append {first second : List ScopeEvent} (h : Descends base Z₁ k b first)
    (hb : b.Stands k depth)
    (h' : Descends base Z₂ k (b.after first) second) (apart : Z₁.Apart Z₂) (sub₁ : Z₁.Sub Z)
    (sub₂ : Z₂.Sub Z) : Descends base Z k b (first ++ second) := by
  refine h.append_of_finds hb h' sub₁ sub₂ ?_ fun j e s hmem hs hne =>
    apart.symm _ (h'.finds j e s hmem hs hne).1
  intro j e s hmem hs hne hk
  obtain ⟨hZ, -, hlt, hreach⟩ := h.finds j e s hmem hs hne
  -- What comes later stands elsewhere.
  have hkept : reach (b.after first).scopes s.node.start < (b.after first).scopes.length →
      reach ((b.after first).after second).scopes s.node.start =
        reach (b.after first).scopes s.node.start :=
    fun hfound => h'.keeps _ hfound (.inr (apart _ hZ))
  rcases hreach hk with ⟨hfound, hsettled⟩ | ⟨hnew, hstrays⟩
  · rw [hkept (hfound ▸ hlt), hfound]
    exact .inl ⟨rfl, hsettled.mono h'.grows⟩
  · rw [hkept hstrays.lt]
    exact .inr ⟨hnew, hstrays.mono h'.grows⟩

/-- A scope moves the places in its block that have come to the scope around it, and its own events
find theirs. -/
theorem Descends.bracket {inside : List ScopeEvent} {kind : ScopeKind} {block : Site}
    (hinside : Descends block.above Z₂ b.scopes.length (b.step (.enter kind block)) inside)
    (hb : b.Stands k depth) (within : Z₂.Sub block.span.zone) :
    Descends base block.span.zone k b (.enter kind block :: inside ++ [ScopeEvent.leave]) := by
  have hlength := b.length_enter kind block
  have hknown := hb.lt
  have hscopes := b.scopes_bracket kind block inside
  constructor
  case opens =>
    rw [ScopeBuilder.after_bracket]
    show ((b.step (.enter kind block)).after inside).openScopes.tail = b.openScopes
    rw [hinside.opens]
    rfl
  case grows =>
    rw [hscopes]
    exact (Outlines.snoc _ _).trans hinside.grows
  case chained =>
    intro hc
    rw [ScopeBuilder.after_bracket]
    exact hc.leave (hinside.chained (hc.enter kind block)) hinside.opens
  case keeps =>
    intro o hlt hout
    have hsame : reach (b.step (.enter kind block)).scopes o = reach b.scopes o := by
      apply ScopeBuilder.reach_enter_of_not
      rw [hb.innermost]
      exact hout.imp_left fun hne heq => hne (Option.some.inj heq).symm
    rw [hscopes, hinside.keeps o (by omega) (.inl (by omega)), hsame]
  case finds =>
    intro j e s hmem hs hne
    have hmem := ScopeBuilder.mem_places_bracket hmem (ScopeEvent.isBracket_of_site? hs)
    obtain ⟨hZ, hj, hlt, hreach⟩ := hinside.finds j e s hmem hs hne
    rw [hscopes]
    refine ⟨within _ hZ, .inr (by omega), hlt, fun hk => ?_⟩
    have hentered : reach (b.step (.enter kind block)).scopes s.node.start = b.scopes.length := by
      apply ScopeBuilder.reach_enter _ _ _ _ (within _ hZ)
      rw [hk, hb.innermost]
    rcases hreach hentered with ⟨hfound, ⟨rfl, hclear⟩ | ⟨hne, hsettled⟩⟩ | ⟨hnew, hstrays⟩
    · obtain ⟨scope, hscope, hblock, -⟩ := hinside.grows.getElem?
        (List.getElem?_concat_length (l := b.scopes))
      exact .inl ⟨hfound, .inr ⟨by omega, scope, hscope, hblock ▸ hclear⟩⟩
    · exact .inl ⟨hfound, .inr ⟨by omega, hsettled⟩⟩
    · exact .inr ⟨by omega, hstrays⟩
  case binds =>
    intro j target d hmem hbinds
    rw [hscopes]
    exact hinside.binds j target d (ScopeBuilder.mem_places_bracket hmem rfl) hbinds

/-- Entering a scope moves the places that are in its block and have come to the scope around it. -/
theorem Descends.scope {before inside : List ScopeEvent} {kind : ScopeKind} {block : Site}
    {slot : Slot} (hb : b.Stands k depth) (hbefore : Descends (block.frames slot) Z₁ k b before)
    (loose : before = [] ∨ kind.defers slot.role = true) (hdepth : depth ≤ block.above.length)
    (hinside : Descends block.above Z₂ (b.after before).scopes.length
      ((b.after before).step (.enter kind block)) inside)
    (apart : Z₁.Apart Z₂) (sub₁ : Z₁.Sub block.span.zone) (within : Z₂.Sub block.span.zone)
    (sub : block.span.zone.Sub Z) :
    Descends base Z k b (before ++ .enter kind block :: inside ++ [ScopeEvent.leave]) := by
  have hstands := hb.of_outlines hbefore.opens hbefore.grows
  have hscope : Descends base block.span.zone k (b.after before)
      (.enter kind block :: inside ++ [ScopeEvent.leave]) := hinside.bracket hstands within
  rw [List.append_assoc]
  refine hbefore.append_of_finds hb hscope (sub₁.trans sub) sub ?_ fun j e s hmem hs hne => ?_
  case refine_2 =>
    have hmem := ScopeBuilder.mem_places_bracket hmem (ScopeEvent.isBracket_of_site? hs)
    exact apart.symm _ (hinside.finds j e s hmem hs hne).1
  intro j e s hmem hs hne hk
  obtain ⟨hZ, -, hlt, hreach⟩ := hbefore.finds j e s hmem hs hne
  have hlength := hbefore.grows.length_le
  have hknown := hb.lt
  -- A place that has left scope `k` is not moved any more.
  have hkept := hscope.keeps s.node.start
  rcases hreach hk with ⟨hfound, ⟨rfl, hclear⟩ | ⟨hne, hsettled⟩⟩ | ⟨hnew, hstrays⟩
  · -- What stands directly before the scope is moved into it.
    have hdefers : kind.defers slot.role = true := by
      rcases loose with rfl | loose
      · cases hmem
      · exact loose
    have hentered : reach ((b.after before).step (.enter kind block)).scopes s.node.start =
        (b.after before).scopes.length := by
      apply ScopeBuilder.reach_enter _ _ _ _ (sub₁ _ hZ)
      rw [hfound, hstands.innermost]
    have hmoved : reach (((b.after before).step (.enter kind block)).after inside).scopes
        s.node.start = (b.after before).scopes.length := by
      rw [hinside.keeps _ (by simp [hentered, ScopeBuilder.length_enter]) (.inr (apart _ hZ)),
        hentered]
    rw [ScopeBuilder.scopes_bracket, hmoved]
    refine .inr ⟨hlength, ?_⟩
    obtain ⟨s₁, hs₁, hdepth₁⟩ := hstands.block
    obtain ⟨s₂, hs₂, hblock₂, -⟩ := (Outlines.snoc _ _).getElem? hs₁
    refine Strays.mono ⟨s₂, _, slot, hs₂, List.getElem?_concat_length, hstands.innermost, ?_,
      hdefers, hclear⟩
      hinside.grows
    rw [hblock₂, hdepth₁]
    exact hdepth
  · rw [hkept (hfound ▸ hlt) (.inl (hfound ▸ hne)), hfound]
    exact .inl ⟨rfl, Settled.mono (.inr ⟨hne, hsettled⟩) hscope.grows⟩
  · rw [hkept hstrays.lt (.inl (by omega))]
    exact .inr ⟨hnew, hstrays.mono hscope.grows⟩

/-- Laid events descend. The induction follows the layout; inside a scope the scope itself is the
innermost one. -/
theorem Laid.descends {events : List ScopeEvent} (h : Laid base depth Z events)
    (hb : b.Stands k depth) : Descends base Z k b events := by
  induction h generalizing b k with
  | points h => exact descends_points h hb
  | append _ _ apart sub₁ sub₂ ih₁ ih₂ =>
    have hfirst := ih₁ hb
    exact hfirst.append hb (ih₂ (hb.of_outlines hfirst.opens hfirst.grows)) apart sub₁ sub₂
  | scope _ loose hdepth _ _ apart sub₁ within sub ih₁ ih₂ =>
    exact .scope hb (ih₁ hb) loose hdepth (ih₂ (ScopeBuilder.stands_enter _ _ _)) apart
      sub₁ within sub

end Descends

end ApiTrace
