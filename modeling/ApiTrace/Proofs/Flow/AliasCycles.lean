import ApiTrace.Proofs.Flow.Consistency

/-!
# Alias cycles lose nothing

A variable that is being followed is not entered again, so tracing gives only what flows find that
enter no variable twice. A value that comes back to a variable as it was there before can do nothing
new: what it does afterwards it could have done the first time. A flow with such a circle is
therefore as good as the flow without the circle.

* `Tracer.Trail` is a flow with the variables that it enters, as often as it enters them, and the
  path that the value has there.
* `Tracer.Trail.straighten` takes the circles out of a flow whose value comes back to a variable
  only under the path that it had there.
* `Tracer.alias_cycles_lose_nothing`: tracing gives the match at the end of every such flow, unless
  it stops at a fault.

Without a circle a value comes to a variable by an alias and not as the value that is announced
there. The first time it may be announced, which only adds to what can be done
(`Tracer.Step.from_announced`).
-/

namespace ApiTrace

variable {ι : Type}

/-- What is entered by the next step from a state: a variable, with the path of the value. -/
def FlowState.entry? (s : FlowState ι) : Option (VariableId × List Text) :=
  match s.place with
  | .variable x _ => some (x, s.value.path)
  | _ => none

theorem FlowState.eq_of_entry? {s : FlowState ι} {x : VariableId} {p : List Text}
    (h : s.entry? = some (x, p)) :
    ∃ announced, s = ⟨.variable x announced, s.value, s.via⟩ ∧ s.value.path = p := by
  match s, h with
  | ⟨.variable _ announced, v, via⟩, rfl => exact ⟨announced, rfl, rfl⟩

/-- A value is known by its path among all that come of one value. -/
theorem Traced.Leads.eq_of_path_eq {u v w : Traced ι} (hv : u.Leads v) (hw : u.Leads w)
    (h : v.path = w.path) : v = w := by
  obtain ⟨p, hp, hwalk⟩ := hv
  obtain ⟨q, hq, hwalk'⟩ := hw
  have hpq : p = q := by
    rw [hp, hq] at h
    exact List.append_cancel_left h
  subst hpq
  have hmap : v.map = w.map := Option.some.inj (hwalk.symm.trans hwalk')
  obtain ⟨path, map⟩ := v
  obtain ⟨path', map'⟩ := w
  cases h
  cases hmap
  rfl

namespace Tracer

variable {t : Tracer} {s s' s'' : FlowState ι} {n : Nat} {entries : List (VariableId × List Text)}

/-! ## Steps and the variables on the way -/

theorem Step.via_eq (h : t.Step s n s') : s'.via = s.entry?.toList.map Prod.fst ++ s.via := by
  cases h <;> rfl

/-- What a value can do does not depend on how it came to its place. -/
theorem Step.reroute (h : t.Step s n s') (via : List VariableId) :
    t.Step { s with via } n { s' with via := s.entry?.toList.map Prod.fst ++ via } := by
  cases h with
  | announce hr => exact .announce hr
  | mention hr => exact .mention hr
  | pass hp hb => exact .pass hp hb
  | readMember hp hr hf hk hw => exact .readMember hp hr hf hk hw
  | member hp hr hf hk hw => exact .member hp hr hf hk hw
  | call hp hr hf => exact .call hp hr hf
  | construct hp hr hf => exact .construct hp hr hf
  | assign hp hr hf => exact .assign hp hr hf
  | assigned hp hr hf => exact .assigned hp hr hf
  | default hp hr hf => exact .default hp hr hf
  | declare hp hr hf => exact .declare hp hr hf
  | bind hf hx => exact .bind hf hx
  | readProperty hf hn hk hw => exact .readProperty hf hn hk hw
  | property hf hn hk hw hv => exact .property hf hn hk hw hv
  | left hf => exact .left hf

/-- A step out of a variable can also be made where the value is announced. -/
theorem Step.from_announced {x : VariableId} {v : Traced ι} {via : List VariableId}
    (h : t.Step ⟨.variable x false, v, via⟩ n s') (announced : Bool) :
    t.Step ⟨.variable x announced, v, via⟩ n s' := by
  cases h with
  | mention hr => exact .mention hr

/-- No step leads to a variable with the value announced there. -/
theorem Step.place_ne (h : t.Step s n s') (x : VariableId) : s'.place ≠ .variable x true := by
  cases h <;> simp

/-! ## Trails -/

/-- Steps one after the other, with the variables that they enter and the path of the value each
time. A variable may be entered any number of times. -/
inductive Trail (t : Tracer) :
    FlowState ι → List (VariableId × List Text) → FlowState ι → Prop where
  | here (s : FlowState ι) : Trail t s [] s
  | step {s s' s'' : FlowState ι} {n : Nat} {entries : List (VariableId × List Text)}
      (first : t.Step s n s') (rest : Trail t s' entries s'') :
      Trail t s (s.entry?.toList ++ entries) s''

namespace Trail

theorem exists_flow (h : t.Trail s entries s') : ∃ a, t.Flow s a s' := by
  induction h with
  | here s => exact ⟨[], .here s⟩
  | step first _ ih =>
    obtain ⟨a, ha⟩ := ih
    exact ⟨_, .step first ha⟩

theorem leads (h : t.Trail s entries s') : s.value.Leads s'.value := by
  obtain ⟨a, ha⟩ := h.exists_flow
  exact ha.leads

theorem via_eq (h : t.Trail s entries s') : s'.via = (entries.map Prod.fst).reverse ++ s.via := by
  induction h with
  | here s => rfl
  | @step s _ _ _ _ first _ ih =>
    rw [ih, first.via_eq]
    cases s.entry? <;> simp

theorem reroute (h : t.Trail s entries s') (via : List VariableId) :
    ∃ via', t.Trail { s with via } entries { s' with via := via' } := by
  induction h generalizing via with
  | here s => exact ⟨via, .here _⟩
  | step first _ ih =>
    obtain ⟨via', hrest⟩ := ih _
    exact ⟨via', .step (first.reroute via) hrest⟩

/-- A trail ends where it begins or at a place to which a step leads. -/
theorem eq_or_place_ne (h : t.Trail s entries s') (x : VariableId) :
    s' = s ∨ s'.place ≠ .variable x true := by
  induction h with
  | here s => exact .inl rfl
  | step first _ ih =>
    rcases ih with rfl | hne
    · exact .inr (first.place_ne x)
    · exact .inr hne

/-- A trail can be taken apart before any of its entries. -/
theorem split {before after : List (VariableId × List Text)} {x : VariableId} {p : List Text}
    (h : t.Trail s (before ++ (x, p) :: after) s') :
    ∃ mid, mid.entry? = some (x, p) ∧ t.Trail s before mid ∧ t.Trail mid ((x, p) :: after) s' := by
  generalize heq : before ++ (x, p) :: after = entries at h
  induction h generalizing before with
  | here s => simp at heq
  | @step s _ _ _ rest first trail ih =>
    cases hentry : s.entry? with
    | none =>
      rw [hentry] at heq
      obtain ⟨mid, hmid, hbefore, hafter⟩ := ih heq
      refine ⟨mid, hmid, ?_, hafter⟩
      have := Trail.step first hbefore
      rwa [hentry] at this
    | some e =>
      rw [hentry] at heq
      cases before with
      | nil =>
        obtain ⟨rfl, rfl⟩ := List.cons.inj heq
        refine ⟨s, hentry, .here s, ?_⟩
        have := Trail.step first trail
        rwa [hentry] at this
      | cons e' before =>
        obtain ⟨rfl, htail⟩ := List.cons.inj heq
        obtain ⟨mid, hmid, hbefore, hafter⟩ := ih htail
        refine ⟨mid, hmid, ?_, hafter⟩
        have := Trail.step first hbefore
        rwa [hentry] at this

/-- A trail that leaves a variable can also leave it after another way there, with the value
announced or not. -/
theorem from_announced {x : VariableId} {v : Traced ι} {via : List VariableId}
    (h : t.Trail ⟨.variable x false, v, via⟩ ((x, v.path) :: entries) s') (announced : Bool)
    (via' : List VariableId) :
    ∃ via'', t.Trail ⟨.variable x announced, v, via'⟩ ((x, v.path) :: entries)
      { s' with via := via'' } := by
  generalize hstart : (⟨.variable x false, v, via⟩ : FlowState ι) = start at h
  generalize heq : (x, v.path) :: entries = all at h
  cases h with
  | here => cases heq
  | step first rest =>
    subst hstart
    obtain ⟨via'', hrest⟩ := rest.reroute (x :: via')
    exact ⟨via'', .step ((first.reroute via').from_announced announced) hrest⟩

/-- A trail on which a value comes back to a variable only under the path that it had there can be
made to enter no variable twice. The trail after the first step is straightened first; if it comes
back to the variable that is left by this step, all up to there is left out. -/
theorem straighten (h : t.Trail s entries s')
    (hsame : entries.Pairwise fun e e' => e.1 = e'.1 → e.2 = e'.2) :
    ∃ kept via, kept ⊆ entries ∧ (kept.map Prod.fst).Nodup ∧ t.Trail s kept { s' with via } := by
  induction h with
  | here s => exact ⟨[], s.via, List.nil_subset _, .nil, .here s⟩
  | @step s s₁ s' n rest first trail ih =>
    cases hentry : s.entry? with
    | none =>
      rw [hentry] at hsame
      obtain ⟨kept, via, hkept, hnodup, htrail⟩ := ih hsame
      refine ⟨kept, via, hkept, hnodup, ?_⟩
      have := Trail.step first htrail
      rwa [hentry] at this
    | some e =>
      obtain ⟨x, p⟩ := e
      rw [hentry] at hsame
      obtain ⟨hagain, hrest⟩ := List.pairwise_cons.1 hsame
      obtain ⟨kept, via, hkept, hnodup, htrail⟩ := ih hrest
      by_cases hx : x ∈ kept.map Prod.fst
      · obtain ⟨⟨y, q⟩, hmem, rfl⟩ := List.mem_map.1 hx
        obtain rfl : p = q := hagain (y, q) (hkept hmem) rfl
        obtain ⟨before, after, rfl⟩ := List.append_of_mem hmem
        obtain ⟨mid, hmid, hbefore, hafter⟩ := htrail.split
        -- Both times the variable is left with the same value.
        obtain ⟨announced, hs, hpath⟩ := FlowState.eq_of_entry? hentry
        obtain ⟨announced', hmid, hpath'⟩ := FlowState.eq_of_entry? hmid
        have hvalue : mid.value = s.value :=
          (first.leads.trans hbefore.leads).eq_of_path_eq (.refl _) (hpath'.trans hpath.symm)
        have hquiet : announced' = false := by
          have hne : mid.place ≠ .variable y true := by
            rcases hbefore.eq_or_place_ne y with rfl | hne
            · exact first.place_ne y
            · exact hne
          rw [hmid] at hne
          simpa using hne
        subst hquiet
        rw [hmid, hvalue, ← hpath] at hafter
        obtain ⟨via', htrail'⟩ := hafter.from_announced announced s.via
        rw [← hs, hpath] at htrail'
        refine ⟨(y, p) :: after, via', ?_, ?_, htrail'⟩
        · intro e he
          rcases List.mem_cons.1 he with rfl | he
          · exact List.mem_cons_self
          · exact List.mem_cons_of_mem _
              (hkept (List.mem_append_right _ (List.mem_cons_of_mem _ he)))
        · rw [List.map_append] at hnodup
          exact hnodup.sublist (List.sublist_append_right _ _)
      · refine ⟨(x, p) :: kept, via, List.cons_subset_cons _ hkept, ?_, ?_⟩
        · exact List.nodup_cons.2 ⟨hx, hnodup⟩
        · have := Trail.step first htrail
          rwa [hentry] at this

end Trail

/-! ## What tracing gives -/

/-- **Alias cycles lose nothing.** Let a value flow to a use that the trace map reports, through
variables that it may enter again and again, as long as it comes back to a variable only under the
path that it had there. Then tracing reports this use, at the same node and with the same path and
entry, if it does not stop at a fault. -/
theorem alias_cycles_lose_nothing (t : Tracer) (s : FlowState ι) (hs : t.Knows s.place)
    (hvia : s.via = []) (entries : List (VariableId × List Text)) (use : Use) (site : Site)
    (w : Traced ι) (via : List VariableId) (entry : Json)
    (htrail : t.Trail s entries ⟨.use use site, w, via⟩)
    (hsame : entries.Pairwise fun e e' => e.1 = e'.1 → e.2 = e'.2)
    (hentry : w.map.payload? use = some entry) (hfault : (t.follow s).fault = none) :
    ∃ found ∈ (t.follow s).found,
      found.site = site ∧ found.path = w.path ∧ found.use = use ∧ found.entry = entry := by
  obtain ⟨kept, via', -, hnodup, hstraight⟩ := htrail.straighten hsame
  have hvia' : via'.Nodup := by
    have h := hstraight.via_eq
    rw [hvia, List.append_nil] at h
    rw [show via' = _ from h]
    exact List.pairwise_reverse.2 (hnodup.imp Ne.symm)
  obtain ⟨a, hflow⟩ := hstraight.exists_flow
  have hoccurs : t.Occurs s (a ++ []) (.ok ⟨site, w.path, use, entry, via'⟩) :=
    ⟨a, [], _, rfl, hflow, hvia', .found hentry⟩
  have hlists := follow_lists hs (hvia ▸ .nil)
  exact ⟨_, hlists.mem_of_occurs hfault hoccurs, rfl, rfl, rfl, rfl⟩

/-- The program `x = x; x()`. -/
def circleProgram : Node :=
  let name := fun start => Node.mk ⟨start, start + 1, 1, start⟩ (.identifier "x")
  let statement := fun (n : Node) => Node.mk n.span (.expressionStatement (some n))
  .mk ⟨0, 10, 1, 0⟩ (.program
    [statement (.mk ⟨0, 5, 1, 0⟩ (.assignment "=" (some (name 0)) (some (name 4)))),
      statement (.mk ⟨7, 10, 1, 7⟩ (.call (some (name 7)) [] false))] "script")

/-- The tracer of `circleProgram`. -/
def circleTracer : Tracer where
  graph :=
    match ScopeGraph.analyze circleProgram with
    | .ok graph => graph
    | .error _ => ⟨circleProgram, [], []⟩
  joins := true

/-- A function in the undeclared variable of `circleProgram`. -/
def circleStart : FlowState (Fin 3) :=
  ⟨.variable ⟨0, "x"⟩ true, ⟨[Text.ofString "x"], functionMap.focus (Fin.last 2)⟩, []⟩

/-- The function gets to the call after it went round in the circle. -/
theorem alias_cycles_lose_nothing_circle :
    ∃ site via, circleTracer.Trail circleStart
        [(⟨0, "x"⟩, [Text.ofString "x"]), (⟨0, "x"⟩, [Text.ofString "x"])]
        ⟨.use .call site, circleStart.value, via⟩ ∧
      ∃ found ∈ (circleTracer.follow circleStart).found,
        found.site = site ∧ found.path = [Text.ofString "x"] ∧ found.use = .call ∧
          found.entry = .bool true := by
  obtain ⟨site, via, htrail⟩ : ∃ site via, circleTracer.Trail circleStart
      [(⟨0, "x"⟩, [Text.ofString "x"]), (⟨0, "x"⟩, [Text.ofString "x"])]
      ⟨.use .call site, circleStart.value, via⟩ :=
    ⟨_, _, .step (.mention (i := 0) rfl) (.step (.assign rfl rfl rfl)
      (.step (.bind rfl (x := ⟨0, "x"⟩) rfl)
        (.step (.mention (i := 1) rfl) (.step (.call rfl rfl rfl) (.here _)))))⟩
  have hx : (⟨0, "x"⟩ : VariableId) ∈ circleTracer.graph.variableIds := by decide
  -- The variable is not entered again, and the call is no fault.
  have hagain : circleTracer.enter [⟨0, "x"⟩] false ⟨0, "x"⟩ circleStart.value = .empty := by
    rw [enter, dif_neg fun h => h.2 List.mem_cons_self]
  have hfault : (circleTracer.enter [] true ⟨0, "x"⟩ circleStart.value).fault = none := by
    rw [enter, dif_pos ⟨hx, List.not_mem_nil⟩]
    change ((Emission.empty ++ (circleTracer.enter [⟨0, "x"⟩] false ⟨0, "x"⟩ circleStart.value
      ++ Emission.empty)) ++ _).fault = _
    rw [hagain]
    rfl
  exact ⟨site, via, htrail, alias_cycles_lose_nothing circleTracer circleStart hx rfl _ .call site _
    via _ htrail (by decide) rfl hfault⟩

end Tracer

end ApiTrace
