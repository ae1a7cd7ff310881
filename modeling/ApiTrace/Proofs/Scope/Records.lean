import ApiTrace.Proofs.Scope.Chains

/-!
# What a builder keeps of events

Mentions are kept in the order in which they come, with the scope that they stand in, and every
scope that opens is kept. A variable has the definitions that are said for its scope, no more and no
fewer (`ScopeBuilder.defines_after`), and a scope knows the names that are said for it
(`ScopeBuilder.knows_after`). For both it is said what one step does, and `ScopeBuilder.after_iff`
carries it to a whole run.
-/

namespace ApiTrace

/-! ## Variables of a scope -/

namespace Scope

variable {s : Scope} {name name' : Text} {d d' : Definition}

theorem name_of_get? {v : Variable} (h : s.get? name = some v) : v.name = name := by
  rw [get?] at h
  simpa using List.find?_some h

theorem get?_addName (s : Scope) (name name' : Text) :
    (s.addName name').get? name =
      (s.get? name).or (if name' = name then some ⟨name', []⟩ else none) := by
  unfold addName
  split
  · rename_i hdeclares
    by_cases hname : name' = name
    · obtain ⟨v, hv⟩ := Option.isSome_iff_exists.1 hdeclares
      rw [← hname, hv, Option.some_or]
    · rw [if_neg hname, Option.or_none]
  · simp only [get?, List.find?_append, List.find?_singleton, beq_iff_eq]

theorem declares_addName_iff :
    (s.addName name').declares name = true ↔ s.declares name = true ∨ name = name' := by
  rw [declares, get?_addName, Option.isSome_or, Bool.or_eq_true, declares]
  refine or_congr_right ?_
  by_cases hname : name' = name
  · simp [hname]
  · simp [hname, Ne.symm hname]

theorem declares_addDefinition_iff :
    (s.addDefinition name' d).declares name = true ↔ s.declares name = true ∨ name = name' := by
  rw [declares, get?_addDefinition, Option.isSome_map, ← declares, declares_addName_iff]

theorem defines_addName_iff : (s.addName name').Defines name d ↔ s.Defines name d := by
  constructor
  · rintro ⟨v, hv, hd⟩
    rw [get?_addName] at hv
    rcases Option.or_eq_some_iff.1 hv with hv | ⟨-, hv⟩
    · exact ⟨v, hv, hd⟩
    · split at hv
      · cases hv
        cases hd
      · cases hv
  · exact fun h => h.addName name'

theorem defines_addDefinition_iff :
    (s.addDefinition name' d').Defines name d ↔ s.Defines name d ∨ name = name' ∧ d = d' := by
  constructor
  · rintro ⟨v, hv, hd⟩
    rw [get?_addDefinition] at hv
    obtain ⟨v', hv', rfl⟩ := Option.map_eq_some_iff.1 hv
    split at hd
    · rename_i hname
      rcases List.mem_append.1 hd with hd | hd
      · exact .inl (defines_addName_iff.1 ⟨v', hv', hd⟩)
      · exact .inr ⟨(name_of_get? hv').symm.trans hname, List.mem_singleton.1 hd⟩
    · exact .inl (defines_addName_iff.1 ⟨v', hv', hd⟩)
  · rintro (h | ⟨rfl, rfl⟩)
    · exact h.addDefinition name' d'
    · exact s.defines_addDefinition name d

end Scope

/-! ## What is kept of events -/

/-- What an event mentions. -/
def ScopeEvent.mention? : ScopeEvent → Option Mention
  | .mention m => some m
  | _ => none

/-- The scope that an event opens. -/
def ScopeEvent.region? : ScopeEvent → Option Region
  | .enter kind block => some ⟨kind, block⟩
  | _ => none

theorem map_region_of_outline {scopes scopes' : List Scope}
    (h : scopes'.map Scope.outline = scopes.map Scope.outline) :
    scopes'.map Scope.region = scopes.map Scope.region := by
  have hregion : ∀ l : List Scope, l.map Scope.region = (l.map Scope.outline).map Scope.region := by
    intro l
    rw [List.map_map]
    exact List.map_congr_left fun s _ => s.region_outline.symm
  rw [hregion scopes', hregion scopes, h]

namespace ScopeBuilder

variable {b : ScopeBuilder} {events : List ScopeEvent} {around : List Region} {k : Nat}
    {name : Text}
  {d : Definition}

theorem mentions_after (b : ScopeBuilder) (events : List ScopeEvent) :
    (b.after events).mentions.reverse = b.mentions.reverse ++
      (b.places events).filterMap fun (j, e) => e.mention?.map (j, ·) := by
  induction events generalizing b with
  | nil => simp [places]
  | cons e events ih =>
    show ((b.step e).after events).mentions.reverse = _
    rw [ih, places]
    cases e with
    | mention m => simp [step, ScopeEvent.mention?]
    | define target d =>
      have hsame : (b.step (.define target d)).mentions = b.mentions := by
        simp only [step]
        split <;> rfl
      rw [hsame, List.filterMap_cons_none rfl]
    | _ => rfl

theorem regions_after (b : ScopeBuilder) (events : List ScopeEvent) :
    (b.after events).scopes.map Scope.region =
      b.scopes.map Scope.region ++ (b.places events).filterMap (·.2.region?) := by
  induction events generalizing b with
  | nil => simp [places]
  | cons e events ih =>
    show ((b.step e).after events).scopes.map Scope.region = _
    rw [ih, places]
    cases e with
    | enter kind block => simp [step, ScopeEvent.region?, Scope.region]
    | leave => rfl
    | define | implicit | mention | fault =>
      rw [map_region_of_outline (b.step_point rfl).2, List.filterMap_cons_none rfl]

/-- Whether scope `k` knows a name. -/
def Knows (b : ScopeBuilder) (k : Nat) (name : Text) : Prop :=
  ∃ s, b.scopes[k]? = some s ∧ s.declares name = true

theorem exists_modify_iff {f : Scope → Scope} {P : Scope → Prop} {Q : Prop} {i : Nat}
    {scopes : List Scope} (hi : i < scopes.length) (hf : ∀ s, P (f s) ↔ P s ∨ Q) :
    (∃ s, (scopes.modify i f)[k]? = some s ∧ P s) ↔
      (∃ s, scopes[k]? = some s ∧ P s) ∨ i = k ∧ Q := by
  by_cases hik : i = k
  · subst hik
    obtain ⟨s, hs⟩ : ∃ s, scopes[i]? = some s := ⟨_, List.getElem?_eq_getElem hi⟩
    simp [hs, hf]
  · simp [hik]

theorem exists_snoc_iff {P : Scope → Prop} {scopes : List Scope} {s : Scope} (hs : ¬ P s) :
    (∃ s', (scopes ++ [s])[k]? = some s' ∧ P s') ↔ ∃ s', scopes[k]? = some s' ∧ P s' := by
  constructor
  · rintro ⟨s', hs', hP⟩
    rcases Nat.lt_or_ge k scopes.length with hk | hk
    · rw [List.getElem?_append_left hk] at hs'
      exact ⟨s', hs', hP⟩
    · rw [List.getElem?_append_right hk, List.getElem?_singleton] at hs'
      split at hs'
      · cases hs'
        exact absurd hP hs
      · cases hs'
  · rintro ⟨s', hs', hP⟩
    refine ⟨s', ?_, hP⟩
    rw [List.getElem?_append_left (List.getElem?_eq_some_iff.1 hs').1, hs']

theorem Within.targetScope_lt (h : b.Within around) (target : Target) :
    b.targetScope target < b.scopes.length := by
  cases target with
  | here => exact h.current_lt
  | varScope =>
    unfold targetScope
    cases hfind : b.openScopes.find? fun i => b.scopes[i]?.any (·.kind.ownsVars) with
    | none => exact h.chained.known _ h.chained.outermost
    | some i => exact h.chained.known i (List.mem_of_find?_eq_some hfind)

theorem Within.defines_step (h : b.Within around) (e : ScopeEvent) :
    (b.step e).Defines k name d ↔ b.Defines k name d ∨
      ∃ target, e = .define target d ∧ d.name.name? = some name ∧ b.targetScope target = k := by
  cases e with
  | enter kind block =>
    have hnew : ¬ Scope.Defines ⟨kind, block, b.openScopes, []⟩ name d := by
      rintro ⟨v, hv, -⟩
      cases hv
    simpa [Defines, step] using exists_snoc_iff hnew
  | leave | mention | fault => simp [Defines, step]
  | implicit name' =>
    have hsame : ∀ s : Scope, (s.addName name').Defines name d ↔ s.Defines name d ∨ False := by
      intro s
      rw [Scope.defines_addName_iff, or_false]
    simpa [Defines, step, modify] using
      exists_modify_iff (k := k) (P := (·.Defines name d)) h.current_lt hsame
  | define target d' =>
    simp only [Defines, step]
    cases hname : d'.name.name? with
    | none =>
      simp only [iff_self_or]
      rintro ⟨target', heq, hname', -⟩
      cases heq
      rw [hname] at hname'
      cases hname'
    | some name' =>
      simp only [modify]
      rw [exists_modify_iff (h.targetScope_lt target) fun s => Scope.defines_addDefinition_iff]
      refine or_congr_right ?_
      constructor
      · rintro ⟨htarget, rfl, rfl⟩
        exact ⟨target, rfl, hname, htarget⟩
      · rintro ⟨target', heq, hname', htarget⟩
        cases heq
        rw [hname] at hname'
        cases hname'
        exact ⟨htarget, rfl, rfl⟩

theorem Within.knows_step (h : b.Within around) (e : ScopeEvent) :
    (b.step e).Knows k name ↔
      b.Knows k name ∨ ∃ target, e.Adds name target ∧ b.targetScope target = k := by
  cases e with
  | enter kind block =>
    have hnew : ¬ Scope.declares ⟨kind, block, b.openScopes, []⟩ name = true := by
      simp [Scope.declares, Scope.get?]
    have hadds : ∀ target, ¬ (ScopeEvent.enter kind block).Adds name target := by
      intro target hadds
      cases hadds
    simpa [Knows, step, hadds] using exists_snoc_iff hnew
  | leave | mention | fault =>
    rw [or_iff_left]
    · rfl
    · rintro ⟨target, hadds, -⟩
      cases hadds
  | implicit name' =>
    simp only [Knows, step, modify]
    rw [exists_modify_iff h.current_lt fun s => Scope.declares_addName_iff]
    refine or_congr_right ?_
    constructor
    · rintro ⟨hcurrent, rfl⟩
      exact ⟨.here, .implicit, hcurrent⟩
    · rintro ⟨target, hadds, htarget⟩
      cases hadds
      exact ⟨htarget, rfl⟩
  | define target d' =>
    simp only [Knows, step]
    cases hname : d'.name.name? with
    | none =>
      simp only [iff_self_or]
      rintro ⟨target', hadds, -⟩
      cases hadds with
      | define hname' =>
        rw [hname] at hname'
        cases hname'
    | some name' =>
      simp only [modify]
      rw [exists_modify_iff (h.targetScope_lt target) fun s => Scope.declares_addDefinition_iff]
      refine or_congr_right ?_
      constructor
      · rintro ⟨htarget, rfl⟩
        exact ⟨target, .define hname, htarget⟩
      · rintro ⟨target', hadds, htarget⟩
        cases hadds with
        | define hname' =>
          rw [hname] at hname'
          cases hname'
          exact ⟨htarget, rfl⟩

theorem grows_after (b : ScopeBuilder) (events : List ScopeEvent) :
    Outlines b.scopes (b.after events).scopes := by
  induction events generalizing b with
  | nil => exact .of_eq rfl
  | cons e events ih =>
    refine Outlines.trans ?_ (ih (b.step e))
    cases e with
    | enter => exact Outlines.snoc _ _
    | leave => exact .of_eq rfl
    | define | implicit | mention | fault => exact .of_eq (b.step_point rfl).2.symm

/-- Where scopes stand in different places, the scope of a definition is the one that stands where
the text says. -/
theorem Within.targetScope_iff (h : b.Within around) {scopes : List Scope}
    (hgrows : Outlines b.scopes scopes) (hdistinct : (scopes.map Scope.region).Nodup)
    {target : Target} :
    b.targetScope target = k ↔ ∃ R, scopes[k]?.map Scope.region = some R ∧
      target.region? (chain scopes b.current) = some R := by
  have hlt := h.targetScope_lt target
  have howner : target.region? (chain scopes b.current) =
      scopes[b.targetScope target]?.map Scope.region := by
    rw [h.chain_eq hgrows h.current_lt, h.chain_current, hgrows.region_eq hlt, h.region_targetScope]
  have hlt' : b.targetScope target < (scopes.map Scope.region).length := by
    rw [List.length_map]
    exact Nat.lt_of_lt_of_le hlt hgrows.length_le
  constructor
  · rintro rfl
    refine ⟨(scopes.map Scope.region)[b.targetScope target], ?_, ?_⟩
    · rw [← List.getElem?_map, List.getElem?_eq_getElem hlt']
    · rw [howner, ← List.getElem?_map, List.getElem?_eq_getElem hlt']
  · rintro ⟨R, hk, hR⟩
    rw [howner] at hR
    refine (List.getElem?_inj hlt' hdistinct).1 ?_
    rw [List.getElem?_map, List.getElem?_map, hR, hk]

theorem Within.exists_target_iff (h : b.Within around) {scopes : List Scope}
    (hgrows : Outlines b.scopes scopes) (hdistinct : (scopes.map Scope.region).Nodup)
    {A : Target → Prop} :
    (∃ target, A target ∧ b.targetScope target = k) ↔
      ∃ R, scopes[k]?.map Scope.region = some R ∧
        ∃ target, A target ∧ target.region? (chain scopes b.current) = some R := by
  simp only [h.targetScope_iff hgrows hdistinct]
  constructor
  · rintro ⟨target, hA, R, hk, hR⟩
    exact ⟨R, hk, target, hA, hR⟩
  · rintro ⟨R, hk, target, hA, hR⟩
    exact ⟨target, hA, R, hk, hR⟩

/-- What a run brings about is brought about by one of the sayings, if every step does so. -/
theorem after_iff {P : ScopeBuilder → Prop} {Q : Saying → Prop} {scopes : List Scope}
    (hleave : ∀ around, ¬ Q (around, .leave))
    (hstep : ∀ (b : ScopeBuilder) (around : List Region) (e : ScopeEvent), b.Within around →
      Outlines b.scopes scopes → (P (b.step e) ↔ P b ∨ Q (chain scopes b.current, e)))
    (hsteady : b.Steady events) (hgrows : Outlines (b.after events).scopes scopes) :
    P (b.after events) ↔ P b ∨ ∃ s ∈ said scopes (b.places events), Q s := by
  induction events generalizing b with
  | nil => simp [places, said]
  | cons e events ih =>
    obtain ⟨⟨around, hb⟩, hsteady⟩ := hsteady
    have hgrows' : Outlines b.scopes scopes := (b.grows_after (e :: events)).trans hgrows
    rw [after_cons, ih hsteady hgrows, hstep b around e hb hgrows', or_assoc, places]
    refine or_congr_right ?_
    cases e with
    | leave => simp [said, hleave]
    | _ => simp [said]

/-- The definitions of a variable are those that are said for its scope. -/
theorem defines_after (hsteady : b.Steady events)
    (hdistinct : ((b.after events).scopes.map Scope.region).Nodup) :
    (b.after events).Defines k name d ↔ b.Defines k name d ∨
      ∃ s ∈ said (b.after events).scopes (b.places events), ∃ R,
        (b.after events).scopes[k]?.map Scope.region = some R ∧ s.Defines R name d := by
  refine after_iff (P := (·.Defines k name d)) ?_ ?_ hsteady (.of_eq rfl)
  · rintro around ⟨R, -, target, heq, -⟩
    cases heq
  · intro b' around e hb' hgrows
    rw [hb'.defines_step]
    simp only [Saying.Defines, ← and_assoc]
    exact or_congr_right (hb'.exists_target_iff hgrows hdistinct)

/-- A scope knows the names that are said for it. -/
theorem knows_after (hsteady : b.Steady events)
    (hdistinct : ((b.after events).scopes.map Scope.region).Nodup) :
    (b.after events).Knows k name ↔ b.Knows k name ∨
      ∃ s ∈ said (b.after events).scopes (b.places events), ∃ R,
        (b.after events).scopes[k]?.map Scope.region = some R ∧ s.Adds R name := by
  refine after_iff (P := (·.Knows k name)) ?_ ?_ hsteady (.of_eq rfl)
  · rintro around ⟨R, -, target, hadds, -⟩
    cases hadds
  · intro b' around e hb' hgrows
    rw [hb'.knows_step]
    exact or_congr_right (hb'.exists_target_iff hgrows hdistinct)

end ScopeBuilder

end ApiTrace
