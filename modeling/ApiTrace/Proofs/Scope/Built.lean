import ApiTrace.Proofs.Scope.Occurrences
import ApiTrace.Proofs.Scope.Resolution

/-!
# What a scope graph is made of

The events of a program are what its code says, in some order (`yields_bodyEvents`). So the scopes
of its graph, before undeclared names are added, are those that the code opens, a scope knows what
the code declares for it, and the references are what the code mentions (`ScopeGraph.exists_built`).
-/

namespace ApiTrace

open ScopeBuilder

/-! ## The events of a program -/

theorem map_of_mapM_some {α β : Type} {f : α → Option β} {p : β → α}
    (hp : ∀ a b, f a = some b → p b = a) {as : List α} {bs : List β} (h : as.mapM f = some bs) :
    bs.map p = as := by
  induction as generalizing bs with
  | nil =>
    rw [← Option.some.inj h]
    rfl
  | cons a as ih =>
    rw [List.mapM_cons] at h
    obtain ⟨b, hb, h⟩ := Option.bind_eq_some_iff.1 h
    obtain ⟨bs', hbs', h⟩ := Option.bind_eq_some_iff.1 h
    cases h
    rw [List.map_cons, hp a b hb, ih hbs']

/-- The references of a graph are the mentions of its program, in order. -/
theorem ScopeGraph.references_of_analyze {program : Node} {g : ScopeGraph}
    (h : analyze program = .ok g) :
    g.program = program ∧ ScopeEvent.firstFault? program.scopeEvents = none ∧
      g.references.map (fun r => (r.scope, r.mention)) =
        (ScopeBuilder.run program.scopeEvents).mentions.reverse := by
  simp only [analyze] at h
  split at h
  · cases h
  · rename_i hfault
    split at h
    · cases h
    · rename_i references hreferences
      cases h
      refine ⟨rfl, hfault, map_of_mapM_some ?_ hreferences⟩
      rintro ⟨scope, mention⟩ r hr
      obtain ⟨name, -, rfl⟩ := Option.map_eq_some_iff.1 hr
      rfl

/-- What an accepted program does to names is in order. -/
theorem ScopeGraph.clean_of_analyze {program : Node} {g : ScopeGraph}
    (h : analyze program = .ok g) :
    Clean program.scopeEvents := by
  obtain ⟨-, hfault, hmentions⟩ := references_of_analyze h
  intro e he
  cases e with
  | fault f =>
    have hnone := List.findSome?_eq_none_iff.1 hfault _ he
    cases hnone
  | mention m =>
    -- Every mention that is kept has become a reference, and a reference has a name.
    obtain ⟨j, hj⟩ := ScopeBuilder.empty.exists_place he
    have hmem : (j, m) ∈ (ScopeBuilder.run program.scopeEvents).mentions.reverse := by
      show (j, m) ∈ (ScopeBuilder.empty.after program.scopeEvents).mentions.reverse
      rw [mentions_after]
      exact List.mem_append_right _ (List.mem_filterMap.2 ⟨_, hj, rfl⟩)
    rw [← hmentions] at hmem
    obtain ⟨r, hr, heq⟩ := List.mem_map.1 hmem
    cases heq
    show r.mention.identifier.name?.isSome = true
    rw [((analyze_eq_ok h).2 r hr).2.1]
    rfl
  | _ => rfl

theorem outermost_within (root : Site) : (outermost root).Within [⟨.program, root⟩] where
  chained := outermost_chained root
  base := rfl
  linked := by
    intro i s u rest hs houter
    obtain ⟨hi, rfl⟩ := List.getElem?_eq_some_iff.1 hs
    obtain rfl : i = 0 := Nat.lt_one_iff.1 hi
    cases houter
  innermost := ⟨_, rfl, rfl⟩
  around := rfl

/-- The body of a program says what its code says, inside the outermost scope. -/
theorem yields_bodyEvents {span : Span} {body : List Node} {sourceType : Text} :
    let root := Site.root (.mk span (.program body sourceType))
    Clean (bodyEvents root body sourceType) →
    ∃ T, Yields [⟨.program, root⟩] (bodyEvents root body sourceType) T ∧
      {([], .enter .program root)} + T = root.told := by
  intro root hclean
  have hyields : Clean (ScopeEvent.visitAll root .body 0 body) →
      Yields root.opened (ScopeEvent.visitAll root .body 0 body)
        (root.toldFrom .body 0 (body.map some)) := by
    intro hclean
    have hall := yields_all root .body rfl rfl (fun n _ => n.faithful)
      (fun i n _ => ordinary_of_read rfl rfl) hclean
    have hregions : root.opens .body ++ regions root.above = root.opened := List.append_nil _
    rwa [hregions] at hall
  have htold : root.told = ↑(enters [] root.opened) + root.toldFrom .body 0 (body.map some) := by
    rw [Site.told_eq (s := root) rfl]
    simp [root, Site.root, Form.parts, Node.form, Site.sayings, regions]
  by_cases hmodule : sourceType = Text.ofString "module"
  · have hopened : root.opened = [⟨.moduleBody, root⟩, ⟨.program, root⟩] := by
      simp [root, Site.root, Site.opened, Node.form, hmodule]
    rw [bodyEvents, if_pos hmodule] at hclean ⊢
    rw [hopened] at hyields htold
    refine ⟨_, .scope (hyields (clean_scope.1 hclean)), ?_⟩
    rw [htold, ← add_assoc]
    rfl
  · have hopened : root.opened = [⟨.program, root⟩] := by
      simp [root, Site.root, Site.opened, Node.form, hmodule]
    rw [bodyEvents, if_neg hmodule] at hclean ⊢
    rw [hopened] at hyields htold
    exact ⟨_, hyields hclean, htold.symm⟩

/-! ## What a graph is made of -/

/-- What is kept of events can be read off what they say, as far as nothing is kept of closing a
scope. -/
theorem filterMap_said {α : Type} {f : ScopeEvent → Option α} (hleave : f .leave = none)
    (scopes : List Scope) (places : List (Nat × ScopeEvent)) :
    (said scopes places).filterMap (fun s => f s.2) = places.filterMap (fun p => f p.2) := by
  rw [said, List.filterMap_filterMap]
  refine List.filterMap_congr ?_
  rintro ⟨j, e⟩ -
  cases e with
  | leave => exact hleave.symm
  | _ => rfl

section Outermost

variable {root : Site} {events : List ScopeEvent} {T : Multiset Saying} {k : Nat} {name : Text}
  {d : Definition} (h : (outermost root).Tells events [⟨.program, root⟩] T)
  (htold : {([], .enter .program root)} + T = root.told)

include h htold

/-- What is said to the outermost scope is what the code says. -/
theorem perm_said :
    (([], .enter .program root) ::
      said ((outermost root).after events).scopes ((outermost root).places events)).Perm
        (root.code.flatMap Site.sayings) := by
  rw [← Multiset.coe_eq_coe, ← Site.told, ← htold, ← h.said]
  rfl

theorem perm_regions :
    (((outermost root).after events).scopes.map Scope.region).Perm
      (root.code.flatMap Site.opened) := by
  rw [regions_after, ← filterMap_said rfl ((outermost root).after events).scopes]
  exact ((perm_said h htold).filterMap (·.2.region?)).trans root.regions_told

/-- What is said for the scope at an index is what the code says for the region where it stands. -/
theorem exists_said_iff {Q : Saying → Region → Prop}
    (hQ : ∀ R, ¬ Q ([], .enter .program root) R) :
    (∃ s ∈ said ((outermost root).after events).scopes ((outermost root).places events), ∃ R,
      ((outermost root).after events).scopes[k]?.map Scope.region = some R ∧ Q s R) ↔
      ∃ R, ((outermost root).after events).scopes[k]?.map Scope.region = some R ∧
        ∃ x ∈ root.code, ∃ s ∈ x.sayings, Q s R := by
  have hmem : ∀ s, s ∈ root.code.flatMap Site.sayings ↔ s = ([], .enter .program root) ∨
      s ∈ said ((outermost root).after events).scopes ((outermost root).places events) := by
    intro s
    rw [← (perm_said h htold).mem_iff, List.mem_cons]
  constructor
  · rintro ⟨s, hs, R, hR, hQs⟩
    obtain ⟨x, hx, hsx⟩ := List.mem_flatMap.1 ((hmem s).2 (.inr hs))
    exact ⟨R, hR, x, hx, s, hsx, hQs⟩
  · rintro ⟨R, hR, x, hx, s, hsx, hQs⟩
    rcases (hmem s).1 (List.mem_flatMap.2 ⟨x, hx, hsx⟩) with rfl | hs
    · exact absurd hQs (hQ R)
    · exact ⟨s, hs, R, hR, hQs⟩

/-- The names that a scope knows are those that the text declares for it. -/
theorem knows_iff_declares :
    ((outermost root).after events).Knows k name ↔
      ∃ R, ((outermost root).after events).scopes[k]?.map Scope.region = some R ∧
        root.Declares R name := by
  have hdistinct := (perm_regions h htold).nodup_iff.2 root.nodup_regions
  have hempty : ¬ (outermost root).Knows k name := by
    rintro ⟨s, hs, hdeclares⟩
    obtain ⟨hk, rfl⟩ := List.getElem?_eq_some_iff.1 hs
    obtain rfl : k = 0 := Nat.lt_one_iff.1 hk
    cases hdeclares
  rw [knows_after h.steady hdistinct, or_iff_right hempty, exists_said_iff h htold]
  · rfl
  · rintro R ⟨target, hadds, -⟩
    cases hadds

/-- The definitions of a variable are those that the text gives for its scope. -/
theorem defines_iff_text :
    ((outermost root).after events).Defines k name d ↔
      ∃ R, ((outermost root).after events).scopes[k]?.map Scope.region = some R ∧
        root.Defines R name d := by
  have hdistinct := (perm_regions h htold).nodup_iff.2 root.nodup_regions
  have hempty : ¬ (outermost root).Defines k name d := by
    rintro ⟨s, hs, v, hv, -⟩
    obtain ⟨hk, rfl⟩ := List.getElem?_eq_some_iff.1 hs
    obtain rfl : k = 0 := Nat.lt_one_iff.1 hk
    cases hv
  rw [defines_after h.steady hdistinct, or_iff_right hempty, exists_said_iff h htold]
  · rfl
  · rintro R ⟨target, heq, -⟩
    cases heq

end Outermost

/-- A graph whose scopes, before undeclared names are added, say what the text says. -/
structure ScopeGraph.Built (g : ScopeGraph) (root : Site) (scopes : List Scope) : Prop where
  scopes_eq : g.scopes = addUndeclared scopes g.references
  outermost : scopes[0]?.map Scope.region = some ⟨.program, root⟩
  falling : ∀ (i : Nat) (s : Scope), scopes[i]? = some s →
    (i :: s.outer).Pairwise (· > ·) ∧ 0 ∈ i :: s.outer
  linked : ∀ (i : Nat) (s : Scope) (u : Nat) (rest : List Nat), scopes[i]? = some s →
    s.outer = u :: rest → ∃ s' : Scope, scopes[u]? = some s' ∧ s'.outer = rest
  regions : (scopes.map Scope.region).Perm (root.code.flatMap Site.opened)
  mentions : (g.references.map (·.mention)).Perm
    ((root.code.flatMap Site.sayings).filterMap (·.2.mention?))
  known : ∀ (k : Nat) (name : Text), (∃ s : Scope, scopes[k]? = some s ∧ s.declares name = true) ↔
    ∃ R, scopes[k]?.map Scope.region = some R ∧ root.Declares R name
  defined : ∀ (k : Nat) (name : Text) (d : Definition),
    (∃ s : Scope, scopes[k]? = some s ∧ s.Defines name d) ↔
      ∃ R, scopes[k]?.map Scope.region = some R ∧ root.Defines R name d
  resolved : ∀ r ∈ g.references, r.scope < scopes.length ∧
    (chain scopes r.scope, .mention r.mention) ∈ root.code.flatMap Site.sayings ∧
    r.mention.identifier.name? = some r.name ∧
    r.resolved = ⟨(lookup? scopes r.scope r.name).getD 0, r.name⟩

/-- The scopes before undeclared names are added are those that come of the events of the
program. -/
theorem ScopeGraph.built_of_analyze {program : Node} {g : ScopeGraph}
    (h : analyze program = .ok g) :
    g.Built (Site.root program) (ScopeBuilder.run program.scopeEvents).scopes := by
  have hclean := clean_of_analyze h
  have hmentions := (references_of_analyze h).2
  obtain ⟨hscopes, hresolved⟩ := analyze_eq_ok h
  obtain ⟨span, form⟩ := program
  cases form with
  | program body sourceType =>
    obtain ⟨T, hyields, htold⟩ := yields_bodyEvents (clean_scope.1 hclean)
    set root := Site.root (.mk span (.program body sourceType))
    set events := bodyEvents root body sourceType
    have hrun : ScopeBuilder.run (Node.mk span (.program body sourceType)).scopeEvents =
        ((outermost root).after events).step .leave := run_program root events
    rw [hrun] at hmentions hscopes hresolved ⊢
    have htells := tells_of_yields hyields (outermost_within root)
    have hkept : g.references.map (fun r => (r.scope, r.mention)) =
        ((outermost root).places events).filterMap fun p => p.2.mention?.map (p.1, ·) :=
      hmentions.2.trans ((outermost root).mentions_after events)
    show g.Built root ((outermost root).after events).scopes
    constructor
    case scopes_eq => exact hscopes
    case outermost => exact htells.grows.region_eq Nat.zero_lt_one
    case falling => exact htells.within.chained.scopes
    case linked => exact htells.within.linked
    case regions => exact perm_regions htells htold
    case mentions =>
      have hsaid : g.references.map (·.mention) =
          (([], .enter .program root) :: said ((outermost root).after events).scopes
            ((outermost root).places events)).filterMap (·.2.mention?) := by
        rw [List.filterMap_cons_none rfl, filterMap_said rfl]
        have hsnd := congrArg (List.map Prod.snd) hkept
        rw [List.map_map, List.map_filterMap] at hsnd
        refine Eq.trans hsnd (List.filterMap_congr ?_)
        rintro ⟨j, e⟩ -
        cases e <;> rfl
      rw [hsaid]
      exact (perm_said htells htold).filterMap _
    case known => exact fun k name => knows_iff_declares htells htold
    case defined => exact fun k name d => defines_iff_text htells htold
    case resolved =>
      intro r hr
      obtain ⟨hmention, hname, hr'⟩ := hresolved r hr
      have hplace : (r.scope, ScopeEvent.mention r.mention) ∈ (outermost root).places events :=
        (place_of_mention hmention).resolve_left (by intro hempty; cases hempty)
      refine ⟨htells.known _ hplace, ?_, hname, congrArg Reference.resolved hr'⟩
      refine (perm_said htells htold).mem_iff.1 (.tail _ ?_)
      exact List.mem_filterMap.2 ⟨_, hplace, rfl⟩
  | _ => exact absurd hclean (not_clean_fault _)

theorem ScopeGraph.exists_built {program : Node} {g : ScopeGraph} (h : analyze program = .ok g) :
    ∃ scopes, g.Built (Site.root program) scopes := ⟨_, built_of_analyze h⟩

end ApiTrace
