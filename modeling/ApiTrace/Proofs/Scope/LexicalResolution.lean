import ApiTrace.Proofs.Flow.Relation
import ApiTrace.Proofs.Scope.Built
import ApiTrace.Proofs.TraceMap.Walk
import ApiTrace.Trace.Root

/-!
# Names are resolved lexically

Every name that the code of a program mentions is a reference, and its variable is the one of that
name in the nearest scope around it that declares the name anywhere in the text
(`ScopeGraph.resolves_lexically`). What the text declares where is said by `Site.Declares`, without
regard to the order in which a program is read.
-/

namespace ApiTrace

theorem Site.opened_of_function {x : Site} (h : x.node.isFunction = true) :
    ∃ rest, x.opened = ⟨.function, x⟩ :: rest := by
  unfold Node.isFunction at h
  split at h
  · rename_i placement name params body isGenerator isAsync hform
    rw [Site.opened, hform]
    cases placement <;> cases name <;> exact ⟨_, rfl⟩
  · cases h

/-- Whether two references have the same identifier. -/
def Reference.sharesIdentifier (r r' : Reference) : Bool :=
  r'.mention.identifier.path == r.mention.identifier.path

/-! ## Undeclared names -/

/-- The outermost scope knows the names that it knew, and those that were looked for in vain. -/
theorem Scope.get?_addUnresolved (s : Scope) (references : List Reference) (name : Text) :
    (s.addUnresolved references).get? name = (s.get? name).or
      (if references.any (fun r => r.resolved.scope = 0 ∧ r.name = name) then some ⟨name, []⟩
        else none) := by
  induction references generalizing s with
  | nil => simp [addUnresolved]
  | cons r references ih =>
    by_cases hscope : r.resolved.scope = 0
    · have hstep : s.addUnresolved (r :: references) =
          (s.addName r.name).addUnresolved references := by
        simp only [addUnresolved, List.foldl_cons, if_pos hscope]
      rw [hstep, ih, Scope.get?_addName]
      by_cases hname : r.name = name
      · cases s.get? name <;> simp [hscope, hname]
      · simp [hscope, hname]
    · have hstep : s.addUnresolved (r :: references) = s.addUnresolved references := by
        simp only [addUnresolved, List.foldl_cons, if_neg hscope]
      rw [hstep, ih]
      simp [hscope]

namespace ScopeGraph

/-- The number of the scope next around a scope. -/
def upper? (g : ScopeGraph) (i : Nat) : Option Nat := g.scopes[i]?.bind (·.outer.head?)

/-- The nearest scope with a property, from a scope outwards, if there is one. -/
inductive Nearest (g : ScopeGraph) (P : Nat → Prop) : Nat → Option Nat → Prop where
  | here {i} (hi : P i) : Nearest g P i (some i)
  | outward {i u found} (hi : ¬ P i) (hupper : g.upper? i = some u) (hu : Nearest g P u found) :
      Nearest g P i found
  | nowhere {i} (hi : ¬ P i) (hupper : g.upper? i = none) : Nearest g P i none

theorem Nearest.unique {g : ScopeGraph} {P : Nat → Prop} {i : Nat} {found found' : Option Nat}
    (h : g.Nearest P i found) (h' : g.Nearest P i found') : found = found' := by
  induction h with
  | here hi =>
    cases h' with
    | here => rfl
    | outward hi' | nowhere hi' => exact absurd hi hi'
  | outward hi hupper _ ih =>
    cases h' with
    | here hi' => exact absurd hi' hi
    | outward _ hupper' hu' =>
      cases hupper.symm.trans hupper'
      exact ih hu'
    | nowhere _ hupper' => cases hupper.symm.trans hupper'
  | nowhere hi hupper =>
    cases h' with
    | here hi' => exact absurd hi' hi
    | outward _ hupper' _ => cases hupper.symm.trans hupper'
    | nowhere => rfl

/-- Whether the text declares a name for a scope. -/
def Declares (g : ScopeGraph) (root : Site) (name : Text) (k : Nat) : Prop :=
  ∃ R, g.scopes[k]?.map Scope.region = some R ∧ root.Declares R name

namespace Built

variable {g : ScopeGraph} {root : Site} {scopes : List Scope} {k : Nat} {name : Text}

theorem outlines (h : g.Built root scopes) : Outlines scopes g.scopes := by
  rw [h.scopes_eq]
  exact .of_eq (map_outline_addUndeclared scopes g.references).symm

theorem region_eq (h : g.Built root scopes) (k : Nat) :
    g.scopes[k]?.map Scope.region = scopes[k]?.map Scope.region := by
  rw [← List.getElem?_map, ← List.getElem?_map, h.scopes_eq,
    map_region_of_outline (map_outline_addUndeclared scopes g.references)]

/-- A scope knows a name before undeclared names are added exactly if the text declares it there. -/
theorem declares_iff (h : g.Built root scopes) :
    g.Declares root name k ↔ scopes[k]?.any (·.declares name) = true := by
  rw [Option.any_eq_true, h.known]
  simp only [Declares, h.region_eq]

theorem perm_regions (h : g.Built root scopes) :
    (g.scopes.map Scope.region).Perm (root.code.flatMap Site.opened) := by
  rw [h.scopes_eq, map_region_of_outline (map_outline_addUndeclared scopes g.references)]
  exact h.regions

/-- A reference stands in the scopes around its identifier. -/
theorem around (h : g.Built root scopes) {r : Reference} (hr : r ∈ g.references) :
    r.mention.identifier ∈ root.code ∧
      chain g.scopes r.scope = ApiTrace.regions r.mention.identifier.above := by
  obtain ⟨hlt, hsaid, -⟩ := h.resolved r hr
  have hchain : chain g.scopes r.scope = chain scopes r.scope := by
    obtain ⟨s, hs⟩ : ∃ s, scopes[r.scope]? = some s := ⟨_, List.getElem?_eq_getElem hlt⟩
    obtain ⟨s', hs', -, houter⟩ := h.outlines.getElem? hs
    rw [chain_of_getElem? hs, chain_of_getElem? hs', houter]
    exact List.filterMap_congr fun k _ => h.region_eq k
  obtain ⟨x, hx, hs⟩ := List.mem_flatMap.1 hsaid
  rcases Site.mem_sayings hs with ⟨_, _, heq⟩ | ⟨m, heq, hm, -⟩ | ⟨_, _, heq, _⟩ | ⟨heq, _⟩
  · cases heq
  · obtain ⟨hregions, heq⟩ := Prod.mk.inj heq
    cases heq
    rw [hm, hchain, hregions]
    exact ⟨hx, rfl⟩
  · cases heq
  · cases (Prod.mk.inj heq).2

/-- Look-up finds the nearest scope. -/
theorem nearest_find? (h : g.Built root scopes) {P : Nat → Prop} {p : Nat → Bool}
    (hp : ∀ k, P k ↔ p k = true) {i : Nat} {s : Scope} (hs : scopes[i]? = some s) :
    g.Nearest P i ((i :: s.outer).find? p) := by
  induction houter : s.outer generalizing i s with
  | nil =>
    obtain ⟨s', hs', -, heq⟩ := h.outlines.getElem? hs
    have hupper : g.upper? i = none := by
      rw [upper?, hs', Option.bind_some, heq, houter]
      rfl
    cases hi : p i with
    | true =>
      rw [List.find?_cons_of_pos hi]
      exact .here ((hp i).2 hi)
    | false =>
      rw [List.find?_cons_of_neg (by simp [hi])]
      exact .nowhere (by simp [hp, hi]) hupper
  | cons u rest ih =>
    obtain ⟨s', hs', -, heq⟩ := h.outlines.getElem? hs
    have hupper : g.upper? i = some u := by
      rw [upper?, hs', Option.bind_some, heq, houter]
      rfl
    obtain ⟨s₁, hs₁, hrest⟩ := h.linked i s u rest hs houter
    cases hi : p i with
    | true =>
      rw [List.find?_cons_of_pos hi]
      exact .here ((hp i).2 hi)
    | false =>
      rw [List.find?_cons_of_neg (by simp [hi])]
      exact .outward (by simp [hp, hi]) hupper (ih hs₁ hrest)

theorem nearest_lookup? (h : g.Built root scopes) (name : Text) {i : Nat} (hi : i < scopes.length) :
    g.Nearest (g.Declares root name) i (lookup? scopes i name) := by
  obtain ⟨s, hs⟩ : ∃ s, scopes[i]? = some s := ⟨_, List.getElem?_eq_getElem hi⟩
  have hlookup : lookup? scopes i name =
      (i :: s.outer).find? fun j => scopes[j]?.any (·.declares name) := by
    simp only [lookup?, hs]
  rw [hlookup]
  exact h.nearest_find? (fun k => h.declares_iff) hs

/-- A variable of the graph comes from the text or is one that was looked for in vain. -/
theorem get?_eq (h : g.Built root scopes) (k : Nat) (name : Text) :
    g.get? ⟨k, name⟩ = (scopes[k]?.bind (·.get? name)).or
      (if k = 0 ∧ g.references.any (fun r => r.resolved.scope = 0 ∧
        r.name = name) then some ⟨name, []⟩
        else none) := by
  rw [ScopeGraph.get?, h.scopes_eq]
  by_cases hk : k = 0
  · obtain ⟨s, hs⟩ : ∃ s, scopes[0]? = some s := Option.isSome_iff_exists.1 (by
        rw [← Option.isSome_map, h.outermost]
        rfl)
    have hs' : (addUndeclared scopes g.references)[0]? = some (s.addUnresolved g.references) := by
      rw [addUndeclared_eq, List.getElem?_modify, hs]
      rfl
    subst hk
    simp only [hs, hs', Option.bind_some, Scope.get?_addUnresolved, true_and]
  · rw [getElem?_addUndeclared hk]
    simp [hk]

theorem get?_of_declares (h : g.Built root scopes) (hdeclares : g.Declares root name k) :
    ∃ s v, scopes[k]? = some s ∧ s.get? name = some v ∧ g.get? ⟨k, name⟩ = some v := by
  obtain ⟨s, hs, hknown⟩ := (Option.any_eq_true _ _).1 (h.declares_iff.1 hdeclares)
  obtain ⟨v, hv⟩ := Option.isSome_iff_exists.1 hknown
  exact ⟨s, v, hs, hv, by rw [h.get?_eq, hs, Option.bind_some, hv, Option.some_or]⟩

/-- A scope that does not declare a name has no variable of it but an undeclared one. -/
theorem get?_of_not_declares (h : g.Built root scopes) (hdeclares : ¬ g.Declares root name k) :
    g.get? ⟨k, name⟩ =
      if k = 0 ∧ g.references.any (fun r => r.resolved.scope = 0 ∧
        r.name = name) then some ⟨name, []⟩
        else none := by
  have hnone : scopes[k]?.bind (·.get? name) = none := by
    rw [h.declares_iff] at hdeclares
    cases hs : scopes[k]? with
    | none => rfl
    | some s =>
      rw [hs, Option.any_some, Scope.declares] at hdeclares
      simpa using hdeclares
  rw [h.get?_eq, hnone, Option.none_or]

/-- The definitions of a variable are those that the text gives for its scope. -/
theorem mem_definitions_iff (h : g.Built root scopes) {v : Variable}
    (hv : g.get? ⟨k, name⟩ = some v) (d : Definition) :
    d ∈ v.definitions ↔ ∃ R, g.scopes[k]?.map Scope.region = some R ∧ root.Defines R name d := by
  rw [h.region_eq, ← h.defined]
  by_cases hdeclares : g.Declares root name k
  · obtain ⟨s, v', hs, hv', hsame⟩ := h.get?_of_declares hdeclares
    obtain rfl : v' = v := Option.some.inj (hsame.symm.trans hv)
    constructor
    · exact fun hd => ⟨s, hs, v', hv', hd⟩
    · rintro ⟨s', hs', v, hv, hd⟩
      cases hs.symm.trans hs'
      cases hv'.symm.trans hv
      exact hd
  · have hempty : v.definitions = [] := by
      rw [h.get?_of_not_declares hdeclares] at hv
      split at hv
      · cases hv
        rfl
      · cases hv
    rw [hempty]
    constructor
    · exact nofun
    · rintro ⟨s, hs, hdefines⟩
      refine absurd (h.declares_iff.2 ?_) hdeclares
      rw [hs, Option.any_some, hdefines.declares]

/-- A reference to a variable of the outermost scope that is not declared there found no scope. -/
theorem lookup?_eq_none_of_not_declares (h : g.Built root scopes) {r : Reference}
    (hr : r ∈ g.references) (hscope : r.resolved.scope = 0)
    (hdeclares : ¬ g.Declares root r.name 0) :
    lookup? scopes r.scope r.name = none := by
  rw [(h.resolved r hr).2.2.2] at hscope
  cases hfound : lookup? scopes r.scope r.name with
  | none => rfl
  | some j =>
    rw [hfound] at hscope
    cases hscope
    obtain ⟨s, hs, hknown⟩ := lookup?_declares hfound
    exact absurd (h.declares_iff.2 (by rw [hs, Option.any_some, hknown])) hdeclares

theorem not_declares_of_lookup?_eq_none (h : g.Built root scopes) {i : Nat} (hi : i < scopes.length)
    (hnone : lookup? scopes i name = none) : ¬ g.Declares root name 0 := by
  obtain ⟨s, hs⟩ : ∃ s, scopes[i]? = some s := ⟨_, List.getElem?_eq_getElem hi⟩
  simp only [lookup?, hs, List.find?_eq_none] at hnone
  rw [h.declares_iff]
  exact hnone 0 (h.falling i s hs).2

/-- A variable without definitions is undeclared or belongs to a function by itself. -/
theorem undefined_cases (h : g.Built root scopes) {v : Variable} (hv : g.get? ⟨k, name⟩ = some v)
    (hempty : v.definitions = []) :
    (k = 0 ∧ ∃ r ∈ g.references, r.resolved = ⟨0, name⟩ ∧
      g.Nearest (g.Declares root name) r.scope none) ∨
    (name = "arguments" ∧ ∃ R, g.scopes[k]?.map Scope.region = some R ∧ R.kind = .function ∧
      R.block.node.isFunction = true) := by
  by_cases hdeclares : g.Declares root name k
  · obtain ⟨R, hR, x, hx, ⟨around, e⟩, hs, target, hadds, htarget⟩ := hdeclares
    cases hadds with
    | implicit =>
      refine .inr ?_
      rcases Site.mem_sayings hs with ⟨_, _, heq⟩ | ⟨_, heq, _⟩ | ⟨_, _, heq, _⟩ | ⟨heq, hfunction⟩
      · cases heq
      · cases heq
      · cases heq
      · cases heq
        refine ⟨rfl, R, hR, ?_⟩
        -- The scope of `arguments` is the innermost one that the function opens.
        obtain ⟨rest, hopened⟩ := x.opened_of_function hfunction
        rw [hopened] at htarget
        cases htarget
        exact ⟨rfl, hfunction⟩
    | define hname =>
      have hd := (h.mem_definitions_iff hv _).2 ⟨R, hR, x, hx, _, hs, target, rfl, hname, htarget⟩
      rw [hempty] at hd
      cases hd
  -- What is not declared is known only from a reference that was looked for in vain.
  · refine .inl ?_
    rw [h.get?_of_not_declares hdeclares] at hv
    split at hv
    · rename_i hfound
      obtain ⟨rfl, hany⟩ := hfound
      obtain ⟨r, hr, hvain⟩ := List.any_eq_true.1 hany
      obtain ⟨hscope, rfl⟩ := of_decide_eq_true hvain
      refine ⟨rfl, r, hr, ?_, ?_⟩
      · rw [← hscope, (h.resolved r hr).2.2.2]
      · rw [← h.lookup?_eq_none_of_not_declares hr hscope hdeclares]
        exact h.nearest_lookup? _ (h.resolved r hr).1
    · cases hv

/-- The variable of a reference is that of the nearest scope that declares its name. -/
theorem resolved_nearest (h : g.Built root scopes) {r : Reference} (hr : r ∈ g.references) :
    ∃ found v, g.Nearest (g.Declares root r.name) r.scope found ∧
      r.resolved = ⟨found.getD 0, r.name⟩ ∧ g.get? r.resolved = some v ∧ v.name = r.name ∧
      (found = none → v.definitions = []) := by
  obtain ⟨hlt, -, -, hresolved⟩ := h.resolved r hr
  have hnearest := h.nearest_lookup? r.name hlt
  cases hfound : lookup? scopes r.scope r.name with
  | none =>
    rw [hfound] at hresolved hnearest
    have hvariable : g.get? r.resolved = some ⟨r.name, []⟩ := by
      rw [hresolved, Option.getD_none,
        h.get?_of_not_declares (h.not_declares_of_lookup?_eq_none hlt hfound), if_pos]
      refine ⟨rfl, List.any_eq_true.2 ⟨r, hr, ?_⟩⟩
      simp [hresolved]
    exact ⟨none, _, hnearest, hresolved, hvariable, rfl, fun _ => rfl⟩
  | some j =>
    rw [hfound] at hresolved hnearest
    obtain ⟨s, hs, hknown⟩ := lookup?_declares hfound
    have hdeclares : g.Declares root r.name j :=
      h.declares_iff.2 (by rw [hs, Option.any_some, hknown])
    obtain ⟨s', v, -, hv, hvariable⟩ := h.get?_of_declares hdeclares
    exact ⟨some j, v, hnearest, hresolved, hresolved ▸ hvariable, Scope.name_of_get? hv, nofun⟩

theorem not_declares_of_undefined (h : g.Built root scopes) {v : Variable}
    (hv : g.get? ⟨0, name⟩ = some v) (hempty : v.definitions = []) : ¬ g.Declares root name 0 := by
  rcases h.undefined_cases hv hempty with ⟨-, r, hr, -, hnearest⟩ | ⟨-, R, hR, hkind, -⟩
  · have hlt := (h.resolved r hr).1
    exact h.not_declares_of_lookup?_eq_none hlt ((h.nearest_lookup? name hlt).unique hnearest)
  · rw [h.region_eq, h.outermost] at hR
    cases hR
    cases hkind

/-- The reads of an undeclared global are those that no scope around them declares. -/
theorem reads_undeclared_iff (h : g.Built root scopes) {r : Reference} :
    (∃ x, g.undeclared? name = some x ∧ r ∈ g.readsOf x) ↔
      r ∈ g.references ∧ r.mention.access.reads = true ∧ r.name = name ∧
        g.Nearest (g.Declares root name) r.scope none := by
  constructor
  · rintro ⟨x, hx, hread⟩
    obtain ⟨hmem, hreads⟩ := List.mem_filter.1 hread
    obtain ⟨hr, hresolved⟩ := List.mem_filter.1 hmem
    obtain rfl : r.resolved = x := eq_of_beq hresolved
    unfold undeclared? at hx
    split at hx
    · rename_i v hv
      split at hx
      · rename_i hempty
        have hid : r.resolved = ⟨0, name⟩ := (Option.some.inj hx).symm
        have hname : r.name = name := by
          rw [(h.resolved r hr).2.2.2] at hid
          exact congrArg VariableId.name hid
        subst hname
        have hnot := h.not_declares_of_undefined hv (List.isEmpty_iff.1 hempty)
        have hnone := h.lookup?_eq_none_of_not_declares hr (congrArg VariableId.scope hid) hnot
        refine ⟨hr, hreads, rfl, ?_⟩
        rw [← hnone]
        exact h.nearest_lookup? _ (h.resolved r hr).1
      · cases hx
    · cases hx
  · rintro ⟨hr, hreads, rfl, hnearest⟩
    obtain ⟨found, v, hfound, hresolved, hv, -, hempty⟩ := h.resolved_nearest hr
    obtain rfl : found = none := hfound.unique hnearest
    refine ⟨r.resolved, ?_, ?_⟩
    · rw [hresolved, Option.getD_none] at hv ⊢
      rw [undeclared?, hv]
      simp [hempty rfl]
    · refine List.mem_filter.2 ⟨List.mem_filter.2 ⟨hr, ?_⟩, hreads⟩
      exact beq_self_eq_true r.resolved

end Built

/-! ## Lexical resolution -/

/-- **Names are resolved lexically and nothing is lost.** How a graph fits the text of its program:

* its scopes and its references are those of the text, and each reference stands in the scopes that
  are around its identifier,
* no identifier has two references, and a reference is listed once, with its scope, and once, with
  its variable,
* the variable of a reference is the one of its name in the nearest scope that declares the name, be
  it before or after the reference, or a variable of the outermost scope that has no definitions,
* a variable has the definitions of the text, and none only if it is such an undeclared global or
  what every function but an arrow function has as `arguments`,
* the roots of a global key are the reads of that name that no scope around them declares. -/
structure IsLexical (g : ScopeGraph) (root : Site) : Prop where
  outermost : g.scopes[0]?.map Scope.region = some ⟨.program, root⟩
  scopes : (g.scopes.map Scope.region).Perm (root.code.flatMap Site.opened)
  references : (g.references.map (·.mention)).Perm
    ((root.code.flatMap Site.sayings).filterMap (·.2.mention?))
  around : ∀ r ∈ g.references, r.mention.identifier ∈ root.code ∧
    chain g.scopes r.scope = regions r.mention.identifier.above
  once : (g.references.map (·.mention.identifier.path)).Nodup
  listed : ∀ r ∈ g.references,
    (∀ k, (g.referencesIn k).countP r.sharesIdentifier = if k = r.scope then 1 else 0) ∧
    ∀ x, (g.referencesOf x).countP r.sharesIdentifier = if x = r.resolved then 1 else 0
  resolved : ∀ r ∈ g.references, r.mention.identifier.name? = some r.name ∧
    ∃ found v, g.Nearest (g.Declares root r.name) r.scope found ∧
      r.resolved = ⟨found.getD 0, r.name⟩ ∧ g.get? r.resolved = some v ∧ v.name = r.name ∧
      (found = none → v.definitions = [])
  defined : ∀ k name v, g.get? ⟨k, name⟩ = some v → ∀ d,
    d ∈ v.definitions ↔ ∃ R, g.scopes[k]?.map Scope.region = some R ∧ root.Defines R name d
  undefined : ∀ k name v, g.get? ⟨k, name⟩ = some v → v.definitions = [] →
    (k = 0 ∧ ∃ r ∈ g.references, r.resolved = ⟨0, name⟩ ∧
      g.Nearest (g.Declares root name) r.scope none) ∨
    (name = "arguments" ∧ ∃ R, g.scopes[k]?.map Scope.region = some R ∧ R.kind = .function ∧
      R.block.node.isFunction = true)
  roots : ∀ {ι : Type} (joins : Bool) (m : TraceMap ι) (key : Text) (r : Reference),
    (∃ x child, (key, x, child) ∈ Tracer.globalRoots ⟨g, joins⟩ m ∧ r ∈ g.readsOf x) ↔
      (m.child? key).isSome = true ∧ r ∈ g.references ∧ r.mention.access.reads = true ∧
      r.name = key ∧
        g.Nearest (g.Declares root key) r.scope none

theorem countP_filter_of_nodup {references : List Reference}
    (h : (references.map (·.mention.identifier.path)).Nodup) {r : Reference} (hr : r ∈ references)
    (p : Reference → Bool) :
    (references.filter p).countP r.sharesIdentifier = if p r then 1 else 0 := by
  have hone : references.countP r.sharesIdentifier = 1 := by
    have hcount := List.count_eq_one_of_mem h (List.mem_map.2 ⟨r, hr, rfl⟩)
    rw [List.count, List.countP_map] at hcount
    exact hcount
  have hsame : ∀ r' ∈ references, (r.sharesIdentifier r' && p r') =
      (r.sharesIdentifier r' && p r) := by
    intro r' hr'
    cases hshares : r.sharesIdentifier r' with
    | false => rfl
    | true => rw [List.inj_on_of_nodup_map h hr' hr (eq_of_beq hshares)]
  rw [List.countP_filter, List.countP_congr fun r' hr' => by rw [hsame r' hr']]
  cases p r with
  | true => simpa using hone
  | false => simp

theorem resolves_lexically {program : Node} {g : ScopeGraph} (h : analyze program = .ok g) :
    g.IsLexical (Site.root program) := by
  obtain ⟨scopes, hbuilt⟩ := exists_built h
  have honce : (g.references.map (·.mention.identifier.path)).Nodup := by
    have hperm := hbuilt.mentions.map (·.identifier.path)
    rw [List.map_map] at hperm
    exact hperm.nodup_iff.2 (Site.root program).nodup_mentions
  constructor
  case outermost => rw [hbuilt.region_eq, hbuilt.outermost]
  case scopes => exact hbuilt.perm_regions
  case references => exact hbuilt.mentions
  case around => exact fun r hr => hbuilt.around hr
  case once => exact honce
  case listed =>
    intro r hr
    refine ⟨fun k => ?_, fun x => ?_⟩
    · rw [referencesIn, countP_filter_of_nodup honce hr]
      simp only [beq_iff_eq, eq_comm (a := r.scope)]
    · rw [referencesOf, countP_filter_of_nodup honce hr]
      simp only [beq_iff_eq, eq_comm (a := r.resolved)]
  case resolved => exact fun r hr => ⟨(hbuilt.resolved r hr).2.2.1, hbuilt.resolved_nearest hr⟩
  case defined => exact fun k name v hv => hbuilt.mem_definitions_iff hv
  case undefined => exact fun k name v hv => hbuilt.undefined_cases hv
  case roots =>
    intro ι joins m key r
    rw [← hbuilt.reads_undeclared_iff]
    constructor
    · rintro ⟨x, child, hroot, hread⟩
      obtain ⟨⟨name, child'⟩, hchild, heq⟩ := List.mem_filterMap.1 hroot
      obtain ⟨x', hx', heq⟩ := Option.map_eq_some_iff.1 heq
      cases heq
      rw [TraceMap.mem_children_iff.1 hchild]
      exact ⟨rfl, x, hx', hread⟩
    · rintro ⟨hchild, x, hx, hread⟩
      obtain ⟨child, hchild⟩ := Option.isSome_iff_exists.1 hchild
      refine ⟨x, child, List.mem_filterMap.2 ⟨_, TraceMap.mem_children_iff.2 hchild, ?_⟩, hread⟩
      exact Option.map_eq_some_iff.2 ⟨x, hx, rfl⟩

/-- The program `function f(a){arguments;a;b;c}var c`. -/
def scopedProgram : Node :=
  let name :=
    fun (start stop : Nat) (text : String) => Node.mk ⟨start, stop, 1, start⟩ (.identifier text)
  let read :=
    fun (n : Node) => Node.mk ⟨n.start, n.stop + 1, 1, n.start⟩ (.expressionStatement (some n))
  let block :=
    Node.mk ⟨13, 30, 1, 13⟩ (.block [read (name 14 23 "arguments"), read (name 24 25 "a"),
      read (name 26 27 "b"), read (name 28 29 "c")])
  let function := Node.mk ⟨0, 30, 1, 0⟩
    (.function .declaration (some (name 9 10 "f")) [name 11 12 "a"] (some block) false false)
  let later := Node.mk ⟨30, 35, 1, 30⟩ (.variableDeclaration "var"
    [.mk ⟨34, 35, 1, 34⟩ (.variableDeclarator (some (name 34 35 "c")) none)])
  .mk ⟨0, 35, 1, 0⟩ (.program [function, later] "script")

theorem resolves_lexically_function : ∃ g, analyze scopedProgram = .ok g ∧
    g.IsLexical (Site.root scopedProgram) ∧ g.references.map (fun r => (r.scope, r.resolved)) =
      [(1, ⟨1, "arguments"⟩), (1, ⟨1, "a"⟩), (1, ⟨0, "b"⟩), (1, ⟨0, "c"⟩)] := by
  obtain ⟨g, hg, hreferences⟩ : ∃ g, analyze scopedProgram = .ok g ∧
      g.references.map (fun r => (r.scope, r.resolved)) =
        [(1, ⟨1, "arguments"⟩), (1, ⟨1, "a"⟩), (1, ⟨0, "b"⟩), (1, ⟨0, "c"⟩)] := ⟨_, rfl, rfl⟩
  exact ⟨g, hg, resolves_lexically hg, hreferences⟩

end ScopeGraph

end ApiTrace
