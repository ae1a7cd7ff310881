import ApiTrace.Proofs.Flow.Monotonicity

/-!
# The legacy mode adds to the strict mode

In the strict mode a CommonJS module is imported as a default export and nothing else. In the legacy
mode its properties and its own reports are there beside the default export, so the map through
which a module is seen says more (`TraceMap.Below.legacy`) and more is found
(`Tracer.legacy_mode_adds`).

There is one exception. A property that is itself named `default` takes the place of the default
export (`TraceMap.exported`). What is found in the strict mode is then found in the legacy mode only
as far as that property says what the module says. In any case the legacy mode finds what the strict
mode would find if that property were the module.
-/

namespace ApiTrace

variable {ι κ : Type}

namespace TraceMap

/-- What the legacy form of a module exports as its default: the property `default` of the module,
if it has one, or else the module itself. -/
def exported (m : TraceMap ι) : TraceMap ι := (m.child? defaultName).getD m

theorem node_exported (m : TraceMap ι) : m.exported.node = m.node := by
  unfold exported
  cases hc : m.child? defaultName with
  | none => rfl
  | some c =>
    obtain ⟨i, -, rfl⟩ := Option.map_eq_some_iff.1 hc
    rfl

theorem lookup_exportNode_legacy (m : TraceMap ι) :
    (exportNode true m.root m.rootNode).children.lookup defaultName = some m.exported.root := by
  show ((defaultName, _) :: _).lookup defaultName = _
  rw [List.lookup_cons_self]
  unfold exported child?
  cases m.rootNode.children.lookup defaultName <;> rfl

/-- A module in its strict form is below another one in its legacy form, if it is below the default
export of the other. -/
theorem Below.legacy {m : TraceMap ι} {n : TraceMap κ} (h : m.Below n.exported) :
    (m.asDefaultExport false).Below (n.asDefaultExport true) := by
  obtain ⟨R, hR, hroot⟩ := h
  rw [node_exported] at hR
  refine .of_exportNode hR (fun use entry hentry => ?_)
    ⟨List.cons_sublist_cons.2 (List.nil_sublist _), ?_⟩
  · cases use <;> cases hentry
  · intro name c hc
    -- The strict form has the default export and no other.
    have hc : [(defaultName, m.root)].lookup name = some c := hc
    rw [List.lookup_cons] at hc
    split at hc
    · rename_i hname
      cases hc
      rw [eq_of_beq hname]
      exact ⟨_, lookup_exportNode_legacy n, hroot⟩
    · cases hc

end TraceMap

namespace Tracer

open Emission (Within)

variable {t : Tracer}

/-- The legacy mode finds with a module what the strict mode finds with its default export. -/
theorem specifiersMatches_legacy (t : Tracer) (declaration : Site) (path : List Text)
    {m : TraceMap ι} {n : TraceMap κ} (h : m.Below n.exported) :
    ((t.specifiersMatches declaration ⟨path, m.asDefaultExport false⟩).filterMap
      exceptDefault).Within
      ((t.specifiersMatches declaration ⟨path, n.asDefaultExport true⟩).filterMap
        exceptDefault) := by
  apply Within.filterMap
  apply specifiersMatches_within (.refl t)
  exact ⟨rfl, h.legacy⟩

theorem declarationMatches_legacy (declaration : Site) {v : Traced ι}
    (h : v.map.isEsm = false → v.map.Below v.map.exported) :
    (t.declarationMatches .strict declaration v).Within
      (t.declarationMatches .legacy declaration v) := by
  unfold declarationMatches
  apply (Within.refl _).append
  split
  · exact .refl _
  · split
    · exact .refl _
    · rename_i hesm
      apply specifiersMatches_legacy t declaration v.path
      exact h (Bool.eq_false_iff.2 hesm)

theorem esmMatches_legacy {m : TraceMap ι}
    (h : ∀ s ∈ t.statements, ∀ v, moduleRoot? m s = .ok (some v) → v.map.isEsm = false →
      v.map.Below v.map.exported) : (t.esmMatches .strict m).Within (t.esmMatches .legacy m) := by
  unfold esmMatches
  apply Within.concatMap (.refl _)
  intro s hs
  unfold Emission.withValue
  split
  · exact .refl _
  · exact .refl _
  · rename_i v hroot
    exact declarationMatches_legacy s (h s hs v hroot)

/-- **The legacy mode adds to the strict mode.** If a search for ECMAScript modules in the legacy
mode ends without a fault, the search in the strict mode does so too, and its matches are found
among those of the legacy mode, in the same order. For that the modules that are named in the
program and have not the shape of an ECMAScript module must have no property `default`, or one that
says all that the module says. Whatever that property says, the names that a declaration imports or
exports give in the legacy mode what they would give in the strict mode if the default export of the
legacy mode were the module. -/
theorem legacy_mode_adds (t : Tracer) (m : TraceMap ι) :
    ((∀ s ∈ t.statements, ∀ v, moduleRoot? m s = .ok (some v) → v.map.isEsm = false →
        ∀ d, v.map.child? TraceMap.defaultName = some d → v.map.Below d) →
      (t.esmMatches .legacy m).fault = none →
        (t.esmMatches .strict m).fault = none ∧
          (t.esmMatches .strict m).found.Sublist (t.esmMatches .legacy m).found) ∧
    ∀ (declaration : Site) (v : Traced ι),
      ((t.specifiersMatches declaration
        ⟨v.path, v.map.exported.asDefaultExport false⟩).filterMap exceptDefault).Within
      ((t.specifiersMatches declaration ⟨v.path, v.map.asDefaultExport true⟩).filterMap
        exceptDefault) := by
  constructor
  · intro hdefault hfault
    apply esmMatches_legacy _ hfault
    intro s hs v hroot hesm
    unfold TraceMap.exported
    cases hd : v.map.child? TraceMap.defaultName with
    | none => exact TraceMap.Below.refl _
    | some d => exact hdefault s hs v hroot hesm d hd
  · intro declaration v
    exact specifiersMatches_legacy t declaration v.path (.refl _)

/-- A map in which the module `m` has a function `a` and a property `default`. -/
def defaultMap (node : Fin 3) : TraceMap (Fin 3) where
  node
    | 0 => .ofChildren [("m", (Fin.last 1).castSucc)]
    | 1 => .ofChildren [("default", node), ("a", Fin.last 2)]
    | 2 => { MapNode.empty with onCall := some (.bool true) }
  root := functionMap.root

/-- The property `default` is the module once more. -/
theorem legacy_mode_adds_module :
    (moduleTracer.esmMatches .legacy (defaultMap 1)).fault = none ∧
      (moduleTracer.esmMatches .strict (defaultMap 1)).fault = none ∧
      (moduleTracer.esmMatches .strict (defaultMap 1)).found.length = 1 ∧
      (moduleTracer.esmMatches .strict (defaultMap 1)).found.Sublist
        (moduleTracer.esmMatches .legacy (defaultMap 1)).found := by
  have hfault : (moduleTracer.esmMatches .legacy (defaultMap 1)).fault = none := by decide +kernel
  have hdefault : ∀ s ∈ moduleTracer.statements, ∀ v, moduleRoot? (defaultMap 1) s = .ok (some v) →
      v.map.isEsm = false → ∀ d, v.map.child? TraceMap.defaultName = some d → v.map.Below d := by
    intro s _ v hv _ d hd
    obtain ⟨id, c, hc, rfl⟩ := moduleRoot?_leads hv
    obtain ⟨i, hi, rfl⟩ := Option.map_eq_some_iff.1 hc
    have hi : List.lookup id [(Text.ofString "m", (Fin.last 1).castSucc)] = some i := hi
    rw [List.lookup_cons] at hi
    split at hi
    · cases hi
      obtain rfl : (defaultMap 1).focus 1 = d := Option.some.inj hd
      exact .refl _
    · cases hi
  obtain ⟨hadds, -⟩ := legacy_mode_adds moduleTracer (defaultMap 1)
  obtain ⟨hstrict, hfound⟩ := hadds hdefault hfault
  exact ⟨hfault, hstrict, by decide +kernel, hfound⟩

-- A property `default` without a function `a` hides the one of the module.
example : (moduleTracer.esmMatches .strict (defaultMap 2)).found.length = 1 ∧
    (moduleTracer.esmMatches .legacy (defaultMap 2)).found.length = 0 := by
  decide +kernel

end Tracer

end ApiTrace
