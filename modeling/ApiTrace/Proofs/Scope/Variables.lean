import ApiTrace.Scope.Graph

/-!
# The variables of a scope graph

A variable is found by looking a name up at a place, or as an undeclared global. Either way it is
one of the variables of the graph (`ScopeGraph.findVariable?_mem`, `ScopeGraph.undeclared?_mem`).
-/

namespace ApiTrace

theorem Scope.declares_iff {s : Scope} {name : Text} :
    s.declares name = true ↔ ∃ v ∈ s.bindings, v.name = name := by
  simp [Scope.declares, Scope.get?]

theorem lookup?_declares {scopes : List Scope} {i j : Nat} {name : Text}
    (h : lookup? scopes i name = some j) : ∃ s, scopes[j]? = some s ∧ s.declares name = true := by
  unfold lookup? at h
  split at h
  · cases h
  · have hany := List.find?_some h
    simpa [Option.any_eq_true] using hany

namespace ScopeGraph

variable {g : ScopeGraph}

/-- The ids of the variables are the pairs of a scope and a name that the scope declares. -/
theorem mem_variableIds_iff {x : VariableId} :
    x ∈ g.variableIds ↔ ∃ s, g.scopes[x.scope]? = some s ∧ s.declares x.name = true := by
  simp only [variableIds, List.mem_flatMap, List.mem_map, Prod.exists, Scope.declares_iff]
  constructor
  · rintro ⟨s, i, hs, v, hv, rfl⟩
    exact ⟨s, List.mem_zipIdx_iff_getElem?.1 hs, v, hv, rfl⟩
  · rintro ⟨s, hs, v, hv, hname⟩
    exact ⟨s, x.scope, List.mem_zipIdx_iff_getElem?.2 hs, v, hv, by rw [hname]⟩

theorem findVariable?_mem {offset : Int} {name : Text} {x : VariableId}
    (h : g.findVariable? offset name = some x) : x ∈ g.variableIds := by
  obtain ⟨j, hj, rfl⟩ := Option.map_eq_some_iff.1 h
  exact mem_variableIds_iff.2 (lookup?_declares hj)

theorem undeclared?_mem {name : Text} {x : VariableId} (h : g.undeclared? name = some x) :
    x ∈ g.variableIds := by
  unfold undeclared? at h
  split at h
  · rename_i v hv
    obtain ⟨s, hs, hget⟩ := Option.bind_eq_some_iff.1 hv
    split at h
    · cases h
      exact mem_variableIds_iff.2 ⟨s, hs, by simp [Scope.declares, hget]⟩
    · cases h
  · cases h

end ScopeGraph

end ApiTrace
