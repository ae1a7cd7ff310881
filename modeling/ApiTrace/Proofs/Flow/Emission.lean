import ApiTrace.Trace.Match

/-!
# Emissions

The laws of putting searches one after the other, and where a match of a composed search comes from.
-/

namespace ApiTrace

namespace Emission

variable {ε α : Type}

/-! ## Append -/

theorem append_def (a b : Emission ε) : a ++ b = a.append b := rfl

@[simp] theorem empty_append (e : Emission ε) : .empty ++ e = e := by
  simp [append_def, append, empty]

@[simp] theorem append_empty (e : Emission ε) : e ++ .empty = e := by
  rw [append_def, append]
  split
  · rfl
  · rename_i h
    simp [empty, ← h]

@[simp] theorem fail_append (fault : ε) (e : Emission ε) : .fail fault ++ e = .fail fault := by
  simp [append_def, append, fail]

theorem append_assoc (a b c : Emission ε) : a ++ b ++ c = a ++ (b ++ c) := by
  simp only [append_def, append]
  cases ha : a.fault <;> cases hb : b.fault <;> simp [ha, hb]

theorem fault_append_eq_none_iff {a b : Emission ε} :
    (a ++ b).fault = none ↔ a.fault = none ∧ b.fault = none := by
  rw [append_def, append]
  split
  · rename_i fault h
    simp [h]
  · rename_i h
    simp [h]

theorem found_append {a b : Emission ε} (h : a.fault = none) :
    (a ++ b).found = a.found ++ b.found := by
  rw [append_def, append, h]

/-! ## Changed matches -/

theorem filterMap_append (f : Match → Option Match) (a b : Emission ε) :
    (a ++ b).filterMap f = a.filterMap f ++ b.filterMap f := by
  simp only [append_def, append]
  cases h : a.fault <;> simp [filterMap, h]

theorem filterMap_one (f : Match → Option Match) (found : Match) :
    (one found : Emission ε).filterMap f = (f found).elim empty one := by
  cases h : f found <;> simp [filterMap, one, empty, h]

theorem filterMap_eq_self {f : Match → Option Match} {e : Emission ε}
    (h : ∀ found ∈ e.found, f found = some found) : e.filterMap f = e := by
  obtain ⟨l, fault⟩ := e
  show (⟨l.filterMap f, fault⟩ : Emission ε) = ⟨l, fault⟩
  congr 1
  induction l with
  | nil => rfl
  | cons found rest ih =>
    obtain ⟨hfound, hrest⟩ := List.forall_mem_cons.1 h
    rw [List.filterMap_cons_some hfound, ih hrest]

/-! ## Parts of a list -/

theorem concatMap_congr {f g : α → Emission ε} {l : List α} (h : ∀ a ∈ l, f a = g a) :
    concatMap f l = concatMap g l := by
  induction l with
  | nil => rfl
  | cons a rest ih =>
    obtain ⟨ha, hrest⟩ := List.forall_mem_cons.1 h
    show f a ++ concatMap f rest = g a ++ concatMap g rest
    rw [ha, ih hrest]

theorem concatMap_filterMap {β : Type} (f : β → Emission ε) (g : α → Option β) (l : List α) :
    concatMap f (l.filterMap g) = concatMap (fun a => (g a).elim empty f) l := by
  induction l with
  | nil => rfl
  | cons a rest ih =>
    rw [List.filterMap_cons]
    cases h : g a with
    | none => simp [concatMap, ih, h]
    | some b => simp [concatMap, ih, h]

theorem concatMap_filter (f : α → Emission ε) (p : α → Bool) (l : List α) :
    concatMap f (l.filter p) = concatMap (fun a => if p a then f a else empty) l := by
  rw [← List.filterMap_eq_filter, concatMap_filterMap]
  refine congrArg (concatMap · l) (funext fun a => ?_)
  cases h : p a <;> simp [Option.guard, h]

/-! ## Where a match comes from -/

theorem mem_found_append {a b : Emission ε} {found : Match} (h : found ∈ (a ++ b).found) :
    found ∈ a.found ∨ found ∈ b.found := by
  rw [append_def, append] at h
  split at h
  · exact .inl h
  · exact List.mem_append.1 h

theorem mem_found_concatMap {f : α → Emission ε} {l : List α} {found : Match}
    (h : found ∈ (concatMap f l).found) : ∃ a ∈ l, found ∈ (f a).found := by
  induction l with
  | nil => cases h
  | cons a rest ih =>
    rcases mem_found_append h with h | h
    · exact ⟨a, List.mem_cons_self, h⟩
    · obtain ⟨b, hb, hfound⟩ := ih h
      exact ⟨b, List.mem_cons_of_mem a hb, hfound⟩

theorem mem_found_withValue {value : Except ε (Option α)} {f : α → Emission ε} {found : Match}
    (h : found ∈ (withValue value f).found) : ∃ a, value = .ok (some a) ∧ found ∈ (f a).found := by
  unfold withValue at h
  split at h
  · cases h
  · cases h
  · rename_i a
    exact ⟨a, rfl, h⟩

theorem mem_found_filterMap {f : Match → Option Match} {e : Emission ε} {found : Match}
    (h : found ∈ (e.filterMap f).found) : ∃ old ∈ e.found, f old = some found :=
  List.mem_filterMap.1 h

end Emission

end ApiTrace
