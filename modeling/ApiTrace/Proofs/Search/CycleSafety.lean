import ApiTrace.Proofs.Search.Strategies

/-!
# Searches end, whatever the cycles

Aliases can go in a circle, and so can trace maps, so a value may have infinitely many flows. A
search that comes to a variable which it is following does not follow it again. Therefore the
variables on its stack are always different variables of the program (`Search.IsNested`), of which
there are finitely many, and the search comes to its end. The trace map plays no part in this.

* `Plan.GoesOn.stack_cases` says all that one move can do to the stack.
* `Plan.isNested_after` carries the invariant over any number of moves.
* `Tracer.strategies_halt`: so it is for the searches of all strategies.
-/

namespace ApiTrace

/-- What holds of a search at every moment: the variables that it is following are different
variables of the program. -/
structure Search.IsNested {τ : Type} (t : Tracer) (s : Search τ) : Prop where
  nodup : s.stack.Nodup
  known : s.stack ⊆ t.graph.variableIds

theorem Search.IsNested.length_le {τ : Type} {t : Tracer} {s : Search τ} (h : s.IsNested t) :
    s.stack.length ≤ t.graph.variableIds.length :=
  h.nodup.length_le_of_subset h.known

namespace Plan

variable {t : Tracer} {ε τ : Type} {p : Plan t ε τ} {s left last : Search τ} {n : Nat}

/-! ## One move -/

/-- A move takes the last variable off the stack, leaves the stack as it is, or puts a variable of
the program on it that is not there yet. -/
theorem GoesOn.stack_cases (h : p.GoesOn left s) :
    left.stack = s.stack.tail ∨ left.stack = s.stack ∨
      ∃ x ∈ t.graph.variableIds, x ∉ s.stack ∧ left.stack = x :: s.stack := by
  obtain ⟨rank, hfits⟩ := p.ranked
  unfold GoesOn move at h
  split at h
  · rcases h with h | ⟨m, h⟩ <;> cases h
  · rcases h with h | ⟨m, h⟩ <;> cases h
    exact .inl rfl
  · next a rest _ =>
    have hfit := hfits a
    split at h
    · rcases h with h | ⟨m, h⟩ <;> cases h
    · split at h <;> rcases h with h | ⟨m, h⟩ <;> cases h <;> exact .inr (.inl rfl)
    · rcases h with h | ⟨m, h⟩ <;> cases h
      exact .inr (.inl rfl)
    · next x tasks hact =>
      rw [hact] at hfit
      split at h
      · rcases h with h | ⟨m, h⟩ <;> cases h
        exact .inr (.inl rfl)
      · next hx =>
        rcases h with h | ⟨m, h⟩ <;> cases h
        exact .inr (.inr ⟨x, hfit, hx, rfl⟩)

theorem GoesOn.isNested (h : p.GoesOn left s) (hs : s.IsNested t) : left.IsNested t := by
  obtain hstack | hstack | ⟨x, hknown, hx, hstack⟩ := h.stack_cases
  · refine ⟨?_, ?_⟩ <;> rw [hstack]
    · exact hs.nodup.tail
    · exact List.Subset.trans (List.tail_sublist _).subset hs.known
  · refine ⟨?_, ?_⟩ <;> rw [hstack]
    · exact hs.nodup
    · exact hs.known
  · refine ⟨?_, ?_⟩ <;> rw [hstack]
    · exact List.nodup_cons.2 ⟨hx, hs.nodup⟩
    · exact List.cons_subset.2 ⟨hknown, hs.known⟩

/-! ## Any number of moves -/

/-- The search after a number of moves, if it has not ended by then. -/
def after (p : Plan t ε τ) (s : Search τ) : Nat → Option (Search τ)
  | 0 => some s
  | n + 1 =>
    match p.move s with
    | .went left | .found _ left => p.after left n
    | .ended | .raised .. => none

theorem after_succ_eq_some (h : p.after s (n + 1) = some last) :
    ∃ left, p.GoesOn left s ∧ p.after left n = some last := by
  rw [after] at h
  split at h
  · next left hmove => exact ⟨left, .inl hmove, h⟩
  · next m left hmove => exact ⟨left, .inr ⟨m, hmove⟩, h⟩
  · cases h
  · cases h

theorem isNested_after (hs : s.IsNested t) (h : p.after s n = some last) : last.IsNested t := by
  induction n generalizing s with
  | zero =>
    cases h
    exact hs
  | succ n ih =>
    obtain ⟨left, hleft, hlast⟩ := after_succ_eq_some h
    exact ih (hleft.isNested hs) hlast

theorem exists_after_eq_none (p : Plan t ε τ) (s : Search τ) : ∃ n, p.after s n = none := by
  induction s using p.wellFounded_goesOn.induction with
  | _ s ih =>
  have hstep : ∀ left, p.GoesOn left s → (∀ n, p.after s (n + 1) = p.after left n) →
      ∃ n, p.after s n = none := by
    intro left hleft hafter
    obtain ⟨n, hn⟩ := ih left hleft
    exact ⟨n + 1, (hafter n).trans hn⟩
  cases hmove : p.move s with
  | ended | raised => exact ⟨1, by rw [after, hmove]⟩
  | found m left => exact hstep left (.inr ⟨m, hmove⟩) fun n => by rw [after, hmove]
  | went left => exact hstep left (.inl hmove) fun n => by rw [after, hmove]

end Plan

/-! ## Strategies -/

namespace Tracer

variable {ι : Type}

theorem isNested_search (t : Tracer) (names : List Text) (map : Except Outline.Fault (TraceMap ι))
    (strategy : Strategy) : (t.search names map strategy).IsNested t := by
  have hbegin : ∀ tasks : List (Item ι), (Search.ofTasks tasks).IsNested t :=
    fun tasks => ⟨List.nodup_nil, List.nil_subset _⟩
  unfold search
  split
  · exact hbegin _
  · exact hbegin _

/-- **Strategies end.** The search of a strategy ends after a number of moves. At every moment until
then the variables that it is following are different variables of the program, so there are never
more of them than the program has. What it gives are the matches of the strategy. Nothing is asked
of the scopes or of the trace map: aliases and maps may be cyclic. -/
theorem strategies_halt (t : Tracer) (mode : Mode) (names : List Text)
    (map : Except Outline.Fault (TraceMap ι)) (strategy : Strategy) :
    let plan : Plan t TraceFault (Item ι) := t.plan mode
    let start := t.search names map strategy
    (∃ n, plan.after start n = none) ∧
    (∀ n s, plan.after start n = some s → s.stack.Nodup ∧ s.stack ⊆ t.graph.variableIds ∧
      s.stack.length ≤ t.graph.variableIds.length) ∧
    plan.rest start = t.loneMatches mode names map strategy := by
  intro plan start
  refine ⟨plan.exists_after_eq_none start, ?_, t.rest_search mode names map strategy⟩
  intro n s hs
  have hnested := Plan.isNested_after (t.isNested_search names map strategy) hs
  exact ⟨hnested.nodup, hnested.known, hnested.length_le⟩

/-- Whether a search comes next to a variable that it is following already. -/
def comesRound (s : Search (Item ι)) : Bool :=
  match s.agenda with
  | .task (.plain (.enter _ x _)) :: _ => s.stack.contains x
  | _ => false

/-- The search for `x` in `aliasProgram`, where `y` is an alias of `x` and `x` one of `y.a`. -/
def aliasSearch : Nat → Option (Search (Item Unit)) :=
  (plan ⟨aliasGraph, true⟩ .strict).after (search ⟨aliasGraph, true⟩ [] (.ok loopMap) .globals)

theorem strategies_halt_alias :
    ∃ s s', aliasSearch 9 = some s ∧ comesRound s = true ∧ s.stack = [⟨0, "y"⟩, ⟨0, "x"⟩] ∧
      aliasSearch 10 = some s' ∧ s'.stack = s.stack ∧ s.stack.Nodup ∧
      s.stack ⊆ aliasGraph.variableIds ∧ s.stack.length ≤ aliasGraph.variableIds.length ∧
      aliasSearch 15 = none := by
  have hround : (aliasSearch 9).any
      (fun s => comesRound s && s.stack == [⟨0, "y"⟩, ⟨0, "x"⟩]) = true := by
    decide +kernel
  have hnext : (aliasSearch 10).any (·.stack == [⟨0, "y"⟩, ⟨0, "x"⟩]) = true := by decide +kernel
  have hend : (aliasSearch 15).isNone = true := by decide +kernel
  obtain ⟨s, hs, hround⟩ := (Option.any_eq_true _ _).1 hround
  obtain ⟨s', hs', hnext⟩ := (Option.any_eq_true _ _).1 hnext
  obtain ⟨hcomes, hstack⟩ := (Bool.and_eq_true _ _).mp hround
  obtain ⟨-, hmoments, -⟩ :=
    strategies_halt ⟨aliasGraph, true⟩ .strict [] (.ok loopMap) .globals
  obtain ⟨hnodup, hknown, hlength⟩ := hmoments 9 s hs
  refine ⟨s, s', hs, hcomes, eq_of_beq hstack, hs', ?_, hnodup, hknown, hlength,
    Option.isNone_iff_eq_none.1 hend⟩
  exact (eq_of_beq hnext).trans (eq_of_beq hstack).symm

end Tracer

end ApiTrace
