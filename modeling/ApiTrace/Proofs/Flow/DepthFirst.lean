import ApiTrace.Proofs.Flow.Emission

/-!
# Depth-first lists

A search visits a tree. Every branch of a node has a number, so a place in the tree has an address:
the numbers of the branches that lead there. Going depth first, and at each node through the
branches by their numbers, is going through the addresses in lexicographic order, where a beginning
of an address comes before the address.

* `DepthFirst` says that a list holds all outcomes of a search in this order. An outcome is a match
  or a fault.
* `Emission.Lists` says that a search that stops at the first fault gives what such a list holds up
  to there.
-/

namespace ApiTrace

/-- The list `l` holds exactly the outcomes that `occurs` puts somewhere in a tree, with their
addresses and in the order in which a depth-first search meets them. -/
structure DepthFirst {α : Type} (occurs : List Nat → α → Prop)
    (l : List (List Nat × α)) : Prop where
  sorted : l.Pairwise fun p q => p.1 < q.1
  mem_iff : ∀ a o, (a, o) ∈ l ↔ occurs a o

namespace DepthFirst

variable {α : Type} {R S : List Nat → α → Prop} {l m : List (List Nat × α)}

theorem congr (h : DepthFirst R l) (hRS : ∀ a o, R a o ↔ S a o) : DepthFirst S l :=
  ⟨h.sorted, fun a o => (h.mem_iff a o).trans (hRS a o)⟩

theorem nil (h : ∀ a o, ¬ R a o) : DepthFirst R [] :=
  ⟨.nil, fun a o => by simpa using h a o⟩

theorem single (a : List Nat) (o : α) : DepthFirst (fun b p => b = a ∧ p = o) [(a, o)] :=
  ⟨List.pairwise_singleton _ _, fun b p => by simp⟩

/-- The outcomes of a branch, seen from the node above it. -/
theorem under (n : Nat) (h : DepthFirst R l) :
    DepthFirst (fun a o => ∃ b, a = n :: b ∧ R b o) (l.map fun p => (n :: p.1, p.2)) := by
  constructor
  · rw [List.pairwise_map]
    apply h.sorted.imp
    intro p q hpq
    exact List.cons_lt_cons_iff.2 (.inr ⟨rfl, hpq⟩)
  · intro a o
    simp only [List.mem_map, Prod.mk.injEq, Prod.exists]
    constructor
    · rintro ⟨b, p, hmem, rfl, rfl⟩
      exact ⟨b, rfl, (h.mem_iff b p).1 hmem⟩
    · rintro ⟨b, rfl, hb⟩
      exact ⟨b, o, (h.mem_iff b o).2 hb, rfl, rfl⟩

theorem append (h : DepthFirst R l) (h' : DepthFirst S m)
    (hlt : ∀ a o b p, R a o → S b p → a < b) : DepthFirst (fun a o => R a o ∨ S a o) (l ++ m) := by
  constructor
  · rw [List.pairwise_append]
    refine ⟨h.sorted, h'.sorted, ?_⟩
    rintro ⟨a, o⟩ hp ⟨b, p⟩ hq
    exact hlt a o b p ((h.mem_iff a o).1 hp) ((h'.mem_iff b p).1 hq)
  · intro a o
    rw [List.mem_append, h.mem_iff, h'.mem_iff]

theorem filter (keep : α → Bool) (h : DepthFirst R l) :
    DepthFirst (fun a o => R a o ∧ keep o = true) (l.filter fun p => keep p.2) := by
  refine ⟨h.sorted.sublist List.filter_sublist, fun a o => ?_⟩
  rw [List.mem_filter, h.mem_iff]

/-- The outcomes after each of them is changed or left out. -/
theorem filterMap {β : Type} (f : α → Option β) (h : DepthFirst R l) :
    DepthFirst (fun a b => ∃ o, R a o ∧ f o = some b)
      (l.filterMap fun p => (f p.2).map (p.1, ·)) := by
  constructor
  · refine h.sorted.filterMap _ ?_
    intro p q hpq p' hp q' hq
    obtain ⟨_, -, rfl⟩ := Option.map_eq_some_iff.1 hp
    obtain ⟨_, -, rfl⟩ := Option.map_eq_some_iff.1 hq
    exact hpq
  · intro a b
    simp only [List.mem_filterMap, Option.map_eq_some_iff, Prod.mk.injEq, Prod.exists]
    constructor
    · rintro ⟨a', o, hmem, b', ho, rfl, rfl⟩
      exact ⟨o, (h.mem_iff a' o).1 hmem, ho⟩
    · rintro ⟨o, hR, ho⟩
      exact ⟨a, o, (h.mem_iff a o).2 hR, b, ho, rfl, rfl⟩

/-- There is only one such list. -/
theorem unique (h : DepthFirst R l) (h' : DepthFirst R m) : l = m := by
  have nodup : ∀ {k : List (List Nat × α)}, k.Pairwise (fun p q => p.1 < q.1) → k.Nodup := by
    intro k hk
    refine List.Pairwise.imp ?_ hk
    rintro p q hpq rfl
    exact List.lt_irrefl p.1 hpq
  have hperm : l.Perm m := (List.perm_ext_iff_of_nodup (nodup h.sorted) (nodup h'.sorted)).2
    fun p => (h.mem_iff p.1 p.2).trans (h'.mem_iff p.1 p.2).symm
  exact hperm.eq_of_pairwise (fun p q _ _ hpq hqp => absurd hqp (List.lt_asymm hpq))
    h.sorted h'.sorted

end DepthFirst

/-! ## Searches that stop at a fault -/

namespace Emission

variable {ε : Type} {R S : List Nat → Except ε Match → Prop} {e e' : Emission ε}

/-- What a search gives whose outcomes come in this order: the matches before the first fault. -/
def ofOutcomes : List (Except ε Match) → Emission ε
  | [] => .empty
  | .ok m :: rest => .one m ++ ofOutcomes rest
  | .error fault :: _ => .fail fault

theorem ofOutcomes_append (l m : List (Except ε Match)) :
    ofOutcomes (l ++ m) = ofOutcomes l ++ ofOutcomes m := by
  induction l with
  | nil => simp [ofOutcomes]
  | cons o rest ih =>
    cases o with
    | ok found => simp only [List.cons_append, ofOutcomes, ih, append_assoc]
    | error fault => simp [ofOutcomes]

theorem mem_found_ofOutcomes {l : List (Except ε Match)} {found : Match}
    (h : found ∈ (ofOutcomes l).found) : .ok found ∈ l := by
  induction l with
  | nil => simp [ofOutcomes, empty] at h
  | cons o rest ih =>
    cases o with
    | ok first =>
      have hcons : found = first ∨ found ∈ (ofOutcomes rest).found := by
        simpa [ofOutcomes, append_def, append, one] using h
      rcases hcons with rfl | hrest
      · exact List.mem_cons_self
      · exact List.mem_cons_of_mem _ (ih hrest)
    | error fault => simp [ofOutcomes, fail] at h

theorem fault_ofOutcomes_eq_none {l : List (Except ε Match)} (h : ∀ fault, .error fault ∉ l) :
    (ofOutcomes l).fault = none := by
  induction l with
  | nil => rfl
  | cons o rest ih =>
    cases o with
    | ok first => exact ih fun fault hfault => h fault (List.mem_cons_of_mem _ hfault)
    | error fault => exact absurd List.mem_cons_self (h fault)

/-- A search without a fault has no other outcomes than its matches. -/
theorem eq_map_ok_of_fault_eq_none {l : List (Except ε Match)} (h : (ofOutcomes l).fault = none) :
    l = (ofOutcomes l).found.map .ok := by
  induction l with
  | nil => rfl
  | cons o rest ih =>
    cases o with
    | ok first =>
      have hfound : (ofOutcomes (.ok first :: rest)).found = first :: (ofOutcomes rest).found := by
        simp [ofOutcomes, append_def, append, one]
      rw [hfound, List.map_cons, ← ih h]
    | error fault => cases h

/-- What becomes of an outcome when matches are changed or left out. -/
def editOutcome (f : Match → Option Match) : Except ε Match → Option (Except ε Match)
  | .ok found => (f found).map .ok
  | .error fault => some (.error fault)

theorem filterMap_ofOutcomes (f : Match → Option Match) (l : List (Except ε Match)) :
    (ofOutcomes l).filterMap f = ofOutcomes (l.filterMap (editOutcome f)) := by
  induction l with
  | nil => rfl
  | cons o rest ih =>
    cases o with
    | ok found =>
      rw [ofOutcomes, filterMap_append, filterMap_one, ih]
      cases hf : f found <;> simp [editOutcome, hf, ofOutcomes]
    | error fault => rfl

/-- The search gives the outcomes that `occurs` puts somewhere in a tree: depth first, and up to the
first fault. -/
def Lists (occurs : List Nat → Except ε Match → Prop) (e : Emission ε) : Prop :=
  ∃ l, DepthFirst occurs l ∧ e = ofOutcomes (l.map Prod.snd)

namespace Lists

theorem congr (h : Lists R e) (hRS : ∀ a o, R a o ↔ S a o) : Lists S e := by
  obtain ⟨l, hl, rfl⟩ := h
  exact ⟨l, hl.congr hRS, rfl⟩

theorem empty (h : ∀ a o, ¬ R a o) : Lists R .empty := ⟨[], .nil h, rfl⟩

theorem one (found : Match) : Lists (fun a o => a = [] ∧ o = .ok found) (.one found : Emission ε) :=
  ⟨[([], .ok found)], .single _ _, by simp [ofOutcomes]⟩

theorem fail (a : List Nat) (fault : ε) :
    Lists (fun b o => b = a ∧ o = .error fault) (.fail fault) :=
  ⟨[(a, .error fault)], .single _ _, rfl⟩

theorem under (n : Nat) (h : Lists R e) : Lists (fun a o => ∃ b, a = n :: b ∧ R b o) e := by
  obtain ⟨l, hl, rfl⟩ := h
  exact ⟨_, hl.under n, by rw [List.map_map]; rfl⟩

theorem append (h : Lists R e) (h' : Lists S e') (hlt : ∀ a o b p, R a o → S b p → a < b) :
    Lists (fun a o => R a o ∨ S a o) (e ++ e') := by
  obtain ⟨l, hl, rfl⟩ := h
  obtain ⟨m, hm, rfl⟩ := h'
  exact ⟨_, hl.append hm hlt, by rw [List.map_append, ofOutcomes_append]⟩

theorem filterMap (f : Match → Option Match) (h : Lists R e) :
    Lists (fun a o => ∃ o', R a o' ∧ editOutcome f o' = some o) (e.filterMap f) := by
  obtain ⟨l, hl, rfl⟩ := h
  refine ⟨_, hl.filterMap (editOutcome f), ?_⟩
  rw [filterMap_ofOutcomes, List.filterMap_map, List.map_filterMap]
  congr 2
  funext p
  cases h : editOutcome f p.2 <;> simp [h]

/-- A match that a search gives is somewhere in the tree. -/
theorem occurs_of_mem (h : Lists R e) {found : Match} (hf : found ∈ e.found) :
    ∃ a, R a (.ok found) := by
  obtain ⟨l, hl, rfl⟩ := h
  obtain ⟨⟨a, o⟩, hmem, rfl⟩ := List.mem_map.1 (mem_found_ofOutcomes hf)
  exact ⟨a, (hl.mem_iff a _).1 hmem⟩

/-- A search without a fault gives every match that is somewhere in the tree. -/
theorem mem_of_occurs (h : Lists R e) (hfault : e.fault = none) {a : List Nat} {found : Match}
    (hf : R a (.ok found)) : found ∈ e.found := by
  obtain ⟨l, hl, rfl⟩ := h
  have hmem : Except.ok found ∈ l.map Prod.snd := List.mem_map.2 ⟨_, (hl.mem_iff a _).2 hf, rfl⟩
  rw [eq_map_ok_of_fault_eq_none hfault] at hmem
  obtain ⟨other, hother, heq⟩ := List.mem_map.1 hmem
  cases heq
  exact hother

/-- A tree gives one search. -/
theorem unique (h : Lists R e) (h' : Lists R e') : e = e' := by
  obtain ⟨l, hl, rfl⟩ := h
  obtain ⟨m, hm, rfl⟩ := h'
  rw [hl.unique hm]

/-- Two searches give the same matches of some kind if their trees have the same ones and the second
has no fault that the first does not have. -/
theorem filter_found_eq (h : Lists R e) (h' : Lists S e') (p : Match → Bool)
    (hfault : ∀ a fault, S a (.error fault) → R a (.error fault))
    (hsame : ∀ a found, p found = true → (S a (.ok found) ↔ R a (.ok found)))
    (hnone : e.fault = none) :
    e'.fault = none ∧ e'.found.filter p = e.found.filter p := by
  obtain ⟨l, hl, rfl⟩ := h
  obtain ⟨m, hm, rfl⟩ := h'
  have hok := eq_map_ok_of_fault_eq_none hnone
  have hnone' : (ofOutcomes (m.map Prod.snd)).fault = none := by
    apply fault_ofOutcomes_eq_none
    intro fault hmem
    obtain ⟨⟨a, o⟩, hmem, rfl⟩ := List.mem_map.1 hmem
    have hmem' : Except.error fault ∈ l.map Prod.snd :=
      List.mem_map.2 ⟨_, (hl.mem_iff a _).2 (hfault a fault ((hm.mem_iff a _).1 hmem)), rfl⟩
    rw [hok] at hmem'
    obtain ⟨found, -, heq⟩ := List.mem_map.1 hmem'
    cases heq
  refine ⟨hnone', ?_⟩
  have hok' := eq_map_ok_of_fault_eq_none hnone'
  let keep : Except ε Match → Bool := fun o => o.toOption.any p
  have hkeep : ∀ found : List Match, (found.map (Except.ok : Match → Except ε Match)).filter keep =
      (found.filter p).map .ok := by
    intro found
    rw [List.filter_map]
    rfl
  have hsub : DepthFirst (fun a o => R a o ∧ keep o = true) (m.filter fun q => keep q.2) := by
    refine (hm.filter keep).congr fun a o => ?_
    cases o with
    | ok found => exact and_congr_left (hsame a found)
    | error fault => simp [keep, Except.toOption]
  have heq : m.filter (fun q => keep q.2) = l.filter fun q => keep q.2 :=
    hsub.unique (hl.filter keep)
  have hmap : ∀ k : List (List Nat × Except ε Match),
      (k.filter fun q => keep q.2).map Prod.snd = (k.map Prod.snd).filter keep := by
    intro k
    rw [List.filter_map]
    rfl
  have hfound : ((ofOutcomes (m.map Prod.snd)).found.filter p).map (Except.ok : Match →
      Except ε Match) =
      ((ofOutcomes (l.map Prod.snd)).found.filter p).map .ok := by
    rw [← hkeep, ← hkeep, ← hok, ← hok', ← hmap, ← hmap, heq]
  exact (List.map_inj_right fun _ _ h => Except.ok.inj h).1 hfound

/-- Two branches, one after the other. -/
theorem branches {n k : Nat} (hnk : n < k) (h : Lists R e) (h' : Lists S e') :
    Lists (fun a o => (∃ b, a = n :: b ∧ R b o) ∨ ∃ b, a = k :: b ∧ S b o) (e ++ e') := by
  apply (h.under n).append (h'.under k)
  rintro _ o _ p ⟨a, rfl, -⟩ ⟨b, rfl, -⟩
  exact List.cons_lt_cons_iff.2 (.inl hnk)

/-- The items of a list, one after the other, where item number `j` has the branches `2 * j` and
`2 * j + 1`. -/
theorem items {β : Type} {Q : Nat → β → List Nat → Except ε Match → Prop} {f : Nat → β → Emission ε}
    (heads : ∀ j x a o, Q j x a o → ∃ n b, a = n :: b ∧ 2 * j ≤ n ∧ n ≤ 2 * j + 1) :
    ∀ (xs : List β) (i : Nat) (rest : Nat → List β → Emission ε)
      (_ : ∀ k, rest k [] = .empty)
      (_ : ∀ k x ys, rest k (x :: ys) = f k x ++ rest (k + 1) ys)
      (_ : ∀ j x, xs[j]? = some x → Lists (Q (i + j) x) (f (i + j) x)),
      Lists (fun a o => ∃ j x, xs[j]? = some x ∧ Q (i + j) x a o) (rest i xs)
  | [], i, rest, hnil, _, _ => by
    rw [hnil]
    apply Lists.empty
    rintro a o ⟨j, x, hx, -⟩
    simp at hx
  | y :: ys, i, rest, hnil, hcons, each => by
    rw [hcons]
    have shift : ∀ j, i + (j + 1) = i + 1 + j := fun j => by omega
    have first : Lists (Q i y) (f i y) := each 0 y rfl
    have others := items heads ys (i + 1) rest hnil hcons fun j x hx => by
      have := each (j + 1) x hx
      rwa [shift] at this
    refine (first.append others ?_).congr ?_
    · rintro a o b p ha ⟨j, x, -, hb⟩
      obtain ⟨n, a', rfl, -, hn⟩ := heads _ _ _ _ ha
      obtain ⟨k, b', rfl, hk, -⟩ := heads _ _ _ _ hb
      exact List.cons_lt_cons_iff.2 (.inl (by omega))
    · intro a o
      constructor
      · rintro (ha | ⟨j, x, hx, hb⟩)
        · exact ⟨0, y, rfl, ha⟩
        · exact ⟨j + 1, x, hx, by rwa [shift]⟩
      · rintro ⟨j, x, hx, hb⟩
        cases j with
        | zero =>
          simp only [List.getElem?_cons_zero, Option.some.injEq] at hx
          subst hx
          exact .inl hb
        | succ j => exact .inr ⟨j, x, hx, by rwa [← shift]⟩

theorem concatMap {β : Type} {Q : Nat → β → List Nat → Except ε Match → Prop} {f : β → Emission ε}
    (heads : ∀ j x a o, Q j x a o → ∃ n b, a = n :: b ∧ 2 * j ≤ n ∧ n ≤ 2 * j + 1) (xs : List β)
    (each : ∀ j x, xs[j]? = some x → Lists (Q j x) (f x)) :
    Lists (fun a o => ∃ j x, xs[j]? = some x ∧ Q j x a o) (.concatMap f xs) := by
  have h := items (f := fun _ => f) heads xs 0 (fun _ ys => .concatMap f ys) (fun _ => rfl)
    (fun _ _ _ => rfl) fun j x hx => by
      rw [Nat.zero_add]
      exact each j x hx
  simpa only [Nat.zero_add] using h

end Lists

end Emission

end ApiTrace
