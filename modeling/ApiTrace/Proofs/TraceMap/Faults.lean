import ApiTrace.Proofs.TraceMap.Copying

/-!
# Faults of an outline

An outline is faulty if a cell that names lead to has an entry that means nothing
(`Outline.HasFault`). Which of several faults is reported depends on an order: a fault has an
address, the positions of the entries on the way to it, and what is reported is the fault of the
least address (`Outline.firstFault?_child_eq_some_iff`). The way to a fault passes no cell twice,
since there is no least address among the ways that go round in a cycle.

The search for faults looks at every cell once, so it leaves ways out that meet a cell which it has
been to. That does no harm: what lies behind that cell has been searched (`Outline.FaultIn.avoid`).
-/

namespace ApiTrace.Outline

variable {o : Outline} {passed seen : List Nat} {entries inner rest : List Entry} {entry : Entry}
  {i : Nat} {name : Text} {a : List Nat} {f : Fault}

/-! ## Faulty outlines -/

/-- What is wrong with an entry by itself. -/
def Entry.fault? : Entry → Option Fault
  | .unsupported key => some (.unsupportedKey key)
  | .child _ (.plain value) => some (.notANode value)
  | .payload .. | .esm | .child _ (.cell _) => none

/-- The cells that names lead to from a cell, by way of drafts. -/
inductive Reaches (o : Outline) (root : Nat) : Nat → Prop where
  | root : o.Reaches root root
  | child {i j : Nat} {entries : List Entry} {name : Text} (hi : o.Reaches root i)
      (hdraft : o.cells[i]? = some (.draft entries)) (hj : .child name (.cell j) ∈ entries) :
      o.Reaches root j

/-- Whether a value is no cell or leads to a draft with an entry that means nothing. -/
def HasFault (o : Outline) : Value → Prop
  | .plain _ => True
  | .cell root => ∃ i entries, o.Reaches root i ∧ o.cells[i]? = some (.draft entries) ∧
      ∃ entry ∈ entries, entry.fault?.isSome = true

theorem Entry.staysIn_iff {cells : Nat → Prop} :
    entry.StaysIn cells ↔ entry.fault? = none ∧ ∀ name i, entry = .child name (.cell i) →
      cells i := by
  cases entry with
  | payload | esm | unsupported => simp [StaysIn, fault?]
  | child name value => cases value <;> simp [StaysIn, fault?]

/-- The search fails to find a fault exactly if there is none. -/
theorem firstFault?_child_eq_none_iff {value : Value} :
    o.firstFault? [] [.child name value] = none ↔ ¬ o.HasFault value := by
  rw [firstFault?_eq_none_iff]
  cases value with
  | plain value =>
    refine iff_of_false ?_ (not_not_intro trivial)
    intro ⟨cells, h⟩
    exact h.staysIn _ List.mem_cons_self
  | cell root =>
    constructor
    · intro ⟨cells, h⟩ ⟨i, entries, hreaches, hdraft, entry, hentry, hfault⟩
      -- The cells hold all that names lead to, and no entry in them is faulty.
      have hcells : ∀ i, o.Reaches root i → cells i := by
        intro i hi
        induction hi with
        | root => exact h.staysIn _ List.mem_cons_self
        | child _ hdraft hj hcell =>
          exact (Entry.staysIn_iff.1 (h.drafts _ hcell (by simp) _ hdraft _ hj)).2 _ _ rfl
      have hstays := h.drafts i (hcells i hreaches) (by simp) _ hdraft _ hentry
      rw [(Entry.staysIn_iff.1 hstays).1] at hfault
      cases hfault
    · intro h
      refine ⟨o.Reaches root, by simp, ?_, ?_⟩
      · intro entry hentry
        rw [List.mem_singleton.1 hentry]
        exact Reaches.root
      · intro i hi _ entries hdraft entry hentry
        rw [Entry.staysIn_iff]
        refine ⟨?_, ?_⟩
        · by_contra hfault
          exact h ⟨i, entries, hi, hdraft, entry, hentry, Option.isSome_iff_ne_none.2 hfault⟩
        · intro name j hchild
          subst hchild
          exact hi.child hdraft hentry

/-! ## Addresses of faults -/

/-- The faults of an entry: its own, and those of the entries of a cell that it leads to. The
address of a fault lists the positions of the entries on the way to it. The way does not pass cells
that have been passed. -/
inductive FaultIn (o : Outline) : List Nat → Entry → List Nat → Fault → Prop where
  | here {passed : List Nat} {entry : Entry} {f : Fault} (hf : entry.fault? = some f) :
      o.FaultIn passed entry [] f
  | inside {passed : List Nat} {name : Text} {i k : Nat} {entries : List Entry} {entry : Entry}
      {a : List Nat} {f : Fault} (hi : i ∉ passed) (hdraft : o.cells[i]? = some (.draft entries))
      (hk : entries[k]? = some entry) (hf : o.FaultIn (i :: passed) entry a f) :
      o.FaultIn passed (.child name (.cell i)) (k :: a) f

/-- The faults of a list of entries. -/
inductive FaultAt (o : Outline) (passed : List Nat) (entries : List Entry) :
    List Nat → Fault → Prop where
  | entry {k : Nat} {entry : Entry} {a : List Nat} {f : Fault} (hk : entries[k]? = some entry)
      (hf : o.FaultIn passed entry a f) : o.FaultAt passed entries (k :: a) f

/-- The order of addresses: a way comes before those that go on from it, and where two ways part,
the one by the earlier entry comes first. -/
inductive AtOrBefore : List Nat → List Nat → Prop where
  | nil {b : List Nat} : AtOrBefore [] b
  | lt {k l : Nat} {a b : List Nat} (h : k < l) : AtOrBefore (k :: a) (l :: b)
  | cons {k : Nat} {a b : List Nat} (h : AtOrBefore a b) : AtOrBefore (k :: a) (k :: b)

/-- Whether a fault is the first one by its address. -/
def IsFirstFault (o : Outline) (value : Value) (f : Fault) : Prop :=
  ∃ a, o.FaultIn [] (.child [] value) a f ∧
    ∀ a' f', o.FaultIn [] (.child [] value) a' f' → AtOrBefore a a'

namespace AtOrBefore

variable {b c : List Nat}

theorem refl (a : List Nat) : AtOrBefore a a := by
  induction a with
  | nil => exact .nil
  | cons k a ih => exact .cons ih

theorem trans (h : AtOrBefore a b) (h' : AtOrBefore b c) : AtOrBefore a c := by
  induction h generalizing c with
  | nil => exact .nil
  | lt hlt =>
    cases h' with
    | lt hlt' => exact .lt (Nat.lt_trans hlt hlt')
    | cons => exact .lt hlt
  | cons _ ih =>
    cases h' with
    | lt hlt' => exact .lt hlt'
    | cons h' => exact .cons (ih h')

theorem antisymm (h : AtOrBefore a b) (h' : AtOrBefore b a) : a = b := by
  induction h with
  | nil =>
    cases h' with
    | nil => rfl
  | lt hlt =>
    cases h' with
    | lt hlt' => exact absurd hlt' (Nat.lt_asymm hlt)
    | cons => exact absurd hlt (Nat.lt_irrefl _)
  | cons _ ih =>
    cases h' with
    | lt hlt' => exact absurd hlt' (Nat.lt_irrefl _)
    | cons h' => rw [ih h']

end AtOrBefore

namespace FaultIn

theorem mono (h : o.FaultIn passed entry a f) (hsub : seen ⊆ passed) :
    o.FaultIn seen entry a f := by
  induction h generalizing seen with
  | here hf => exact .here hf
  | inside hi hdraft hk _ ih =>
    exact .inside (fun hmem => hi (hsub hmem)) hdraft hk (ih (List.cons_subset_cons _ hsub))

/-- An address is that of one fault. -/
theorem unique {f' : Fault} (h : o.FaultIn passed entry a f) (h' : o.FaultIn passed entry a f') :
    f = f' := by
  induction h with
  | here hf =>
    cases h' with
    | here hf' => exact Option.some.inj (hf.symm.trans hf')
  | inside hi hdraft hk _ ih =>
    cases h' with
    | inside hi' hdraft' hk' hf' =>
      cases hdraft.symm.trans hdraft'
      cases hk.symm.trans hk'
      exact ih hf'

/-- The way to a fault avoids a draft, or the fault lies behind that draft and the rest of the way
avoids it. -/
theorem avoid (h : o.FaultIn passed entry a f) (hdraft : o.cells[i]? = some (.draft inner)) :
    o.FaultIn (i :: passed) entry a f ∨ ∃ a', o.FaultAt (i :: passed) inner a' f := by
  induction h with
  | here hf => exact .inl (.here hf)
  | @inside passed name j k entries entry a f hj hdraft' hk hf ih =>
    by_cases hij : j = i
    · subst hij
      cases hdraft.symm.trans hdraft'
      exact .inr ⟨k :: a, .entry hk hf⟩
    · rcases ih with hf' | ⟨a', hf'⟩
      · refine .inl (.inside (by simp [hij, hj]) hdraft' hk (hf'.mono ?_))
        intro x hx
        simp only [List.mem_cons] at hx ⊢
        exact or_left_comm.1 hx
      · obtain ⟨hk, hf'⟩ := hf'
        refine .inr ⟨_, .entry hk (hf'.mono ?_)⟩
        intro x hx
        simp only [List.mem_cons] at hx ⊢
        exact hx.imp_right .inr

end FaultIn

/-! ## The first fault -/

/-- What a search for the first fault may answer. -/
def Finds (o : Outline) (passed : List Nat) (entries : List Entry) : Option Fault → Prop
  | none => ∀ a f, ¬ o.FaultAt passed entries a f
  | some f => ∃ a, o.FaultAt passed entries a f ∧
      ∀ a' f', o.FaultAt passed entries a' f' → AtOrBefore a a'

/-- The address of an entry after the first `n` entries have moved inside a new entry in front. -/
def enclose (n : Nat) : List Nat → List Nat
  | [] => []
  | k :: a => if k < n then 0 :: k :: a else (k - n + 1) :: a

theorem AtOrBefore.enclose (n : Nat) {a b : List Nat} (h : AtOrBefore a b) :
    AtOrBefore (enclose n a) (enclose n b) := by
  cases h with
  | nil => exact .nil
  | lt hlt =>
    simp only [Outline.enclose]
    split <;> split
    · exact .cons (.lt hlt)
    · exact .lt (Nat.succ_pos _)
    · omega
    · exact .lt (by omega)
  | cons h =>
    simp only [Outline.enclose]
    split
    · exact .cons (.cons h)
    · exact .cons h

namespace Finds

variable {answer : Option Fault}

/-- The answer of a search is that of another one, if every fault that the other could find comes no
earlier than one that this one could find. -/
theorem enclose {passed' : List Nat} {entries' : List Entry}
    (h : o.Finds passed entries answer) (n : Nat)
    (hto : ∀ a f, o.FaultAt passed entries a f → o.FaultAt passed' entries' (Outline.enclose n a) f)
    (hback : ∀ b f, o.FaultAt passed' entries' b f →
      ∃ a f', o.FaultAt passed entries a f' ∧ AtOrBefore (Outline.enclose n a) b) :
    o.Finds passed' entries' answer := by
  cases answer with
  | none =>
    intro b f hf
    obtain ⟨a, f', hf', -⟩ := hback b f hf
    exact h a f' hf'
  | some f =>
    obtain ⟨a, hf, hleast⟩ := h
    refine ⟨_, hto a f hf, ?_⟩
    intro b f' hf'
    obtain ⟨a', f'', hf'', hle⟩ := hback b f' hf'
    exact ((hleast a' f'' hf'').enclose n).trans hle

/-- An entry without faults can be left out. -/
theorem skip (h : o.Finds passed rest answer) (hentry : ∀ a f, ¬ o.FaultIn passed entry a f) :
    o.Finds passed (entry :: rest) answer := by
  apply h.enclose 0
  · intro a f hf
    obtain ⟨hk, hf⟩ := hf
    exact .entry hk hf
  · intro b f hf
    obtain @⟨k, entry', b, _, hk, hf⟩ := hf
    cases k with
    | zero =>
      cases hk
      exact absurd hf (hentry b f)
    | succ k => exact ⟨k :: b, f, .entry hk hf, AtOrBefore.refl _⟩

/-- Looking at a draft is looking at its entries before the others. -/
theorem look (hdraft : o.cells[i]? = some (.draft inner)) (hi : i ∉ passed)
    (h : o.Finds (i :: passed) (inner ++ rest) answer) :
    o.Finds passed (.child name (.cell i) :: rest) answer := by
  -- A fault of the draft is one of the first entries.
  have hinner : ∀ {a f}, o.FaultAt (i :: passed) inner a f →
      o.FaultAt (i :: passed) (inner ++ rest) a f ∧ Outline.enclose inner.length a = 0 :: a := by
    intro a f hf
    obtain ⟨hk, hf⟩ := hf
    have hlt := (List.getElem?_eq_some_iff.1 hk).1
    exact ⟨.entry (by rw [List.getElem?_append_left hlt, hk]) hf, if_pos hlt⟩
  apply h.enclose inner.length
  · intro a f hf
    obtain @⟨k, entry, a, _, hk, hf⟩ := hf
    by_cases hlt : k < inner.length
    · rw [List.getElem?_append_left hlt] at hk
      rw [(hinner (.entry hk hf)).2]
      exact .entry rfl (.inside hi hdraft hk hf)
    · rw [List.getElem?_append_right (Nat.le_of_not_lt hlt)] at hk
      simp only [Outline.enclose, if_neg hlt]
      exact .entry hk (hf.mono (List.subset_cons_self _ _))
  · intro b f hf
    obtain @⟨k, entry, b, _, hk, hf⟩ := hf
    cases k with
    | zero =>
      cases hk
      cases hf with
      | here hf => cases hf
      | inside _ hdraft' hk hf =>
        cases hdraft.symm.trans hdraft'
        obtain ⟨hf, haddress⟩ := hinner (.entry hk hf)
        exact ⟨_, f, hf, haddress ▸ AtOrBefore.refl _⟩
    | succ k =>
      rcases hf.avoid hdraft with hf | ⟨a, hf⟩
      · have hlater : (inner ++ rest)[inner.length + k]? = some entry := by
          rw [List.getElem?_append_right (Nat.le_add_right _ _), Nat.add_sub_cancel_left]
          exact hk
        refine ⟨(inner.length + k) :: b, f, .entry hlater hf, ?_⟩
        simp only [Outline.enclose, if_neg (Nat.not_lt.2 (Nat.le_add_right inner.length k)),
          Nat.add_sub_cancel_left]
        exact AtOrBefore.refl _
      · -- The fault lies behind the draft, so it is found there before.
        obtain ⟨hf, haddress⟩ := hinner hf
        refine ⟨a, f, hf, ?_⟩
        rw [haddress]
        exact .lt (Nat.succ_pos k)

end Finds

theorem not_faultIn_of_fault?_eq_none (hfault : entry.fault? = none)
    (hchild : ∀ name i, entry = .child name (.cell i) →
      i ∈ passed ∨ ∀ inner, o.cells[i]? ≠ some (.draft inner)) :
    ∀ a f, ¬ o.FaultIn passed entry a f := by
  intro a f hf
  cases hf with
  | here hf => cases hfault.symm.trans hf
  | inside hi hdraft => exact (hchild _ _ rfl).elim hi fun hnone => hnone _ hdraft

/-- The search finds the fault of the least address. -/
theorem finds_firstFault? (o : Outline) (seen : List Nat) (entries : List Entry) :
    o.Finds seen entries (o.firstFault? seen entries) := by
  fun_induction Outline.firstFault? o seen entries with
  | case1 seen =>
    intro a f hf
    obtain ⟨hk, -⟩ := hf
    cases hk
  | case2 seen use value rest ih | case3 seen rest ih =>
    apply ih.skip
    apply not_faultIn_of_fault?_eq_none rfl
    intro name i heq
    cases heq
  | case4 seen key rest | case5 seen name value rest =>
    refine ⟨[0], .entry rfl (.here rfl), ?_⟩
    intro a' f' hf'
    obtain @⟨k, _, _, _, -, -⟩ := hf'
    rcases Nat.eq_zero_or_pos k with rfl | hpos
    · exact .cons .nil
    · exact .lt hpos
  | case6 seen name i rest hi draft hdraft ih =>
    exact ih.look (by rw [List.getElem?_eq_getElem hi.1, hdraft]) hi.2
  | case7 seen name i rest hi node hnode ih =>
    apply ih.skip
    apply not_faultIn_of_fault?_eq_none rfl
    intro name' i' heq
    cases heq
    right
    intro inner
    rw [List.getElem?_eq_getElem hi.1, hnode]
    simp
  | case8 seen name i rest hi ih =>
    apply ih.skip
    apply not_faultIn_of_fault?_eq_none rfl
    intro name' i' heq
    cases heq
    by_cases hseen : i ∈ seen
    · exact .inl hseen
    · right
      intro inner
      rw [List.getElem?_eq_none (Nat.le_of_not_lt fun hlt => hi ⟨hlt, hseen⟩)]
      simp

theorem faultAt_singleton_iff :
    o.FaultAt passed [entry] a f ↔ ∃ b, a = 0 :: b ∧ o.FaultIn passed entry b f := by
  constructor
  · intro hf
    obtain @⟨k, _, b, _, hk, hf⟩ := hf
    cases k with
    | zero =>
      cases hk
      exact ⟨b, rfl, hf⟩
    | succ k => cases hk
  · intro ⟨b, heq, hf⟩
    subst heq
    exact .entry rfl hf

/-- The search finds the first fault. -/
theorem firstFault?_child_eq_some_iff {value : Value} :
    o.firstFault? [] [.child [] value] = some f ↔ o.IsFirstFault value f := by
  have hfinds := o.finds_firstFault? [] [.child [] value]
  have hfirst : ∀ {f}, o.firstFault? [] [.child [] value] = some f → o.IsFirstFault value f := by
    intro f h
    rw [h] at hfinds
    obtain ⟨a, hf, hleast⟩ := hfinds
    obtain ⟨b, rfl, hfault⟩ := faultAt_singleton_iff.1 hf
    refine ⟨b, hfault, ?_⟩
    intro b' f' hf'
    cases hleast _ _ (faultAt_singleton_iff.2 ⟨b', rfl, hf'⟩) with
    | lt hlt => exact absurd hlt (Nat.lt_irrefl 0)
    | cons hle => exact hle
  refine ⟨hfirst, ?_⟩
  intro ⟨b, hf, hleast⟩
  cases hfound : o.firstFault? [] [.child [] value] with
  | none =>
    rw [hfound] at hfinds
    exact absurd (faultAt_singleton_iff.2 ⟨b, rfl, hf⟩) (hfinds _ _)
  | some f' =>
    obtain ⟨b', hf', hleast'⟩ := hfirst hfound
    obtain rfl : b = b' := (hleast b' f' hf').antisymm (hleast' b f hf)
    rw [hf.unique hf']

end ApiTrace.Outline
