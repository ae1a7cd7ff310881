import Mathlib
import ApiTrace.Proofs.Number.Exact

/-!
# The nearest number of the format

What it means that a number of the format is the nearest one to a rational number: no other is
nearer, and if another one is as near, the significand of the first is even (`Binary64.IsNearest`).
An integer that does not leave the format is rounded to the nearest number
(`Binary64.isNearest_roundInt`), which is an integer again (`Binary64.toInt?_ofNat`).
-/

namespace ApiTrace.Binary64

/-- A significand and an exponent of the format. -/
def InFormat (k e : ℤ) : Prop := |k| < 2 ^ 53 ∧ -1074 ≤ e ∧ e ≤ 971

/-- The rational numbers that are finite numbers of the format. -/
def IsFinite (q : ℚ) : Prop := ∃ k e : ℤ, InFormat k e ∧ q = k * 2 ^ e

/-- The finite numbers whose significand is even when all its bits are used, as far as the exponent
allows it. -/
def IsEven (q : ℚ) : Prop :=
  ∃ k e : ℤ, InFormat k e ∧ (2 ^ 52 ≤ |k| ∨ e = -1074) ∧ Even k ∧ q = k * 2 ^ e

/-- The finite number nearest to a rational number, and of two the even one. -/
structure IsNearest (x q : ℚ) : Prop where
  finite : IsFinite q
  le : ∀ r, IsFinite r → |x - q| ≤ |x - r|
  even : ∀ r, IsFinite r → r ≠ q → |x - r| = |x - q| → IsEven q

/-- A finite number is nearest to itself, and no other is. -/
theorem IsNearest.eq_iff {x q : ℚ} (h : IsNearest x q) : q = x ↔ IsFinite x := by
  constructor
  · rintro rfl
    exact h.finite
  · intro hx
    have hle := h.le x hx
    rw [sub_self, abs_zero] at hle
    exact (sub_eq_zero.1 (abs_nonpos_iff.1 hle)).symm

theorem IsFinite.isNearest {x : ℚ} (h : IsFinite x) : IsNearest x x where
  finite := h
  le r _ := by
    rw [sub_self, abs_zero]
    exact abs_nonneg _
  even r _ hr htie := by
    rw [sub_self, abs_zero, abs_eq_zero, sub_eq_zero] at htie
    exact absurd htie.symm hr

/-! ## Rounding to multiples of a step -/

/-- An integer is rounded to a multiple of the step that is at most half a step away, and to an even
one from the middle. -/
theorem roundDiv_spec (n : Nat) {step : Nat} (hstep : 0 < step) :
    2 * n ≤ 2 * (roundDiv n step * step) + step ∧ 2 * (roundDiv n step * step) ≤ 2 * n + step ∧
      (2 * n = 2 * (roundDiv n step * step) + step ∨ 2 * (roundDiv n step * step) = 2 * n + step →
        roundDiv n step % 2 = 0) := by
  have hdiv : n / step * step + n % step = n := Nat.div_add_mod' n step
  have hmod : n % step < step := Nat.mod_lt n hstep
  have hup : (n / step + 1) * step = n / step * step + step := Nat.succ_mul _ _
  unfold roundDiv
  dsimp only
  split
  · rename_i hcompare
    have hlt := Nat.compare_eq_lt.1 hcompare
    omega
  · rename_i hcompare
    have hgt := Nat.compare_eq_gt.1 hcompare
    omega
  · rename_i hcompare
    have heq := Nat.compare_eq_eq.1 hcompare
    split
    · omega
    · omega

/-- Of the multiples of the step none is nearer, and if another one is as near then the one that is
taken is even. -/
theorem roundDiv_nearest (n : Nat) {step : Nat} (hstep : 0 < step) (c : ℤ) :
    |(n : ℚ) - roundDiv n step * step| ≤ |(n : ℚ) - c * step| ∧
      (c ≠ roundDiv n step → |(n : ℚ) - c * step| = |(n : ℚ) - roundDiv n step * step| →
        roundDiv n step % 2 = 0) := by
  obtain ⟨hlower, hupper, heven⟩ := roundDiv_spec n hstep
  generalize roundDiv n step = k at *
  have hlower' : 2 * (n : ℚ) ≤ 2 * (k * step) + step := by exact_mod_cast hlower
  have hupper' : 2 * (k * step : ℚ) ≤ 2 * n + step := by exact_mod_cast hupper
  have hstep' : (0 : ℚ) < step := by exact_mod_cast hstep
  have hnear : |(n : ℚ) - k * step| ≤ step / 2 := abs_le.2 ⟨by linarith, by linarith⟩
  rcases lt_trichotomy c k with hc | rfl | hc
  · -- The other multiple is at least one step lower.
    have hc' : (c : ℚ) + 1 ≤ k := by exact_mod_cast hc
    have hmul : (c : ℚ) * step + step ≤ k * step := by nlinarith
    have hfar : (step : ℚ) / 2 ≤ |(n : ℚ) - c * step| := le_trans (by linarith) (le_abs_self _)
    refine ⟨hnear.trans hfar, fun _ htie => heven (.inr ?_)⟩
    have hself : (n : ℚ) - c * step ≤ step / 2 := (le_abs_self _).trans (htie ▸ hnear)
    have heq : 2 * (k * step : ℚ) = 2 * n + step := by linarith
    exact_mod_cast heq
  · exact ⟨by simp, fun hne => absurd rfl hne⟩
  · -- The other multiple is at least one step higher.
    have hc' : (k : ℚ) + 1 ≤ c := by exact_mod_cast hc
    have hmul : (k : ℚ) * step + step ≤ c * step := by nlinarith
    have hfar : (step : ℚ) / 2 ≤ |(n : ℚ) - c * step| := le_trans (by linarith) (neg_le_abs _)
    refine ⟨hnear.trans hfar, fun _ htie => heven (.inl ?_)⟩
    have hself : -((n : ℚ) - c * step) ≤ step / 2 := (neg_le_abs _).trans (htie ▸ hnear)
    have heq : 2 * (n : ℚ) = 2 * (k * step) + step := by linarith
    exact_mod_cast heq

/-! ## Rounding to the format -/

/-- What an integer is rounded to. -/
def roundInt (n : Nat) : Nat := roundDiv n (spacing n) * spacing n

theorem roundInt_eq_self {n : Nat} (h : n < exactLimit) : roundInt n = n := by
  have hround := rounded_eq (q := 0) h
  rwa [show n * Nat.pow 2 0 = n from Nat.mul_one n] at hround

/-- Rounding adds at most one bit. -/
theorem roundInt_lt {n k : Nat} (h : n < Nat.pow 2 k) : roundInt n < Nat.pow 2 (k + 1) := by
  rcases Nat.lt_or_ge k 53 with hk | hk
  · rw [roundInt_eq_self (Nat.lt_of_lt_of_le h (pow_le_pow hk.le))]
    exact Nat.lt_of_lt_of_le h (pow_le_pow k.le_succ)
  · obtain ⟨j, rfl⟩ := Nat.exists_eq_add_of_le' hk
    have htwice : 2 * Nat.pow 2 (j + 53) = Nat.pow 2 (j + 54) := two_mul_pow (j + 53)
    have hle : Nat.pow 2 j ≤ Nat.pow 2 (j + 53) := pow_le_pow (by omega)
    exact rounded_lt_iff.2 (by omega)

theorem spacing_eq {n e : Nat} (hlower : Nat.pow 2 52 * Nat.pow 2 e ≤ n)
    (hupper : n < Nat.pow 2 53 * Nat.pow 2 e) :
    spacing n = Nat.pow 2 e := by
  rw [pow_mul_pow] at hlower hupper
  have hne : n ≠ 0 := (Nat.lt_of_lt_of_le (pow_pos (52 + e)) hlower).ne'
  have hlog : 52 + e ≤ n.log2 := (Nat.le_log2 hne).2 hlower
  have hlog' : n.log2 < 53 + e := (Nat.log2_lt hne).2 hupper
  exact congrArg (Nat.pow 2) (by omega)

/-- The place in the format of an integer of more than 53 bits. -/
theorem exists_place {n p : Nat} (hp : p ≤ 1023) (h : exactLimit ≤ n) (hn : n < Nat.pow 2 p) :
    ∃ e, e ≤ 970 ∧ Nat.pow 2 52 * Nat.pow 2 e ≤ n ∧ n < Nat.pow 2 53 * Nat.pow 2 e := by
  have hne : n ≠ 0 := (Nat.lt_of_lt_of_le (pow_pos 53) h).ne'
  have hlog : 53 ≤ n.log2 := (Nat.le_log2 hne).2 h
  have hlog' : n.log2 < p := (Nat.log2_lt hne).2 hn
  refine ⟨n.log2 - 52, by omega, ?_, ?_⟩
  · rw [pow_mul_pow, Nat.add_sub_cancel' (by omega)]
    exact Nat.log2_self_le hne
  · rw [pow_mul_pow, show 53 + (n.log2 - 52) = n.log2 + 1 by omega]
    exact Nat.lt_log2_self

/-- A significand of 53 bits, or the power of two that follows them, at an exponent below the last
one. -/
theorem isFinite_mul_pow {k e : Nat} (hk : k ≤ Nat.pow 2 53) (he : e ≤ 970) :
    IsFinite (k * 2 ^ e) ∧ (Nat.pow 2 52 ≤ k → k % 2 = 0 → IsEven (k * 2 ^ e)) := by
  rcases Nat.lt_or_eq_of_le hk with hlt | rfl
  · have hlt' : |(k : ℤ)| < 2 ^ 53 := by
      rw [Nat.abs_cast]
      exact_mod_cast hlt
    have hformat : InFormat k e := ⟨hlt', by omega, by omega⟩
    have hvalue : (k * 2 ^ e : ℚ) = ((k : ℤ) : ℚ) * 2 ^ (e : ℤ) := by simp
    refine ⟨⟨k, e, hformat, hvalue⟩, fun hlarge heven => ⟨k, e, hformat, .inl ?_, ?_, hvalue⟩⟩
    · rw [Nat.abs_cast]
      exact_mod_cast hlarge
    · exact_mod_cast Nat.even_iff.2 heven
  · have hformat : InFormat (2 ^ 52) (e + 1) := ⟨by norm_num, by omega, by omega⟩
    have hvalue : ((Nat.pow 2 53 : Nat) * 2 ^ e : ℚ) = ((2 ^ 52 : ℤ) : ℚ) * 2 ^ ((e : ℤ) + 1) := by
      rw [zpow_add_one₀ two_ne_zero, zpow_natCast]
      norm_num
      ring
    exact ⟨⟨_, _, hformat, hvalue⟩,
      fun _ _ => ⟨_, _, hformat, .inl (by norm_num), by decide, hvalue⟩⟩

/-- A finite number is a multiple of a power of two, or it is small against it. -/
theorem IsFinite.multiple_or_small {r : ℚ} (h : IsFinite r) (e : Nat) :
    (∃ c : ℤ, r = c * 2 ^ e) ∨ r < 2 ^ 52 * 2 ^ e := by
  obtain ⟨k, f, ⟨hk, -, -⟩, rfl⟩ := h
  rcases le_or_gt (e : ℤ) f with hle | hlt
  · obtain ⟨d, rfl⟩ := Int.le.dest hle
    refine .inl ⟨k * 2 ^ d, ?_⟩
    rw [zpow_add₀ two_ne_zero, zpow_natCast, zpow_natCast]
    push_cast
    ring
  · right
    have hpow : (2 : ℚ) ^ f ≤ 2 ^ ((e : ℤ) - 1) := zpow_le_zpow_right₀ one_le_two (by omega)
    have hk' : (k : ℚ) < 2 ^ 53 := by exact_mod_cast (le_abs_self k).trans_lt hk
    calc (k : ℚ) * 2 ^ f < 2 ^ 53 * 2 ^ f := mul_lt_mul_of_pos_right hk' (by positivity)
      _ ≤ 2 ^ 53 * 2 ^ ((e : ℤ) - 1) := mul_le_mul_of_nonneg_left hpow (by positivity)
      _ = 2 ^ 52 * 2 ^ e := by
        rw [zpow_sub_one₀ two_ne_zero, zpow_natCast]
        ring

/-- An integer is rounded to the nearest number of the format. The exponent of the bound is
a variable: nothing must try to compute the power. -/
theorem isNearest_roundInt {n p : Nat} (hp : p ≤ 1023) (hn : n < Nat.pow 2 p) :
    IsNearest n (roundInt n) := by
  by_cases hexact : n < exactLimit
  · rw [roundInt_eq_self hexact]
    have hfinite := (isFinite_mul_pow (e := 0) (Nat.le_of_lt hexact) (by decide)).1
    rw [pow_zero, mul_one] at hfinite
    exact hfinite.isNearest
  obtain ⟨e, he, hlower, hupper⟩ := exists_place hp (Nat.not_lt.1 hexact) hn
  have hstep : ((Nat.pow 2 e : Nat) : ℚ) = 2 ^ e := Nat.cast_pow 2 e
  have hnearest := roundDiv_nearest n (pow_pos e)
  rw [hstep] at hnearest
  rw [roundInt, spacing_eq hlower hupper, Nat.cast_mul, hstep]
  have hk : roundDiv n (Nat.pow 2 e) ≤ Nat.pow 2 53 :=
    (roundDiv_le _ _).trans ((Nat.div_lt_iff_lt_mul (pow_pos e)).2 hupper)
  have hlarge : Nat.pow 2 52 ≤ roundDiv n (Nat.pow 2 e) :=
    ((Nat.le_div_iff_mul_le (pow_pos e)).2 hlower).trans (le_roundDiv _ _)
  generalize roundDiv n (Nat.pow 2 e) = k at *
  obtain ⟨hfinite, heven⟩ := isFinite_mul_pow hk he
  have hlower' : (2 : ℚ) ^ 52 * 2 ^ e ≤ n := by exact_mod_cast hlower
  -- Below the lower end of its place the numbers are farther from the integer than that end.
  have hsmall : ∀ r : ℚ, r < 2 ^ 52 * 2 ^ e → |(n : ℚ) - k * 2 ^ e| < |(n : ℚ) - r| := by
    intro r hr
    calc |(n : ℚ) - k * 2 ^ e| ≤ |(n : ℚ) - (2 ^ 52 : ℤ) * 2 ^ e| := (hnearest _).1
      _ = n - 2 ^ 52 * 2 ^ e := by
        push_cast
        exact abs_of_nonneg (sub_nonneg.2 hlower')
      _ < n - r := sub_lt_sub_left hr _
      _ ≤ |(n : ℚ) - r| := le_abs_self _
  refine ⟨hfinite, fun r hr => ?_, fun r hr hne htie => ?_⟩
  · rcases hr.multiple_or_small e with ⟨c, rfl⟩ | hlt
    · exact (hnearest c).1
    · exact (hsmall r hlt).le
  · rcases hr.multiple_or_small e with ⟨c, rfl⟩ | hlt
    · refine heven hlarge ((hnearest c).2 ?_ htie)
      rintro rfl
      exact hne rfl
    · exact absurd htie (hsmall r hlt).ne'

/-! ## Integers as numbers of the format -/

theorem roundDiv_mul_mul (num den : Nat) {m : Nat} (hm : 0 < m) :
    roundDiv (num * m) (den * m) = roundDiv num den := by
  unfold roundDiv
  rw [Nat.mul_div_mul_right _ _ hm, Nat.mul_mod_mul_right, ← Nat.mul_assoc]
  rcases Nat.lt_trichotomy (2 * (num % den)) den with h | h | h
  · rw [Nat.compare_eq_lt.2 h, Nat.compare_eq_lt.2 ((Nat.mul_lt_mul_right hm).2 h)]
  · rw [Nat.compare_eq_eq.2 h, Nat.compare_eq_eq.2 (congrArg (· * m) h)]
  · rw [Nat.compare_eq_gt.2 h, Nat.compare_eq_gt.2 ((Nat.mul_lt_mul_right hm).2 h)]

/-- An integer that does not leave the format is rounded to an integer. -/
theorem toInt?_ofNat {n p : Nat} (hp : p ≤ 1023) (hn : n < Nat.pow 2 p) :
    (ofInt n).toInt? = some (roundInt n : Int) := by
  by_cases hexact : n < exactLimit
  · rw [roundInt_eq_self hexact]
    exact toInt?_ofInt hexact
  obtain ⟨e, he, hlower, hupper⟩ := exists_place hp (Nat.not_lt.1 hexact) hn
  obtain ⟨q, hq⟩ := exists_unitsPerOne
  have hscaled : ∀ k, Nat.pow 2 k * Nat.pow 2 (e + (q + 1)) = Nat.pow 2 k * Nat.pow 2 e * Nat.pow 2
      (q + 1) := by
    intro k
    rw [← pow_mul_pow, Nat.mul_assoc]
  have hspacing : spacing (n * Nat.pow 2 (q + 1)) = Nat.pow 2 e * Nat.pow 2 (q + 1) := by
    rw [pow_mul_pow]
    refine spacing_eq ?_ ?_
    · rw [hscaled]
      exact Nat.mul_le_mul_right _ hlower
    · rw [hscaled]
      exact (Nat.mul_lt_mul_right (pow_pos _)).2 hupper
  have hround : roundDiv (n * unitsPerOne) (spacing (n * unitsPerOne)) * spacing (n * unitsPerOne) =
      roundInt n * unitsPerOne := by
    rw [hq, hspacing, roundDiv_mul_mul _ _ (pow_pos _), ← Nat.mul_assoc, roundInt,
      spacing_eq hlower hupper]
  have hlt : roundInt n * unitsPerOne < overflowUnits := by
    obtain ⟨o, ho⟩ : ∃ o, 1024 = o := ⟨_, rfl⟩
    delta overflowUnits
    rw [ho]
    refine (Nat.mul_lt_mul_right unitsPerOne_pos).2 (Nat.lt_of_lt_of_le (roundInt_lt hn) ?_)
    exact pow_le_pow (by omega)
  refine toInt?_eq_some_iff.2 ⟨false, roundInt n * unitsPerOne, ?_, Int.natCast_mul _ _⟩
  show ofRatio false n 1 = _
  rw [ofRatio, ofUnits_one, hround, if_pos hlt]

end ApiTrace.Binary64
