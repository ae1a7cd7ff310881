import ApiTrace.Number.Binary64

/-!
# Integers too large for a floating point number

Rounding an integer to 53 significant bits leaves the format exactly if the integer is at most half
a step from the power of two at which the format ends (`Binary64.ofInt?_eq_none_iff`).
-/

namespace ApiTrace.Binary64

/-! ## Rounding to a multiple -/

theorem le_roundDiv (num den : Nat) : num / den ≤ roundDiv num den := by
  unfold roundDiv
  dsimp only
  split
  · exact Nat.le_refl _
  · exact Nat.le_succ _
  · split
    · exact Nat.le_refl _
    · exact Nat.le_succ _

theorem roundDiv_le (num den : Nat) : roundDiv num den ≤ num / den + 1 := by
  unfold roundDiv
  dsimp only
  split
  · exact Nat.le_succ _
  · exact Nat.le_refl _
  · split
    · exact Nat.le_succ _
    · exact Nat.le_refl _

theorem roundDiv_of_lt {num den : Nat} (h : 2 * (num % den) < den) :
    roundDiv num den = num / den := by
  unfold roundDiv
  rw [Nat.compare_eq_lt.2 h]

/-- A quotient that is odd is rounded up from the middle on. -/
theorem roundDiv_of_odd {num den : Nat} (h : den ≤ 2 * (num % den)) (hodd : num / den % 2 = 1) :
    roundDiv num den = num / den + 1 := by
  unfold roundDiv
  rcases Nat.lt_or_eq_of_le h with h | h
  · rw [Nat.compare_eq_gt.2 h]
  · rw [Nat.compare_eq_eq.2 h.symm]
    simp [hodd]

/-- Of the numbers below an even number of steps, only those in the last half step are rounded up to
it. -/
theorem roundDiv_mul_lt_iff {u c h : Nat} (hc : (c - 1) % 2 = 1) (hh : 0 < h)
    (hu : u < c * (2 * h)) :
    roundDiv u (2 * h) * (2 * h) < c * (2 * h) ↔ u < c * (2 * h) - h := by
  have hpos : 0 < 2 * h := by omega
  have hone : c - 1 + 1 = c := by omega
  have hsplit : (c - 1) * (2 * h) + 2 * h = c * (2 * h) := by
    rw [← Nat.succ_mul, Nat.succ_eq_add_one, hone]
  have hquotient : u / (2 * h) < c := Nat.div_lt_of_lt_mul (by rwa [Nat.mul_comm])
  have hdiv : 2 * h * (u / (2 * h)) + u % (2 * h) = u := Nat.div_add_mod u (2 * h)
  rw [Nat.mul_lt_mul_right hpos]
  constructor
  · intro hlt
    refine Nat.lt_of_not_le fun hge => ?_
    have hlast : u / (2 * h) = c - 1 := Nat.div_eq_of_lt_le (by omega) (by rwa [hone])
    rw [hlast, Nat.mul_comm] at hdiv
    have hround : roundDiv u (2 * h) = u / (2 * h) + 1 :=
      roundDiv_of_odd (by omega) (by rw [hlast, hc])
    omega
  · intro hlt
    by_cases hlast : u / (2 * h) = c - 1
    · rw [hlast, Nat.mul_comm] at hdiv
      rw [roundDiv_of_lt (by omega)]
      exact hquotient
    · have := roundDiv_le u (2 * h)
      omega

theorem roundDiv_mul_le (u step : Nat) : roundDiv u step * step ≤ u + step := by
  calc roundDiv u step * step ≤ (u / step + 1) * step := Nat.mul_le_mul_right _ (roundDiv_le u step)
    _ = u / step * step + step := Nat.succ_mul _ _
    _ ≤ u + step := Nat.add_le_add_right (Nat.div_mul_le_self u step) _

theorem le_roundDiv_mul {u c step : Nat} (hstep : 0 < step) (h : c * step ≤ u) :
    c * step ≤ roundDiv u step * step :=
  Nat.mul_le_mul_right _ (Nat.le_trans ((Nat.le_div_iff_mul_le hstep).2 h) (le_roundDiv u step))

/-! ## Rounding to the format -/

theorem pow_mul_pow (a b : Nat) : Nat.pow 2 a * Nat.pow 2 b = Nat.pow 2 (a + b) :=
  (Nat.pow_add 2 a b).symm

theorem two_mul_pow (a : Nat) : 2 * Nat.pow 2 a = Nat.pow 2 (a + 1) := (Nat.pow_succ').symm

theorem pow_pos (a : Nat) : 0 < Nat.pow 2 a := Nat.two_pow_pos a

theorem pow_le_pow {a b : Nat} (h : a ≤ b) : Nat.pow 2 a ≤ Nat.pow 2 b :=
  Nat.pow_le_pow_right (by decide) h

/-- What a number of units is rounded to stays below a power of two exactly if the number is more
than half a step below it. -/
theorem rounded_lt_iff {k u : Nat} : roundDiv u (spacing u) * spacing u < Nat.pow 2 (k + 54) ↔
    u < Nat.pow 2 (k + 54) - Nat.pow 2 k := by
  have hhalf : 2 * Nat.pow 2 (k + 53) = Nat.pow 2 (k + 54) := two_mul_pow (k + 53)
  have hle : Nat.pow 2 k ≤ Nat.pow 2 (k + 53) := pow_le_pow (by omega)
  have hpos := pow_pos k
  have hupper : u < Nat.pow 2 (u.log2 + 1) := Nat.lt_log2_self
  rcases Nat.lt_trichotomy u.log2 (k + 53) with hlog | hlog | hlog
  · -- The number lies in the lower half, where a step is at most half of one at the top.
    have hu : u < Nat.pow 2 (k + 53) := Nat.lt_of_lt_of_le hupper (pow_le_pow hlog)
    have hstep : spacing u ≤ Nat.pow 2 k := pow_le_pow (by omega)
    have hround := roundDiv_mul_le u (spacing u)
    omega
  · -- The number lies in the upper half, where a step is twice the distance in question.
    have hstep : spacing u = 2 * Nat.pow 2 k := by
      rw [spacing, hlog, two_mul_pow]
      rfl
    have htop : Nat.pow 2 (k + 54) = Nat.pow 2 53 * (2 * Nat.pow 2 k) := by
      rw [two_mul_pow, pow_mul_pow, Nat.add_comm 53]
    rw [hlog] at hupper
    rw [hstep, htop]
    exact roundDiv_mul_lt_iff (by decide) hpos (htop ▸ hupper)
  · -- The number is not below the power, and neither is what it is rounded to.
    have hu : u ≠ 0 := by
      rintro rfl
      simp at hlog
    have hpow : Nat.pow 2 52 * spacing u = Nat.pow 2 u.log2 :=
      (pow_mul_pow 52 _).trans (congrArg (Nat.pow 2) (by omega))
    have hlower : Nat.pow 2 52 * spacing u ≤ u :=
      Nat.le_trans (Nat.le_of_eq hpow) (Nat.log2_self_le hu)
    have hround := le_roundDiv_mul (pow_pos _) hlower
    have hlarge : Nat.pow 2 (k + 54) ≤ Nat.pow 2 52 * spacing u :=
      Nat.le_trans (pow_le_pow hlog) (Nat.le_of_eq hpow.symm)
    refine iff_of_false (Nat.not_lt.2 (Nat.le_trans hlarge hround)) (Nat.not_lt.2 ?_)
    exact Nat.le_trans (Nat.sub_le _ _) (Nat.le_trans hlarge hlower)

/-- The least absolute value of an integer that is too large for the format. -/
def integerLimit : Nat := Nat.pow 2 1024 - Nat.pow 2 970

theorem rounded_mul_lt_iff {m p q r k unit overflow limit : Nat} (hunit : unit = Nat.pow 2 q)
    (hoverflow : overflow = Nat.pow 2 p * unit) (hlimit : limit = Nat.pow 2 p - Nat.pow 2 r)
    (hp : p + q = k + 54) (hr : r + q = k) :
    roundDiv (m * unit) (spacing (m * unit)) * spacing (m * unit) < overflow ↔ m < limit := by
  have hpos : 0 < unit := hunit ▸ pow_pos q
  have hscaled : limit * unit = Nat.pow 2 (k + 54) - Nat.pow 2 k := by
    rw [hlimit, hunit, Nat.sub_mul, pow_mul_pow, pow_mul_pow, hp, hr]
  have hend : overflow = Nat.pow 2 (k + 54) := by
    rw [hoverflow, hunit, pow_mul_pow, hp]
  rw [hend, rounded_lt_iff, ← hscaled, Nat.mul_lt_mul_right hpos]

/-- Rounding leaves the format if it comes to too many units. -/
theorem ofUnits_one (negative : Bool) (num : Nat) : ofUnits negative num 1 =
    if roundDiv num (spacing num) * spacing num < overflowUnits
    then .finite negative (roundDiv num (spacing num) * spacing num) else .infinite negative := by
  simp only [ofUnits, Nat.div_one, Nat.one_mul]

theorem finite?_eq_none_iff {x : Binary64} : x.finite? = none ↔ ∀ b units, x ≠ .finite b units := by
  cases x with
  | finite b units => exact iff_of_false nofun fun h => h b units rfl
  | _ => exact iff_of_true rfl nofun

/-- An integer is too large for the format exactly if it is at most half a step from the power of
two at which the format ends. -/
theorem ofInt?_eq_none_iff {n : Int} : ofInt? n = none ↔ integerLimit ≤ n.natAbs := by
  -- The exponents are variables here: nothing must try to compute the powers.
  obtain ⟨p, hp⟩ : ∃ p, 1024 = p := ⟨_, rfl⟩
  obtain ⟨q, hq⟩ : ∃ q, 1074 = q := ⟨_, rfl⟩
  obtain ⟨r, hr⟩ : ∃ r, 970 = r := ⟨_, rfl⟩
  have hunit : unitsPerOne = Nat.pow 2 q := by
    delta unitsPerOne
    rw [hq]
  have hoverflow : overflowUnits = Nat.pow 2 p * unitsPerOne := by
    delta overflowUnits
    rw [hp]
  have hlimit : integerLimit = Nat.pow 2 p - Nat.pow 2 r := by
    delta integerLimit
    rw [hp, hr]
  have hlt :=
    rounded_mul_lt_iff (m := n.natAbs) (k := 2044) hunit hoverflow hlimit (by omega) (by omega)
  rewrite [ofInt?, finite?_eq_none_iff, ofRatio, ofUnits_one, ← Nat.not_lt, ← hlt]
  split
  · rename_i h
    exact iff_of_false (fun hne => hne _ _ rfl) (not_not_intro h)
  · rename_i h
    exact iff_of_true nofun h

end ApiTrace.Binary64
