import ApiTrace.Proofs.Number.Overflow

/-!
# Integers that a floating point number holds exactly

An integer below `2 ^ 53` is a number of the format, so rounding leaves it as it is
(`Binary64.toInt?_ofInt`), and rounding never brings a larger one below that bound
(`Binary64.eq_of_toInt?_ofInt`). The sum of two whole numbers is the rounded sum of the integers
(`Binary64.toInt?_add`), so it is exact as long as it stays below the bound.
-/

namespace ApiTrace.Binary64

/-- The least integer up to which all integers are numbers of the format. -/
def exactLimit : Nat := Nat.pow 2 53

/-- The number nearest to an integer, infinite if the format does not reach that far. -/
def ofInt (n : Int) : Binary64 := ofRatio (n < 0) n.natAbs 1

theorem exactLimit_le_pow {k : Nat} (hk : 16 ≤ k) : exactLimit ≤ Nat.pow 10 k := by
  have hlimit : exactLimit ≤ Nat.pow 10 16 := by decide
  exact Nat.le_trans hlimit (Nat.pow_le_pow_right (by decide) hk)

/-! ## Rounding of whole numbers -/

/-- The distance between neighbours divides a multiple of a power of two that has few bits. -/
theorem spacing_dvd {k q : Nat} (hk : k < exactLimit) :
    spacing (k * Nat.pow 2 q) ∣ k * Nat.pow 2 q := by
  by_cases hzero : k * Nat.pow 2 q = 0
  · rw [hzero]
    exact Nat.dvd_zero _
  · have hlt : k * Nat.pow 2 q < Nat.pow 2 (53 + q) := by
      rw [← pow_mul_pow]
      exact (Nat.mul_lt_mul_right (pow_pos q)).2 hk
    have hlog : (k * Nat.pow 2 q).log2 < 53 + q := (Nat.log2_lt hzero).2 hlt
    exact Nat.dvd_mul_left_of_dvd (Nat.pow_dvd_pow 2 (by omega)) k

/-- What has few bits is rounded to itself. -/
theorem rounded_eq {k q : Nat} (hk : k < exactLimit) :
    roundDiv (k * Nat.pow 2 q) (spacing (k * Nat.pow 2 q)) * spacing (k * Nat.pow 2 q) = k *
      Nat.pow 2 q := by
  have hdvd := spacing_dvd (q := q) hk
  have hmod : k * Nat.pow 2 q % spacing (k * Nat.pow 2 q) = 0 := Nat.mod_eq_zero_of_dvd hdvd
  rw [roundDiv_of_lt (by rw [hmod]; exact pow_pos _), Nat.div_mul_cancel hdvd]

/-- What is rounded to something with few bits had few bits. -/
theorem lt_of_rounded_lt {k q : Nat}
    (h : roundDiv (k * Nat.pow 2 (q + 1)) (spacing (k * Nat.pow 2 (q + 1))) *
      spacing (k * Nat.pow 2 (q + 1)) < exactLimit * Nat.pow 2 (q + 1)) : k < exactLimit := by
  have htop : exactLimit * Nat.pow 2 (q + 1) = Nat.pow 2 (q + 54) := by
    rw [exactLimit, pow_mul_pow]
    exact congrArg (Nat.pow 2) (by omega)
  rw [htop, rounded_lt_iff, ← htop] at h
  exact (Nat.mul_lt_mul_right (pow_pos (q + 1))).1 (Nat.lt_of_lt_of_le h (Nat.sub_le _ _))

/-! ## Numbers that are integers -/

/-- The units of a one are a power of two, which is given without its exponent: nothing must try to
compute it. -/
theorem exists_unitsPerOne : ∃ q, unitsPerOne = Nat.pow 2 (q + 1) := by
  obtain ⟨p, hp⟩ : ∃ p, 1074 = p := ⟨_, rfl⟩
  refine ⟨p - 1, ?_⟩
  delta unitsPerOne
  rw [hp]
  exact congrArg (Nat.pow 2) (by omega)

theorem unitsPerOne_pos : 0 < unitsPerOne := by
  obtain ⟨q, hq⟩ := exists_unitsPerOne
  rw [hq]
  exact pow_pos (q + 1)

theorem exactLimit_mul_le : exactLimit * unitsPerOne ≤ overflowUnits := by
  obtain ⟨p, hp⟩ : ∃ p, 1024 = p := ⟨_, rfl⟩
  delta overflowUnits
  rw [hp]
  exact Nat.mul_le_mul_right _ (pow_le_pow (by omega))

theorem natAbs_signedUnits (negative : Bool) (units : Nat) :
    (signedUnits negative units).natAbs = units := by
  cases negative <;> simp [signedUnits]

theorem signedUnits_mul (negative : Bool) (k m : Nat) :
    signedUnits negative (k * m) = signedUnits negative k * m := by
  cases negative with
  | true =>
    show -((k * m : Nat) : Int) = -(k : Int) * m
    rw [Int.natCast_mul, Int.neg_mul]
  | false => exact Int.natCast_mul k m

theorem signedUnits_natAbs (n : Int) : signedUnits (n < 0) n.natAbs = n := by
  unfold signedUnits
  split
  · rename_i h
    have hneg : n < 0 := of_decide_eq_true h
    omega
  · rename_i h
    have hnonneg : ¬ n < 0 := fun hneg => h (decide_eq_true hneg)
    omega

/-- A number is an integer if its units make up that many ones. -/
theorem toInt?_eq_some_iff {x : Binary64} {n : Int} : x.toInt? = some n ↔
    ∃ negative units, x = .finite negative units ∧
      signedUnits negative units = n * unitsPerOne := by
  cases x with
  | finite negative units =>
    have hpos := unitsPerOne_pos
    rw [toInt?]
    generalize unitsPerOne = one at hpos ⊢
    constructor
    · intro h
      split at h
      · rename_i hmod
        refine ⟨negative, units, rfl, ?_⟩
        rw [← Option.some.inj h, ← signedUnits_mul,
          Nat.div_mul_cancel (Nat.dvd_of_mod_eq_zero hmod)]
      · cases h
    · rintro ⟨_, _, hx, hunits⟩
      obtain ⟨rfl, rfl⟩ := finite.inj hx
      have hmul : units = n.natAbs * one := by
        rw [← natAbs_signedUnits negative units, hunits, Int.natAbs_mul, Int.natAbs_natCast]
      have hone : (one : Int) ≠ 0 := Int.natCast_ne_zero.2 (Nat.ne_of_gt hpos)
      rw [hmul, signedUnits_mul] at hunits
      rw [hmul, if_pos (Nat.mul_mod_left _ _), Nat.mul_div_cancel _ hpos, Int.eq_of_mul_eq_mul_right
        hone hunits]
  | _ =>
    constructor
    · intro h
      cases h
    · rintro ⟨_, _, h, -⟩
      cases h

/-- An integer below the bound stays as it is. -/
theorem toInt?_ofInt {n : Int} (hn : n.natAbs < exactLimit) : (ofInt n).toInt? = some n := by
  obtain ⟨q, hq⟩ := exists_unitsPerOne
  have hround := rounded_eq (q := q + 1) hn
  rw [← hq] at hround
  have hlt : n.natAbs * unitsPerOne < overflowUnits :=
    Nat.lt_of_lt_of_le ((Nat.mul_lt_mul_right unitsPerOne_pos).2 hn) exactLimit_mul_le
  rw [toInt?_eq_some_iff]
  refine ⟨n < 0, n.natAbs * unitsPerOne, ?_, ?_⟩
  · rw [ofInt, ofRatio, ofUnits_one, hround, if_pos hlt]
  · rw [signedUnits_mul, signedUnits_natAbs]

/-- If an integer is rounded to one below the bound then it is that integer. -/
theorem eq_of_toInt?_ofInt {n m : Int} (h : (ofInt n).toInt? = some m)
    (hm : m.natAbs < exactLimit) : n = m := by
  obtain ⟨q, hq⟩ := exists_unitsPerOne
  obtain ⟨negative, units, hx, hunits⟩ := toInt?_eq_some_iff.1 h
  have habs : units = m.natAbs * unitsPerOne := by
    rw [← natAbs_signedUnits negative units, hunits, Int.natAbs_mul, Int.natAbs_natCast]
  have hn : n.natAbs < exactLimit := by
    rw [ofInt, ofRatio, ofUnits_one] at hx
    split at hx
    · obtain ⟨-, hround⟩ := finite.inj hx
      rw [habs, hq] at hround
      refine lt_of_rounded_lt (q := q) ?_
      rw [hround]
      exact (Nat.mul_lt_mul_right (pow_pos (q + 1))).2 hm
    · cases hx
  rw [toInt?_ofInt hn] at h
  exact Option.some.inj h

/-- An integer below the bound can become a number of the format. -/
theorem exists_ofInt? {n : Int} (hn : n.natAbs < exactLimit) :
    ∃ x, ofInt? n = some x ∧ x.toInt? = some n := by
  have h := toInt?_ofInt hn
  obtain ⟨negative, units, hx, -⟩ := toInt?_eq_some_iff.1 h
  refine ⟨ofInt n, ?_, h⟩
  rw [ofInt?, ← ofInt, hx, finite?]

/-! ## Arithmetic -/

theorem toInt?_neg {x : Binary64} {n : Int} (h : x.toInt? = some n) : (-x).toInt? = some (-n) := by
  obtain ⟨negative, units, rfl, hunits⟩ := toInt?_eq_some_iff.1 h
  refine toInt?_eq_some_iff.2 ⟨!negative, units, rfl, ?_⟩
  rw [Int.neg_mul, ← hunits]
  cases negative <;> simp [signedUnits]

theorem decide_mul_pos {n : Int} {k : Nat} (hk : 0 < k) : decide (n * k < 0) = decide (n < 0) := by
  have hk : (0 : Int) < k := Int.natCast_pos.2 hk
  rw [decide_eq_decide]
  constructor
  · intro h
    refine Int.lt_of_not_ge fun hn => Int.not_lt.2 (Int.mul_nonneg hn ?_) h
    exact Int.le_of_lt hk
  · intro h
    exact Int.mul_neg_of_neg_of_pos h hk

/-- The sum of two whole numbers is the sum of the integers, rounded. -/
theorem toInt?_add {x y : Binary64} {a b : Int} (hx : x.toInt? = some a) (hy : y.toInt? = some b) :
    (x + y).toInt? = (ofInt (a + b)).toInt? := by
  obtain ⟨p, m, rfl, hm⟩ := toInt?_eq_some_iff.1 hx
  obtain ⟨q, n, rfl, hn⟩ := toInt?_eq_some_iff.1 hy
  have hpos := unitsPerOne_pos
  have hsum : signedUnits p m + signedUnits q n = (a + b) * unitsPerOne := by
    rw [hm, hn, Int.add_mul]
  change (add _ _).toInt? = _
  simp only [add, hsum]
  split
  · rename_i hzero
    -- The two zeros are the same integer.
    have hzero : a + b = 0 := by
      rcases Int.mul_eq_zero.1 hzero with h | h
      · exact h
      · omega
    have hsome : (finite (p && q) 0).toInt? = some 0 := by
      refine toInt?_eq_some_iff.2 ⟨_, _, rfl, ?_⟩
      rw [Int.zero_mul]
      cases p && q <;> rfl
    rw [hzero, hsome, toInt?_ofInt (n := 0) (pow_pos 53)]
  · rw [ofInt, ofRatio, decide_mul_pos hpos, Int.natAbs_mul, Int.natAbs_natCast]

end ApiTrace.Binary64
