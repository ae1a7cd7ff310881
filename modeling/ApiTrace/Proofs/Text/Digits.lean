import Mathlib
import ApiTrace.Text.CodePoint

/-!
# Digits and how they are spelled

A digit of a base up to sixteen is spelled by one character, from ten on by a letter in either case.
A character is read as a hexadecimal digit exactly if it spells one (`CodePoint.exists_hexDigit`),
and a row of digits is worth what positional notation says (`HexDigit.digitsValue_map_value`).
-/

namespace ApiTrace

/-- A digit as it is spelled: its value, and whether it is a capital if it is a letter. -/
structure HexDigit where
  value : Fin 16
  capital : Bool

namespace HexDigit

/-- The character of a digit. -/
def codePoint (d : HexDigit) : CodePoint :=
  .scalar (if d.capital then (Nat.digitChar d.value).toUpper else Nat.digitChar d.value)

/-- The text of a row of digits. -/
def text (ds : List HexDigit) : Text := ds.map codePoint

/-- What a row of digits is worth in a base, the digit of the highest place first. -/
def number (base : Nat) (ds : List HexDigit) : Nat :=
  Nat.ofDigits base (ds.map (·.value.val)).reverse

theorem hexDigit?_codePoint (d : HexDigit) : d.codePoint.hexDigit? = some d.value.val := by
  obtain ⟨value, capital⟩ := d
  revert value capital
  decide

theorem filterMap_text (ds : List HexDigit) :
    (text ds).filterMap CodePoint.hexDigit? = ds.map (·.value.val) := by
  rw [text, List.filterMap_map, ← List.filterMap_eq_map]
  congr 1
  funext d
  exact hexDigit?_codePoint d

theorem digitsValue_map_value (base : Nat) (ds : List HexDigit) :
    Text.digitsValue base (ds.map (·.value.val)) = number base ds := by
  rw [number, Nat.ofDigits_eq_foldr, List.foldr_reverse, Text.digitsValue]
  congr 1
  funext n d
  rw [Nat.mul_comm, Nat.add_comm]
  rfl

theorem number_lt {base : Nat} (hbase : 1 < base) {ds : List HexDigit}
    (h : ∀ d ∈ ds, d.value.val < base) :
    number base ds < base ^ ds.length := by
  have hlt :=
    Nat.ofDigits_lt_base_pow_length (l := (ds.map (·.value.val)).reverse) hbase (by simpa using h)
  rwa [List.length_reverse, List.length_map] at hlt

end HexDigit

namespace CodePoint

theorem toNat_lt_of_hexDigit? {c : Char} (h : (CodePoint.scalar c).hexDigit?.isSome = true) :
    c.toNat < 128 := by
  have hsmall : ∀ d : Char, d.toNat < 128 → c ≤ d → c.toNat < 128 :=
    fun d hd hle => Nat.lt_of_le_of_lt hle hd
  rw [hexDigit?] at h
  split at h
  · rename_i hdigit
    exact hsmall '9' (by decide) (of_decide_eq_true (Bool.and_eq_true_iff.1 hdigit).2)
  · split at h
    · rename_i hletter
      exact hsmall 'f' (by decide) hletter.2
    · split at h
      · rename_i hletter
        exact hsmall 'F' (by decide) hletter.2
      · cases h

theorem exists_hexDigit {p : CodePoint} (h : p.hexDigit?.isSome = true) :
    ∃ d : HexDigit, d.codePoint = p := by
  have hall : ∀ n : Fin 128, (CodePoint.scalar (Char.ofNat n)).hexDigit?.isSome = true →
      ∃ value capital, HexDigit.codePoint ⟨value, capital⟩ = .scalar (Char.ofNat n) :=
        by decide +kernel
  cases p with
  | scalar c =>
    have hc := hall ⟨c.toNat, toNat_lt_of_hexDigit? h⟩
    simp only [Char.ofNat_toNat] at hc
    obtain ⟨value, capital, hd⟩ := hc h
    exact ⟨_, hd⟩
  | surrogate => cases h

theorem exists_hexDigits {t : Text} (h : ∀ p ∈ t, p.hexDigit?.isSome = true) :
    ∃ ds, t = HexDigit.text ds := by
  induction t with
  | nil => exact ⟨[], rfl⟩
  | cons p t ih =>
    obtain ⟨hp, ht⟩ := List.forall_mem_cons.1 h
    obtain ⟨d, rfl⟩ := exists_hexDigit hp
    obtain ⟨ds, rfl⟩ := ih ht
    exact ⟨d :: ds, rfl⟩

end CodePoint

end ApiTrace
