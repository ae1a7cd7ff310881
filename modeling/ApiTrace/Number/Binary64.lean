/-!
# Binary floating point of 64 bits

Every finite number of the format is a multiple of the smallest positive one, `2 ^ -1074`, so it is
given by its sign and by how many of these units it has. Operations are exact in units and then
rounded: to 53 significant bits, to the nearest, a tie to the even neighbour.
-/

namespace ApiTrace

/-- A number of the binary format of 64 bits. `finite negative units` stands for
`± units * 2 ^ -1074`; the two zeros differ in their sign. -/
inductive Binary64 where
  | finite (negative : Bool) (units : Nat)
  | infinite (negative : Bool)
  | nan
deriving DecidableEq

namespace Binary64

/-! ### Rounding -/

/-- The number of units that make one. -/
def unitsPerOne : Nat := Nat.pow 2 1074

/-- The least number of units that is too large for the format. -/
def overflowUnits : Nat := Nat.pow 2 1024 * unitsPerOne

/-- The integer nearest to a quotient, and of two the even one. -/
def roundDiv (num den : Nat) : Nat :=
  let quotient := num / den
  match compare (2 * (num % den)) den with
  | .lt => quotient
  | .gt => quotient + 1
  | .eq => if quotient % 2 = 0 then quotient else quotient + 1

/-- The distance between neighbours of the format at a number of units. -/
def spacing (units : Nat) : Nat := Nat.pow 2 (units.log2 + 1 - 53)

/-- The number of the format nearest to `± num / den` units. -/
def ofUnits (negative : Bool) (num den : Nat) : Binary64 :=
  let step := spacing (num / den)
  let units := roundDiv num (den * step) * step
  if units < overflowUnits then .finite negative units else .infinite negative

/-- The number nearest to `± num / den`. -/
def ofRatio (negative : Bool) (num den : Nat) : Binary64 := ofUnits negative (num * unitsPerOne) den

/-- The number nearest to `± digits * 10 ^ exponent`. Exponents far outside the format are not
expanded: what has more than 400 places before the point is too large, and what begins more than 400
places after it is too small. -/
def ofDecimal (negative : Bool) (digits : Nat) (exponent : Int) : Binary64 :=
  if digits = 0 then .finite negative 0
  else
    let magnitude := exponent + (digits.log2 : Int) * 3 / 10
    if 400 < magnitude then .infinite negative
    else if (digits.log2 : Int) / 3 + 1 + exponent < -400 then .finite negative 0
    else match exponent with
      | .ofNat e => ofRatio negative (digits * Nat.pow 10 e) 1
      | .negSucc e => ofRatio negative digits (Nat.pow 10 (e + 1))

/-- A number that is finite. -/
def finite? : Binary64 → Option Binary64
  | .finite negative units => some (.finite negative units)
  | _ => none

/-- The number nearest to an integer, if the format reaches that far. -/
def ofInt? (n : Int) : Option Binary64 := (ofRatio (n < 0) n.natAbs 1).finite?

/-! ### Arithmetic -/

/-- The number with the other sign. -/
def neg : Binary64 → Binary64
  | .finite negative units => .finite (!negative) units
  | .infinite negative => .infinite (!negative)
  | .nan => .nan

instance : Neg Binary64 := ⟨neg⟩

/-- The units of a finite number with their sign. -/
def signedUnits (negative : Bool) (units : Nat) : Int := if negative then -units else units

/-- The rounded sum. A sum of zero is positive unless both summands are negative. -/
def add : Binary64 → Binary64 → Binary64
  | .nan, _ => .nan
  | _, .nan => .nan
  | .infinite a, .infinite b => if a = b then .infinite a else .nan
  | .infinite a, .finite .. => .infinite a
  | .finite .., .infinite b => .infinite b
  | .finite a m, .finite b n =>
    let sum := signedUnits a m + signedUnits b n
    if sum = 0 then .finite (a && b) 0 else ofUnits (sum < 0) sum.natAbs 1

instance : Add Binary64 := ⟨add⟩

/-- The integer that a number is, if it is one. -/
def toInt? : Binary64 → Option Int
  | .finite negative units =>
    if units % unitsPerOne = 0 then some (signedUnits negative (units / unitsPerOne)) else none
  | _ => none

end Binary64

end ApiTrace
