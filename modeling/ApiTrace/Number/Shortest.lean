import ApiTrace.Number.Binary64
import ApiTrace.Text.CodePoint

/-!
# Shortest decimals

The decimal text of a floating point number has the fewest digits that read back as the same number;
of two such decimals it is the nearer one, and of two equally near ones the one with an even last
digit.
-/

namespace ApiTrace.Binary64

/-- A decimal `0.ddd * 10 ^ point` of `count` digits `ddd`. -/
structure Decimal where
  digits : Nat
  count : Nat
  point : Int
deriving DecidableEq

/-- `10 ^ e` as a quotient. -/
def powerOfTen : Int → Nat × Nat
  | .ofNat e => (Nat.pow 10 e, 1)
  | .negSucc e => (1, Nat.pow 10 (e + 1))

/-- Whether `units` are less than `10 ^ e`. -/
def lessThanPower (units : Nat) (e : Int) : Bool :=
  let (num, den) := powerOfTen e
  units * den < num * unitsPerOne

/-- The least `e` for which a positive number of units is less than `10 ^ e`. The search starts
below the answer, at the exponent that the binary logarithm gives, and needs at most a few steps. -/
def pointOf (units : Nat) : Int :=
  let start := ((units.log2 : Int) - 1074) * 30103 / 100000 - 1
  match (List.range 6).find? fun (i : Nat) => lessThanPower units (start + i) with
  | some i => start + i
  | none => start + 6

/-- Of the decimals of `count` digits next to a positive number, the nearest that reads back as
it. -/
def decimalOfLength? (units : Nat) (point : Int) (count : Nat) : Option Decimal :=
  let exponent := point - count
  let (num, den) := powerOfTen exponent
  let top := units * den
  let bottom := unitsPerOne * num
  let low := top / bottom
  let remainder := top % bottom
  let readsBack (digits : Nat) : Bool := ofDecimal false digits exponent == .finite false units
  let lowIsNearer : Bool :=
    2 * remainder < bottom || (2 * remainder == bottom && low % 2 == 0)
  let candidates := if lowIsNearer then [low, low + 1] else [low + 1, low]
  (candidates.find? readsBack).map fun digits =>
    if digits = Nat.pow 10 count then ⟨1, 1, point + 1⟩ else ⟨digits, count, point⟩

/-- The shortest decimal of a positive finite number. Seventeen digits always read back. -/
def shortest (units : Nat) : Decimal :=
  let point := pointOf units
  ((List.range 17).findSome? fun i => decimalOfLength? units point (i + 1)).getD ⟨0, 1, 1⟩

/-- How a number is written as text. -/
structure Layout where
  /-- The least power of ten that is written without an exponent. -/
  positionalFrom : Int
  /-- The least power of ten from which on an exponent is written again. -/
  positionalTo : Int
  /-- The least number of digits of an exponent. -/
  exponentDigits : Nat
  nan : String
  infinity : String

/-- An exponent from `1e+16` on and below `1e-04`, with a sign and two digits at least. -/
def Layout.standard : Layout := ⟨-4, 16, 2, "nan", "inf"⟩

/-- The digits of a decimal. -/
def Decimal.digitChars (d : Decimal) : List Char :=
  let digits := Nat.toDigits 10 d.digits
  List.replicate (d.count - digits.length) '0' ++ digits

/-- A decimal without an exponent; a whole number keeps one zero after the point. -/
def Decimal.positional (d : Decimal) : List Char :=
  let digits := d.digitChars
  match d.point with
  | .ofNat 0 => ['0', '.'] ++ digits
  | .negSucc e => ['0', '.'] ++ List.replicate (e + 1) '0' ++ digits
  | .ofNat point =>
    if digits.length ≤ point then digits ++ List.replicate (point - digits.length) '0' ++ ['.', '0']
    else digits.take point ++ ['.'] ++ digits.drop point

/-- A decimal with an exponent. -/
def Decimal.scientific (format : Layout) (d : Decimal) : List Char :=
  let exponent := d.point - 1
  let exponentDigits := Nat.toDigits 10 exponent.natAbs
  let mantissa := match d.digitChars with
    | [] => []
    | [c] => [c]
    | c :: rest => c :: '.' :: rest
  mantissa ++ ['e', if exponent < 0 then '-' else '+']
    ++ List.replicate (format.exponentDigits - exponentDigits.length) '0' ++ exponentDigits

/-- The text of a number. -/
def write (format : Layout) : Binary64 → String
  | .nan => format.nan
  | .infinite negative => if negative then "-" ++ format.infinity else format.infinity
  | .finite negative units =>
    let body :=
      if units = 0 then ['0', '.', '0']
      else
        let d := shortest units
        if format.positionalFrom ≤ d.point - 1 ∧ d.point - 1 < format.positionalTo then d.positional
        else d.scientific format
    String.ofList (if negative then '-' :: body else body)

/-- The text of a number as messages and documents show it. -/
def toString (x : Binary64) : String := x.write .standard

end ApiTrace.Binary64
