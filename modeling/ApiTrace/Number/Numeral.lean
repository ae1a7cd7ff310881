import ApiTrace.Number.Shortest
import ApiTrace.Text.Blank
import ApiTrace.Text.Digit
import ApiTrace.Text.Quoted

/-!
# Numerals

Reading integers and floating point numbers from text, and writing integers as text. Decimal
integers are limited to 4300 digits in both directions; integers whose base is a power of two are
not limited.

`Number.ofLiteral` reads a numeric literal of a JavaScript program: a literal with a base mark is an
exact integer, and any other literal is rounded to a floating point number, which is given as an
integer if it is whole and neither a point nor an exponent was written.
-/

namespace ApiTrace

/-- A number: an integer of any size or a floating point number. -/
inductive Number where
  | int (n : Int)
  | float (x : Binary64)
deriving DecidableEq

namespace Numeral

/-- Why a numeral cannot be read or written. -/
inductive Fault where
  /-- The text is no integer. -/
  | notAnInteger (text : Text)
  /-- The text is no floating point number. -/
  | notAFloat (text : Text)
  /-- A decimal integer is too long to be read. -/
  | tooLongToRead (digits : Nat)
  /-- An integer is too long to be written in decimal. -/
  | tooLongToWrite
deriving DecidableEq

/-- The greatest number of decimal digits of an integer that is read or written. -/
def digitLimit : Nat := 4300

/-- What is said of a numeral that cannot be read or written. A faulty integer is shown up to 200
characters. -/
def Fault.message : Fault → String
  | .notAnInteger text =>
    "invalid literal for int() with base 0: " ++ String.ofList ((Text.quoted text).toList.take 200)
  | .notAFloat text => "could not convert string to float: " ++ Text.quoted text
  | .tooLongToRead digits =>
    s!"Exceeds the limit ({digitLimit} digits) for integer string conversion: value has {digits} "
      ++ "digits; use sys.set_int_max_str_digits() to increase the limit"
  | .tooLongToWrite =>
    s!"Exceeds the limit ({digitLimit} digits) for integer string conversion; "
      ++ "use sys.set_int_max_str_digits() to increase the limit"

/-- Whether a code point may stand around a numeral. The separators of ASCII may not. -/
def isBlank (p : CodePoint) : Bool := Text.isBlank p && !(0x1C ≤ p.toNat && p.toNat ≤ 0x1F)

/-- A numeral with the digits of all scripts as ASCII digits and without the blanks around it. -/
def plain (t : Text) : Text :=
  (Text.trim isBlank t).map fun p =>
    match Text.decimalDigit? p with
    | some d => (Nat.digitChar d : Char)
    | none => p

/-- Splits off a sign; the flag tells whether it is a minus. -/
def splitSign : Text → Bool × Text
  | .scalar '-' :: rest => (true, rest)
  | .scalar '+' :: rest => (false, rest)
  | t => (false, t)

/-! ### Integers -/

/-- The base that the mark after a leading zero names. -/
def markedBase? : CodePoint → Option Nat
  | .scalar 'x' | .scalar 'X' => some 16
  | .scalar 'o' | .scalar 'O' => some 8
  | .scalar 'b' | .scalar 'B' => some 2
  | _ => none

/-- The base mark of a literal: its base and the text after it. -/
def splitMark? : Text → Option (Nat × Text)
  | .scalar '0' :: mark :: rest => (markedBase? mark).map (·, rest)
  | _ => none

/-- The digits of a text in a base, if it has at least one and nothing else. -/
def digitsIn? (base : Nat) (t : Text) : Option (List Nat) :=
  match t.mapM fun p => (p.hexDigit?).filter (· < base) with
  | some (d :: ds) => some (d :: ds)
  | _ => none

/-- The digits at the front of a text and what follows them. -/
def spanDigits (t : Text) : List Nat × Text :=
  ((t.takeWhile (·.digit?.isSome)).filterMap CodePoint.digit?, t.dropWhile (·.digit?.isSome))

/-- Reads an unsigned integer with or without a base mark; `whole` is the text that a fault shows.
Without a mark a zero may only be followed by zeros. The length of a decimal integer is looked at
first, before anything that follows its digits. -/
def readUnsigned (whole t : Text) : Except Fault Nat :=
  match splitMark? t with
  | some (base, rest) =>
    match digitsIn? base rest with
    | some ds => .ok (Text.digitsValue base ds)
    | none => .error (.notAnInteger whole)
  | none =>
    let (digits, rest) := spanDigits t
    if digitLimit < digits.length then .error (.tooLongToRead digits.length)
    else if digits.isEmpty ∨ !rest.isEmpty then .error (.notAnInteger whole)
    else if digits.head? = some 0 ∧ digits.any (· != 0) then .error (.notAnInteger whole)
    else .ok (Text.digitsValue 10 digits)

/-- Reads an integer: blanks, a sign, a base mark and digits. -/
def readInt (t : Text) : Except Fault Int := do
  let (negative, body) := splitSign (plain t)
  let n ← readUnsigned t body
  return if negative then -n else n

/-- Writes an integer in decimal. -/
def writeInt (n : Int) : Except Fault Text :=
  if n.natAbs < Nat.pow 10 digitLimit then .ok (Text.ofInt n) else .error .tooLongToWrite

/-! ### Floating point numbers -/

/-- Reads the exponent that follows a mantissa; nothing at all is the exponent zero. -/
def readExponent? : Text → Option Int
  | [] => some 0
  | mark :: rest =>
    if mark = 'e' ∨ mark = 'E' then
      let (negative, body) := splitSign rest
      match spanDigits body with
      | (d :: ds, []) =>
        let n : Int := Text.digitsValue 10 (d :: ds)
        some (if negative then -n else n)
      | _ => none
    else none

/-- Reads a decimal: digits with or without a point, at least one, and an exponent or none. -/
def readDecimal? (negative : Bool) (t : Text) : Option Binary64 := do
  let (whole, afterWhole) := spanDigits t
  let (fraction, afterFraction) := match afterWhole with
    | .scalar '.' :: rest => spanDigits rest
    | rest => ([], rest)
  if whole.isEmpty && fraction.isEmpty then none
  let exponent ← readExponent? afterFraction
  return .ofDecimal negative (Text.digitsValue 10 (whole ++ fraction)) (exponent - fraction.length)

/-- Reads a floating point number: blanks, a sign, and a decimal or the name of infinity or of "not
a number" in any letter case. -/
def readFloat? (t : Text) : Option Binary64 :=
  let (negative, body) := splitSign (plain t)
  let word := body.map fun
    | .scalar c => CodePoint.scalar c.toLower
    | p => p
  if word = Text.ofString "inf" ∨ word = Text.ofString "infinity" then some (.infinite negative)
  else if word = Text.ofString "nan" then some .nan
  else readDecimal? negative body

end Numeral

/-- Reads a numeric literal. Underscores between digits count for nothing. -/
def Number.ofLiteral (literal : Text) : Except Numeral.Fault Number :=
  let t := literal.filter (· != .scalar '_')
  if (Numeral.splitMark? t).isSome then (Numeral.readInt t).map .int
  else match Numeral.readFloat? t with
    | none => .error (.notAFloat t)
    | some x =>
      let marked := t.any fun p => p == .scalar '.' || p == .scalar 'e' || p == .scalar 'E'
      match x.toInt?, marked with
      | some n, false => .ok (.int n)
      | _, _ => .ok (.float x)

end ApiTrace
