import ApiTrace.Number.Shortest
import ApiTrace.Number.Numeral

/-!
# Constants

The values that an expression can have before the program runs, and the text that each of them turns
into when it is used as a property name.
-/

namespace ApiTrace

/-- A value that is known from the source alone. Numbers and big integers are not told apart. -/
inductive Constant where
  | string (value : Text)
  | number (value : Number)
  | boolean (value : Bool)
  | null
deriving DecidableEq

/-- Why an expression cannot be asked for its constant value. -/
inductive ConstantFault where
  /-- A node lacks a part that its name promises. -/
  | missingPart
  /-- An integer is too long to be written in decimal. -/
  | tooLongToWrite
  /-- An integer is added to a floating point number and is too large to become one. -/
  | tooLargeForFloat
deriving DecidableEq

/-- What is said of an expression that cannot be asked, where there is something to say. -/
def ConstantFault.message? : ConstantFault → Option String
  | .missingPart => none
  | .tooLongToWrite => some Numeral.Fault.tooLongToWrite.message
  | .tooLargeForFloat => some "int too large to convert to float"

namespace Constant

/-- An integer in decimal. -/
def intText (n : Int) : Except ConstantFault Text :=
  (Numeral.writeInt n).mapError fun _ => .tooLongToWrite

/-- A floating point number as a property name: whole numbers below 10^21 are written out. -/
def floatText (x : Binary64) : Text :=
  match x with
  | .nan => "NaN"
  | .infinite negative => if negative then "-Infinity" else "Infinity"
  | .finite .. =>
    match x.toInt? with
    | some n => if n.natAbs < Nat.pow 10 21 then Text.ofInt n else x.toString
    | none => x.toString

/-- The text that a constant turns into. -/
def toText : Constant → Except ConstantFault Text
  | .string value => .ok value
  | .number (.int n) => intText n
  | .number (.float x) => .ok (floatText x)
  | .boolean true => .ok "true"
  | .boolean false => .ok "false"
  | .null => .ok "null"

/-- The sum of two numbers. Integers are added exactly; next to a floating point number an integer
becomes one. -/
def addNumbers : Number → Number → Except ConstantFault Number
  | .int a, .int b => .ok (.int (a + b))
  | .float x, .float y => .ok (.float (x + y))
  | .int a, .float y => (Binary64.ofInt? a).elim (.error .tooLargeForFloat) (.ok <| .float <| · + y)
  | .float x, .int b => (Binary64.ofInt? b).elim (.error .tooLargeForFloat) (.ok <| .float <| x + ·)

/-- The number with the other sign. -/
def negNumber : Number → Number
  | .int n => .int (-n)
  | .float x => .float (-x)

/-- What `+` makes of two constants: a text if one of them is a text, a number if both are
numbers. -/
def plus : Constant → Constant → Except ConstantFault (Option Constant)
  | .number a, .number b => do return some (.number (← addNumbers a b))
  | a@(.string _), b | a, b@(.string _) => do return some (.string ((← a.toText) ++ (← b.toText)))
  | _, _ => .ok none

end Constant

end ApiTrace
