import ApiTrace.Text.CodePoint

/-!
# Escape sequences

What the characters of a string literal or of a template stand for. After a backslash come a code
point in hexadecimal (`u{1F600}`, `u0041`, `x41`), a letter for a control character, a line break,
which stands for nothing, or any other character, which stands for itself. A backslash at the
very end stands for itself.
-/

namespace ApiTrace.Escape

/-- Why an escape sequence stands for nothing. -/
inductive Fault where
  /-- The number is no code point. -/
  | notACodePoint
  /-- The number does not even fit in a signed word of 32 bits. -/
  | tooLarge
deriving DecidableEq

/-- What is said of an escape sequence that stands for nothing. -/
def Fault.message : Fault → String
  | .notACodePoint => "chr() arg not in range(0x110000)"
  | .tooLarge => "Python int too large to convert to C int"

/-- The code point of a number. -/
def codePoint (n : Nat) : Except Fault Text :=
  match CodePoint.ofNat? n with
  | some p => .ok [p]
  | none => .error (if n ≤ 0x7FFFFFFF then .notACodePoint else .tooLarge)

/-- The number that hexadecimal digits spell. -/
def hexValue (digits : Text) : Nat := Text.digitsValue 16 (digits.filterMap CodePoint.hexDigit?)

/-- Whether a code point is a hexadecimal digit. -/
def isHex (p : CodePoint) : Bool := p.hexDigit?.isSome

/-- What a single character after a backslash stands for. -/
def simple (p : CodePoint) : Text :=
  match p with
  | .scalar 'n' => [.scalar '\n']
  | .scalar 't' => [.scalar '\t']
  | .scalar 'r' => [.scalar '\r']
  | .scalar 'b' => [.scalar '\x08']
  | .scalar 'f' => [.scalar '\x0c']
  | .scalar 'v' => [.scalar '\x0b']
  | .scalar '0' => [.scalar '\x00']
  | .scalar '\n' | .scalar '\r' | .scalar '\u2028' | .scalar '\u2029' => []
  | p => [p]

/-- What the text after a backslash begins with: the value of the escape sequence and how many code
points it takes. -/
def sequence (rest : Text) : Except Fault (Text × Nat) :=
  match rest with
  | [] => .ok ([.scalar '\\'], 0)
  | .scalar 'u' :: .scalar '\x7b' :: tail =>
    let digits := tail.takeWhile isHex
    if digits ≠ [] ∧ tail[digits.length]? = some (.scalar '\x7d') then
      (codePoint (hexValue digits)).map (·, digits.length + 3)
    else .ok (simple (.scalar 'u'), 1)
  | .scalar 'u' :: tail =>
    let digits := tail.take 4
    if digits.length = 4 ∧ digits.all isHex then (codePoint (hexValue digits)).map (·, 5)
    else .ok (simple (.scalar 'u'), 1)
  | .scalar 'x' :: tail =>
    let digits := tail.take 2
    if digits.length = 2 ∧ digits.all isHex then (codePoint (hexValue digits)).map (·, 3)
    else .ok (simple (.scalar 'x'), 1)
  | .scalar '\r' :: .scalar '\n' :: _ => .ok ([], 2)
  | p :: _ => .ok (simple p, 1)

/-- What a text stands for after its first `skipped` code points, which belong to an escape sequence
that is already read. -/
def decodeAfter : (skipped : Nat) → Text → Except Fault Text
  | _, [] => .ok []
  | n + 1, _ :: rest => decodeAfter n rest
  | 0, p :: rest =>
    if p = .scalar '\\' then do
      let (value, used) ← sequence rest
      return value ++ (← decodeAfter used rest)
    else do return p :: (← decodeAfter 0 rest)

/-- What a text with escape sequences stands for. -/
def decode (t : Text) : Except Fault Text := decodeAfter 0 t

end ApiTrace.Escape
