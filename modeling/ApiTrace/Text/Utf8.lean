import ApiTrace.Text.CodePoint

/-!
# UTF-8

`Utf8.encode?` writes a text as bytes and `Utf8.decode` reads bytes as a text. Decoding is strict:
an overlong form, a surrogate, a number above `U+10FFFF` and a sequence that breaks off are refused,
and the fault says at which byte and how many bytes it covers.
-/

namespace ApiTrace.Utf8

/-! ### Encoding -/

/-- The bytes of a scalar value. -/
def encodeChar (c : Char) : List UInt8 :=
  let n := c.toNat
  if n < 0x80 then [n.toUInt8]
  else if n < 0x800 then [(0xC0 + n / 0x40).toUInt8, (0x80 + n % 0x40).toUInt8]
  else if n < 0x10000 then
    [(0xE0 + n / 0x1000).toUInt8, (0x80 + n / 0x40 % 0x40).toUInt8, (0x80 + n % 0x40).toUInt8]
  else
    [(0xF0 + n / 0x40000).toUInt8, (0x80 + n / 0x1000 % 0x40).toUInt8,
      (0x80 + n / 0x40 % 0x40).toUInt8, (0x80 + n % 0x40).toUInt8]

/-- The bytes of a text. A surrogate has none. -/
def encode? : Text → Option (List UInt8)
  | [] => some []
  | .scalar c :: t => (encode? t).map (encodeChar c ++ ·)
  | .surrogate _ :: _ => none

/-- The bytes of a text in which the surrogates from `U+DC80` to `U+DCFF` stand for single bytes
from `0x80` to `0xFF`, so that bytes that are no UTF-8 can be named. Other surrogates have no
bytes. -/
def encodeEscaped? : Text → Option (List UInt8)
  | [] => some []
  | .scalar c :: t => (encodeEscaped? t).map (encodeChar c ++ ·)
  | .surrogate offset :: t =>
    if 0x480 ≤ offset.val ∧ offset.val < 0x500 then
      (encodeEscaped? t).map ((offset.val - 0x400).toUInt8 :: ·)
    else none

/-! ### Decoding -/

/-- Why a byte sequence is not UTF-8. -/
inductive Reason where
  /-- No character starts with this byte. -/
  | start
  /-- The byte after the faulty stretch cannot continue the character. -/
  | continuation
  /-- The bytes end inside a character. -/
  | truncated
deriving DecidableEq

/-- The first faulty stretch of a byte sequence: where it begins and the bytes it covers. -/
structure Fault where
  position : Nat
  bytes : List UInt8
  reason : Reason
deriving DecidableEq

/-- A character of which some bytes are read: those bytes, the number they spell so far, and how
many bytes are still to come. -/
structure Pending where
  bytes : List UInt8
  value : Nat
  missing : Nat

/-- Whether a byte continues a character. -/
def isContinuation (b : UInt8) : Bool := 0x80 ≤ b && b < 0xC0

/-- Whether the second byte of a character fits its first byte. The bounds rule out overlong forms,
surrogates and numbers above `U+10FFFF`. -/
def secondFits (first second : UInt8) : Bool :=
  isContinuation second
    && !(first == 0xE0 && second < 0xA0) && !(first == 0xED && second ≥ 0xA0)
    && !(first == 0xF0 && second < 0x90) && !(first == 0xF4 && second ≥ 0x90)

/-- The start of a character of more than one byte. -/
def Pending.start? (b : UInt8) : Option Pending :=
  if b < 0xC2 then none
  else if b < 0xE0 then some ⟨[b], b.toNat % 0x20, 1⟩
  else if b < 0xF0 then some ⟨[b], b.toNat % 0x10, 2⟩
  else if b < 0xF5 then some ⟨[b], b.toNat % 0x08, 3⟩
  else none

/-- Whether a byte can go on the character that is being read. -/
def Pending.fits (p : Pending) (b : UInt8) : Bool :=
  match p.bytes with
  | [first] => secondFits first b
  | _ => isContinuation b

/-- The character that is being read, with one more byte. -/
def Pending.push (p : Pending) (b : UInt8) : Pending :=
  ⟨p.bytes ++ [b], p.value * 0x40 + b.toNat % 0x40, p.missing - 1⟩

/-- Reads bytes as a text, from the middle of the character `pending` if there is one; `position` is
where the next character begins, or where the pending one began. -/
def decodeFrom (position : Nat) : Option Pending → List UInt8 → Except Fault Text
  | none, [] => .ok []
  | some p, [] => .error ⟨position, p.bytes, .truncated⟩
  | none, b :: rest =>
    if b < 0x80 then
      (decodeFrom (position + 1) none rest).map (.scalar (Char.ofNat b.toNat) :: ·)
    else match Pending.start? b with
      | none => .error ⟨position, [b], .start⟩
      | some p => decodeFrom position (some p) rest
  | some p, b :: rest =>
    if !p.fits b then .error ⟨position, p.bytes, .continuation⟩
    else
      let p := p.push b
      if p.missing = 0 then
        (decodeFrom (position + p.bytes.length) none rest).map (.scalar (Char.ofNat p.value) :: ·)
      else decodeFrom position (some p) rest

/-- Reads bytes as a text. -/
def decode (bytes : List UInt8) : Except Fault Text := decodeFrom 0 none bytes

/-! ### Wording -/

/-- Two lower-case hexadecimal digits. -/
def hexByte (b : UInt8) : String :=
  String.ofList [Nat.digitChar (b.toNat / 16), Nat.digitChar (b.toNat % 16)]

/-- What a fault is called. -/
def Reason.message : Reason → String
  | .start => "invalid start byte"
  | .continuation => "invalid continuation byte"
  | .truncated => "unexpected end of data"

/-- What is said of bytes that cannot be read. -/
def Fault.message (f : Fault) : String :=
  match f.bytes with
  | [b] =>
    s!"'utf-8' codec can't decode byte 0x{hexByte b} in position {f.position}: {f.reason.message}"
  | bytes =>
    let last := f.position + bytes.length - 1
    s!"'utf-8' codec can't decode bytes in position {f.position}-{last}: {f.reason.message}"

end ApiTrace.Utf8
