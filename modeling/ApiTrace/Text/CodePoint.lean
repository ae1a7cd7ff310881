/-!
# Code points and texts

A text is a sequence of code points. A string literal of a JavaScript program may spell a surrogate
on its own (`"\uD800"`), and a `Char` cannot hold one, so a code point is either a scalar value or a
surrogate. Everything that comes out of a source text, a trace map or a command line is a `Text`.
-/

namespace ApiTrace

/-- A Unicode code point: a scalar value, or one of the 2048 surrogates, counted from `U+D800`. -/
inductive CodePoint where
  | scalar (c : Char)
  | surrogate (offset : Fin 0x800)
deriving DecidableEq

/-- A sequence of code points. -/
abbrev Text := List CodePoint

namespace CodePoint

/-- The number of a code point. -/
def toNat : CodePoint → Nat
  | .scalar c => c.toNat
  | .surrogate offset => 0xD800 + offset.val

/-- The code point of a number below `0x110000`. -/
def ofNat? (n : Nat) : Option CodePoint :=
  if h : n.isValidChar then some (.scalar (Char.ofNatAux n h))
  else if h : 0xD800 ≤ n ∧ n < 0xE000 then some (.surrogate ⟨n - 0xD800, by omega⟩)
  else none

instance : Coe Char CodePoint := ⟨.scalar⟩

/-- Whether a code point is a surrogate. -/
def isSurrogate : CodePoint → Bool
  | .scalar _ => false
  | .surrogate _ => true

/-- The value of an ASCII decimal digit. -/
def digit? : CodePoint → Option Nat
  | .scalar c => if c.isDigit then some (c.toNat - '0'.toNat) else none
  | .surrogate _ => none

/-- The value of an ASCII hexadecimal digit, in either letter case. -/
def hexDigit? : CodePoint → Option Nat
  | .scalar c =>
    if c.isDigit then some (c.toNat - '0'.toNat)
    else if 'a' ≤ c ∧ c ≤ 'f' then some (c.toNat - 'a'.toNat + 10)
    else if 'A' ≤ c ∧ c ≤ 'F' then some (c.toNat - 'A'.toNat + 10)
    else none
  | .surrogate _ => none

end CodePoint

namespace Text

/-- The text of a string. -/
def ofString (s : String) : Text := s.toList.map .scalar

instance : Coe String Text := ⟨ofString⟩

theorem ofString_inj {s t : String} : ofString s = ofString t ↔ s = t :=
  (List.map_inj_right fun _ _ => CodePoint.scalar.inj).trans String.toList_inj

theorem ofString_mem_map {s : String} {l : List String} : ofString s ∈ l.map ofString ↔ s ∈ l := by
  simp [List.mem_map, ofString_inj]

/-- Whether a text is among others can be decided. -/
instance decidableMem (t : Text) (l : List Text) : Decidable (t ∈ l) := inferInstance

/-- The characters of a text without surrogates. -/
def chars? : Text → Option (List Char)
  | [] => some []
  | .scalar c :: t => (chars? t).map (c :: ·)
  | .surrogate _ :: _ => none

/-- The string of a text without surrogates. -/
def toString? (t : Text) : Option String := (chars? t).map String.ofList

/-- A text with the capital letters of ASCII made small. -/
def asciiLower (t : Text) : Text :=
  t.map fun
    | .scalar c => .scalar c.toLower
    | p => p

/-- Puts `separator` between the members of a list of texts. -/
def join (separator : Text) : List Text → Text
  | [] => []
  | [t] => t
  | t :: ts => t ++ separator ++ join separator ts

/-- The pieces of a text between the occurrences of `c`; there is always at least one. -/
def splitOn (c : CodePoint) : Text → List Text
  | [] => [[]]
  | x :: xs =>
    if x = c then [] :: splitOn c xs
    else match splitOn c xs with
      | [] => [[x]]
      | piece :: pieces => (x :: piece) :: pieces

/-- The text without its last `n` code points. -/
def dropEnd (n : Nat) (t : Text) : Text := t.take (t.length - n)

/-- The decimal digits of a natural number. -/
def ofNat (n : Nat) : Text := ofString (toString n)

/-- The decimal digits of an integer, after a `-` if it is negative. -/
def ofInt (n : Int) : Text := ofString (toString n)

/-- The number that a list of digits spells in a base. -/
def digitsValue (base : Nat) (digits : List Nat) : Nat :=
  digits.foldl (fun n d => n * base + d) 0

end Text

end ApiTrace
