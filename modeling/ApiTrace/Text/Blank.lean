import ApiTrace.Text.CodePoint

/-!
# Blank characters

The characters that count as white space at the two ends of a text.
-/

namespace ApiTrace.Text

/-- The blank code points as closed ranges in ascending order. -/
def blankRanges : List (Nat × Nat) :=
  [(0x09, 0x0D), (0x1C, 0x20), (0x85, 0x85), (0xA0, 0xA0), (0x1680, 0x1680), (0x2000, 0x200A),
    (0x2028, 0x2029), (0x202F, 0x202F), (0x205F, 0x205F), (0x3000, 0x3000)]

/-- Whether a code point is blank. -/
def isBlank (p : CodePoint) : Bool :=
  blankRanges.any fun (first, last) => first ≤ p.toNat && p.toNat ≤ last

/-- A text without the code points of a class at its two ends. -/
def trim (drop : CodePoint → Bool) (t : Text) : Text :=
  ((t.dropWhile drop).reverse.dropWhile drop).reverse

/-- A text without the blanks at its two ends. -/
def strip (t : Text) : Text := trim isBlank t

end ApiTrace.Text
