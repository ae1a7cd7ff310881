import ApiTrace.Text.CaseTable

/-!
# Letter case

`lower` puts a text in lower case and `capitalize` puts its first character in title case and the
rest in lower case. A capital sigma becomes the final form `ς` at the end of a word. `foldAscii` is
the case-insensitive form that names are compared by.
-/

namespace ApiTrace.Text

/-- Applies a mapping of numbers to a code point. Surrogates have no case. -/
def mapPoint (f : Nat → List Nat) : CodePoint → Text
  | .scalar c => (f c.toNat).filterMap CodePoint.ofNat?
  | .surrogate s => [.surrogate s]

/-- Whether a code point is a letter with case. -/
def isCased (p : CodePoint) : Bool := CaseTable.inRanges CaseTable.cased p.toNat

/-- Whether a code point is passed over when the letters around a capital sigma are looked for. -/
def isCaseIgnorable (p : CodePoint) : Bool := CaseTable.inRanges CaseTable.ignorable p.toNat

/-- Whether the first code point that counts is a letter with case. -/
def startsCased (t : Text) : Bool := (t.find? (!isCaseIgnorable ·)).any isCased

/-- The lower case of a code point between the text `before`, nearest first, and the text
`after`. -/
def lowerPoint (before : Text) (p : CodePoint) (after : Text) : Text :=
  if p = 'Σ' then if startsCased before && !startsCased after then ['ς'] else ['σ']
  else mapPoint (CaseTable.image CaseTable.lower CaseTable.lowerExpansions) p

/-- The lower case of a text that follows `before`, which is given nearest first. -/
def lowerAfter (before : Text) : Text → Text
  | [] => []
  | p :: rest => lowerPoint before p rest ++ lowerAfter (p :: before) rest

/-- A text in lower case. -/
def lower (t : Text) : Text := lowerAfter [] t

/-- A text with its first character in title case and the rest in lower case. -/
def capitalize : Text → Text
  | [] => []
  | p :: rest =>
    mapPoint (CaseTable.image CaseTable.title CaseTable.titleExpansions) p ++ lowerAfter [p] rest

/-- The words between the underscores of a name, each capitalized and put together. -/
def camelCase (t : Text) : Text := (splitOn '_' t).flatMap capitalize

/-- The code points whose case folding consists of ASCII letters, the capital letters of ASCII
apart. -/
def asciiFoldings : List (Char × String) :=
  [('ß', "ss"), ('ẞ', "ss"), ('ſ', "s"), ('K', "k"), ('ﬀ', "ff"), ('ﬁ', "fi"), ('ﬂ', "fl"),
    ('ﬃ', "ffi"), ('ﬄ', "ffl"), ('ﬅ', "st"), ('ﬆ', "st")]

/-- Folds the case of every code point whose folding is plain ASCII. Two texts of which one is an
ASCII word have the same case folding exactly if these forms are equal. -/
def foldAscii (t : Text) : Text :=
  t.flatMap fun
    | .surrogate s => [.surrogate s]
    | .scalar c =>
      match asciiFoldings.lookup c with
      | some folded => folded
      | none => [c.toLower]

end ApiTrace.Text
