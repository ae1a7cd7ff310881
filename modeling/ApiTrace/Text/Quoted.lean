import ApiTrace.Text.Printable

/-!
# Quoted texts

Messages show a text between quotes, with a backslash form for everything that cannot be printed.
The quote is `'`, or `"` when the text has a `'` and no `"`.
-/

namespace ApiTrace.Text

/-- `n` in lower-case hexadecimal, with zeros in front up to `width` digits. -/
def hexPadded (width n : Nat) : List Char :=
  let digits := Nat.toDigits 16 n
  List.replicate (width - digits.length) '0' ++ digits

/-- How a code point is shown between quotes of the kind `quote`. -/
def quotedPoint (quote : Char) (p : CodePoint) : List Char :=
  match p with
  | .scalar '\\' => ['\\', '\\']
  | .scalar '\n' => ['\\', 'n']
  | .scalar '\r' => ['\\', 'r']
  | .scalar '\t' => ['\\', 't']
  | p =>
    if p = .scalar quote then ['\\', quote]
    else match p, isPrintable p with
      | .scalar c, true => [c]
      | p, _ =>
        let n := p.toNat
        if n < 0x100 then '\\' :: 'x' :: hexPadded 2 n
        else if n < 0x10000 then '\\' :: 'u' :: hexPadded 4 n
        else '\\' :: 'U' :: hexPadded 8 n

/-- The quote that a text is shown with. -/
def quoteFor (t : Text) : Char :=
  if t.contains (.scalar '\'') && !t.contains (.scalar '"') then '"' else '\''

/-- A text as messages show it. -/
def quoted (t : Text) : String :=
  let quote := quoteFor t
  String.ofList (quote :: t.flatMap (quotedPoint quote) ++ [quote])

end ApiTrace.Text
