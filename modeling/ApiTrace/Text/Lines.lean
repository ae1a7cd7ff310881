import ApiTrace.Text.CodePoint

/-!
# Lines

`lines` cuts a text at its line breaks; a break at the very end of a text opens no further line.
`unixNewlines` turns every carriage return, and every carriage return with its line feed, into one
line feed, as is done with the text of a file when it is read.
-/

namespace ApiTrace.Text

/-- Whether a code point ends a line. A carriage return and the line feed after it are one end. -/
def isLineBreak (p : CodePoint) : Bool :=
  let n := p.toNat
  (0x0A ≤ n && n ≤ 0x0D) || (0x1C ≤ n && n ≤ 0x1E) || n == 0x85 || n == 0x2028 || n == 0x2029

/-- The lines of a text that continues the line `start`, which is given from its end. -/
def linesFrom (start : Text) : Text → List Text
  | [] => if start.isEmpty then [] else [start.reverse]
  | .scalar '\r' :: .scalar '\n' :: rest => start.reverse :: linesFrom [] rest
  | p :: rest =>
    if isLineBreak p then start.reverse :: linesFrom [] rest else linesFrom (p :: start) rest

/-- The lines of a text, without their breaks. -/
def lines (t : Text) : List Text := linesFrom [] t

/-- A text with line feeds for all its line ends of the forms CR LF and CR. -/
def unixNewlines : Text → Text
  | [] => []
  | .scalar '\r' :: .scalar '\n' :: rest => .scalar '\n' :: unixNewlines rest
  | p :: rest => (if p = .scalar '\r' then .scalar '\n' else p) :: unixNewlines rest

end ApiTrace.Text
