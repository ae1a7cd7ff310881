import ApiTrace.Text.Utf8

/-!
# Sources

The text of a JavaScript program together with its UTF-8 bytes, and the places in it. All offsets
count bytes.
-/

namespace ApiTrace

/-- A stretch of a source: the offsets of its first byte and of the byte after it, the line it
begins in, counted from one, and the column it begins at, counted from zero. -/
structure Span where
  start : Nat
  stop : Nat
  line : Nat
  column : Nat
deriving DecidableEq, Inhabited

/-- The stretch from the beginning of one span to the end of another. -/
def Span.between (first last : Span) : Span := { first with stop := last.stop }

/-- A source text with its bytes. -/
structure Source where
  text : Text
  bytes : List UInt8
  encoded : Utf8.encode? text = some bytes

namespace Source

/-- The source without text. -/
def empty : Source := ⟨[], [], rfl⟩

/-- The source of a text; a text with surrogates has no bytes and is no source. -/
def ofText? (text : Text) : Option Source :=
  match h : Utf8.encode? text with
  | some bytes => some ⟨text, bytes, h⟩
  | none => none

/-- The text between two offsets. It is not readable if an offset lies inside a character. -/
def slice (s : Source) (start stop : Nat) : Except Utf8.Fault Text :=
  Utf8.decode ((s.bytes.take stop).drop start)

/-- The offset of the byte before an offset. The bytes are counted in a circle here: before the
first byte stands the last one. -/
def offsetBefore (s : Source) (offset : Nat) : Nat :=
  if offset = 0 then s.bytes.length - 1 else offset - 1

/-- The text of a span. -/
def textOf (s : Source) (span : Span) : Except Utf8.Fault Text := s.slice span.start span.stop

end Source

end ApiTrace
