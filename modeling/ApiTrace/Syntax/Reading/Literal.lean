import ApiTrace.Syntax.Reading

/-!
# Reading literals and templates
-/

namespace ApiTrace.Phrase

/-- The value of a text with escape sequences. -/
def unescape (t : Text) : Outcome Text := (Escape.decode t).mapError .escape

/-- A string literal: the text between its quotes. -/
def stringLiteral (src : Source) (p : Phrase) : Outcome Node := do
  let raw ← p.text src
  let value ← unescape (Text.dropEnd 1 (raw.drop 1))
  return p.build (.literal (.string value) raw)

/-- The value of a numeric literal. A literal that ends in `n` is an integer of any size, which must
be short enough to be written out. -/
def numberValue (raw : Text) : Except Numeral.Fault Literal :=
  if raw.getLast? = some 'n' then do
    let value ← Numeral.readInt (raw.dropLast.filter (· != .scalar '_'))
    let _ ← Numeral.writeInt value
    return .bigint value
  else (Number.ofLiteral raw).map .number

/-- A numeric literal. -/
def numberLiteral (src : Source) (p : Phrase) : Outcome Node := do
  let raw ← p.text src
  let value ← (numberValue raw).mapError .numeral
  return p.build (.literal value raw)

/-- A literal that is a word. -/
def wordLiteral (p : Phrase) (value : Literal) : Node := p.build (.literal value p.kind)

/-- A regular expression literal. -/
def regexLiteral (src : Source) (p : Phrase) : Outcome Node := do
  let raw ← p.text src
  let pattern ← p.fieldText src "pattern" []
  let flags ← p.fieldText src "flags" []
  return p.build (.literal (.regex pattern flags) raw)

/-! ### Templates -/

/-- The text of a template between two offsets. -/
def quasi (src : Source) (start stop : Nat) : Outcome Text := do
  unescape (← (src.slice start stop).mapError .text)

/-- Reads a template from the offset `start` on: the texts around the substitutions that are left
and the expressions in them. The last text ends at `stop`. A substitution without expression has
none. -/
def templateFrom (src : Source) (start stop : Nat) :
    List Reading → Outcome (List Text × List (Option Node))
  | [] => do return ([← quasi src start stop], [])
  | r :: rs => do
    let text ← quasi src start r.span.start
    let expression ← match r.phrase.named with
      | [] => pure []
      | inner :: _ => do pure [← inner.node]
    let (texts, expressions) ← templateFrom src r.span.stop stop rs
    return (text :: texts, expression ++ expressions)

/-- A template: the texts between its backquotes and the expressions substituted in it. The last
text ends before the closing backquote, which for a template that ends where the source begins is
the last byte of the source. -/
def template (src : Source) (p : Phrase) : Outcome Node := do
  let substitutions := p.children.filter fun r =>
    r.phrase.head.named && r.kind == "template_substitution"
  let (texts, expressions) ← templateFrom src (p.span.start + 1)
    (src.offsetBefore p.span.stop) substitutions
  return p.build (.template (texts.map fun t => p.build (.templateElement t)) expressions)

end ApiTrace.Phrase
