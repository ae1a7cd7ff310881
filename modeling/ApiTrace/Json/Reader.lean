import ApiTrace.Json.Basic
import ApiTrace.Number.Numeral

/-!
# Reading JSON

A document is read character by character by a pushdown automaton: its stack holds the arrays and
objects that are still open, `Expectation` says what may come next, and `Mode` holds the token that
is being read. So reading is a fold over the text and its end is plain to see.

Besides the grammar of JSON the words `NaN`, `Infinity` and `-Infinity` are read as numbers. A
number without fraction and exponent is an integer. A surrogate that is written by an escape stays
alone unless its partner follows at once.
-/

namespace ApiTrace.Json

/-- Why a text is not read as a document. -/
inductive ReadFault where
  /-- The text does not follow the grammar. -/
  | malformed
  /-- An integer is too long. -/
  | numeral (fault : Numeral.Fault)
deriving DecidableEq

/-- An array or object that is still open. -/
inductive Frame where
  /-- An array with its items so far, the last one first. -/
  | array (items : List Json)
  /-- An object with its members so far. -/
  | object (members : List (Text × Json))
  /-- An object of which the member `name` has no value yet. -/
  | member (members : List (Text × Json)) (name : Text)

/-- What may come next between two tokens. -/
inductive Expectation where
  | value
  | valueOrClose
  | name
  | nameOrClose
  | colon
  | separator
  | nothing (document : Json)

/-- How far a number is read. -/
inductive NumberPart where
  | sign
  | zero
  | whole
  | point
  | fraction
  | mark
  | markSign
  | exponent
deriving DecidableEq

/-- The part of a number that a character leads to, or none if it does not belong to the number. -/
def NumberPart.next? (part : NumberPart) (p : CodePoint) : Option NumberPart :=
  let isDigit := p.digit?.isSome
  match part with
  | .sign => if p = '0' then some .zero else if isDigit then some .whole else none
  | .zero => if p = '.' then some .point else if p = 'e' ∨ p = 'E' then some .mark else none
  | .whole =>
    if isDigit then some .whole
    else if p = '.' then some .point
    else if p = 'e' ∨ p = 'E' then some .mark
    else none
  | .point => if isDigit then some .fraction else none
  | .fraction =>
    if isDigit then some .fraction else if p = 'e' ∨ p = 'E' then some .mark else none
  | .mark =>
    if isDigit then some .exponent else if p = '+' ∨ p = '-' then some .markSign else none
  | .markSign => if isDigit then some .exponent else none
  | .exponent => if isDigit then some .exponent else none

/-- The token that is being read. -/
inductive Mode where
  | between
  /-- A string, the last code point first. -/
  | string (read : Text)
  /-- A string after a backslash. -/
  | escape (read : Text)
  /-- A string inside an escape of four hexadecimal digits: their value and how many are missing. -/
  | unicode (read : Text) (value missing : Nat)
  /-- A number, the last code point first. -/
  | number (read : Text) (part : NumberPart)
  /-- A word, the last code point first. -/
  | word (read : Text)

/-- The automaton. -/
structure Reader where
  stack : List Frame
  expectation : Expectation
  mode : Mode

namespace Reader

/-- The automaton at the start of a document. -/
def start : Reader := ⟨[], .value, .between⟩

/-- Whether a value may come next. -/
def expectsValue (r : Reader) : Bool :=
  match r.expectation with
  | .value | .valueOrClose => true
  | _ => false

/-- Takes a finished value. -/
def accept (r : Reader) (v : Json) : Reader :=
  match r.stack with
  | [] => ⟨[], .nothing v, .between⟩
  | .array items :: rest => ⟨.array (v :: items) :: rest, .separator, .between⟩
  | .member members name :: rest =>
    ⟨.object (setMember name v members) :: rest, .separator, .between⟩
  | .object members :: rest => ⟨.object members :: rest, .separator, .between⟩

/-- Takes a finished string, which is a value or the name of a member. -/
def acceptString (r : Reader) (t : Text) : Reader :=
  match r.expectation, r.stack with
  | .name, .object members :: rest | .nameOrClose, .object members :: rest =>
    ⟨.member members t :: rest, .colon, .between⟩
  | _, _ => r.accept (.string t)

/-- The words that stand for a value. -/
def wordValue? (word : Text) : Option Json :=
  [(Text.ofString "null", Json.null), (Text.ofString "true", .bool true),
    (Text.ofString "false", .bool false), (Text.ofString "NaN", .float .nan),
    (Text.ofString "Infinity", .float (.infinite false)),
    (Text.ofString "-Infinity", .float (.infinite true))].lookup word

/-- The value of a number without fraction and exponent. -/
def integer (t : Text) : Except ReadFault Json :=
  let digits := t.filterMap CodePoint.digit?
  if Numeral.digitLimit < digits.length then .error (.numeral (.tooLongToRead digits.length))
  else
    let n : Int := Text.digitsValue 10 digits
    .ok (.int (if t.head? = some '-' then -n else n))

/-- The value of a number. If it breaks off inside a fraction or an exponent, its whole part counts
as read before the fault is met. -/
def numberValue (t : Text) : NumberPart → Except ReadFault Json
  | .zero | .whole => integer t
  | .fraction | .exponent =>
    match Numeral.readFloat? t with
    | some x => .ok (.float x)
    | none => .error .malformed
  | .sign => .error .malformed
  | .point | .mark | .markSign =>
    let whole := t.takeWhile fun p => p == .scalar '-' || p.digit?.isSome
    let isFloat := t.contains '.' && t.getLast? != some '.'
    if isFloat then .error .malformed else do let _ ← integer whole; .error .malformed

/-- Closes the token that is being read, when the next character does not belong to it. -/
def endToken (r : Reader) : Except ReadFault Reader :=
  match r.mode with
  | .number read part => do return r.accept (← numberValue read.reverse part)
  | .word read =>
    match wordValue? read.reverse with
    | some v => .ok (r.accept v)
    | none => .error .malformed
  | _ => .ok r

/-- Closes the innermost array or object with the bracket `p`. -/
def close (r : Reader) (p : CodePoint) : Except ReadFault Reader :=
  match r.stack with
  | .array items :: rest =>
    if p = ']' then .ok (accept { r with stack := rest } (.array items.reverse))
      else .error .malformed
  | .object members :: rest =>
    if p = '}' then .ok (accept { r with stack := rest } (.object members)) else .error .malformed
  | _ => .error .malformed

/-- Whether a bracket may close the innermost array or object now. -/
def mayClose (r : Reader) : Bool :=
  match r.expectation with
  | .valueOrClose | .nameOrClose | .separator => true
  | _ => false

/-- Whether a character is white space between tokens. -/
def isSpace (p : CodePoint) : Bool := p = ' ' || p = '\t' || p = '\n' || p = '\r'

/-- Reads a character that starts a token. -/
def begin (r : Reader) (p : CodePoint) : Except ReadFault Reader :=
  if isSpace p then .ok r
  else if p = '"' then
    match r.expectation with
    | .value | .valueOrClose | .name | .nameOrClose => .ok { r with mode := .string [] }
    | _ => .error .malformed
  else if p = '[' ∧ r.expectsValue then .ok ⟨.array [] :: r.stack, .valueOrClose, .between⟩
  else if p = '\x7b' ∧ r.expectsValue then .ok ⟨.object [] :: r.stack, .nameOrClose, .between⟩
  else if (p = ']' ∨ p = '\x7d') ∧ r.mayClose then r.close p
  else if p = ',' then
    match r.expectation, r.stack with
    | .separator, .array _ :: _ => .ok { r with expectation := .value }
    | .separator, .object _ :: _ => .ok { r with expectation := .name }
    | _, _ => .error .malformed
  else if p = ':' then
    match r.expectation with
    | .colon => .ok { r with expectation := .value }
    | _ => .error .malformed
  else if !r.expectsValue then .error .malformed
  else if p = '-' then .ok { r with mode := .number [p] .sign }
  else if p = '0' then .ok { r with mode := .number [p] .zero }
  else if p.digit?.isSome then .ok { r with mode := .number [p] .whole }
  else match p with
    | .scalar c => if c.isAlpha then .ok { r with mode := .word [p] } else .error .malformed
    | .surrogate _ => .error .malformed

/-- The character that a short escape stands for. -/
def shortEscape? (p : CodePoint) : Option Char :=
  match p with
  | .scalar '"' => some '"'
  | .scalar '\\' => some '\\'
  | .scalar '/' => some '/'
  | .scalar 'b' => some '\x08'
  | .scalar 'f' => some '\x0c'
  | .scalar 'n' => some '\n'
  | .scalar 'r' => some '\r'
  | .scalar 't' => some '\t'
  | _ => none

/-- Adds the code unit of an escape to a string that is given last code point first. A low surrogate
joins the high surrogate right before it. -/
def pushUnit (unit : Nat) (read : Text) : Text :=
  match CodePoint.ofNat? unit, read with
  | some (.surrogate low), .surrogate high :: rest =>
    if high.val < 0x400 ∧ 0x400 ≤ low.val then
      match CodePoint.ofNat? (0x10000 + high.val * 0x400 + (low.val - 0x400)) with
      | some joined => joined :: rest
      | none => .surrogate low :: read
    else .surrogate low :: read
  | some p, read => p :: read
  | none, read => read

/-- Reads one character. -/
def step (r : Reader) (p : CodePoint) : Except ReadFault Reader :=
  match r.mode with
  | .between => r.begin p
  | .string read =>
    if p = '"' then .ok (r.acceptString read.reverse)
    else if p = '\\' then .ok { r with mode := .escape read }
    else if p.toNat < 0x20 then .error .malformed
    else .ok { r with mode := .string (p :: read) }
  | .escape read =>
    if p = 'u' then .ok { r with mode := .unicode read 0 4 }
    else match shortEscape? p with
      | some c => .ok { r with mode := .string (c :: read) }
      | none => .error .malformed
  | .unicode read value missing =>
    match p.hexDigit? with
    | none => .error .malformed
    | some d =>
      let value := value * 16 + d
      if missing = 1 then .ok { r with mode := .string (pushUnit value read) }
      else .ok { r with mode := .unicode read value (missing - 1) }
  | .number read part =>
    match part.next? p with
    | some next => .ok { r with mode := .number (p :: read) next }
    | none =>
      if part = .sign ∧ p = 'I' then .ok { r with mode := .word (p :: read) }
      else do (← r.endToken).begin p
  | .word read =>
    match p with
    | .scalar c =>
      if c.isAlpha then .ok { r with mode := .word (p :: read) } else do (← r.endToken).begin p
    | .surrogate _ => .error .malformed

/-- The document, when the text is at its end. -/
def finish (r : Reader) : Except ReadFault Json := do
  let r ← match r.mode with
    | .between | .number .. | .word .. => r.endToken
    | _ => .error .malformed
  match r.expectation with
  | .nothing document => .ok document
  | _ => .error .malformed

end Reader

/-- Reads a JSON document. -/
def read (t : Text) : Except ReadFault Json := do
  (← t.foldlM Reader.step Reader.start).finish

end ApiTrace.Json
