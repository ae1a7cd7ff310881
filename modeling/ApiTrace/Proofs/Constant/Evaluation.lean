import ApiTrace.Constant.Folding
import ApiTrace.Proofs.Number.Exact
import ApiTrace.Proofs.Reading.Shape

/-!
# What expressions come to when the program runs

Literals, templates, signs and sums are evaluated by the rules of the language (`Node.evaluate`):
operands from left to right, each substitution of a template turned into a string before the next is
looked at, a sum of strings if one summand is a string and otherwise of two numbers or of two big
integers. Strings are sequences of code units of sixteen bits.

Everything else (names, calls, other operators, what objects are turned into, how a number with a
fraction is written) is left to a `World`, so that what is said of all worlds is said of all
programs around an expression.
-/

namespace ApiTrace

/-! ## Code units -/

/-- The code units of a code point: one, or a pair of surrogates beyond `U+FFFF`. -/
def CodePoint.units : CodePoint → List UInt16
  | .scalar c =>
    if c.toNat < 0x10000 then [UInt16.ofNat c.toNat]
    else
      let rest := c.toNat - 0x10000
      [UInt16.ofNat (0xD800 + rest / 0x400), UInt16.ofNat (0xDC00 + rest % 0x400)]
  | .surrogate offset => [UInt16.ofNat (0xD800 + offset.val)]

/-- The code units of a text. A surrogate pair and the code point that it spells have the same. -/
def Text.units (t : Text) : List UInt16 := t.flatMap CodePoint.units

theorem Text.units_append (s t : Text) : (s ++ t).units = s.units ++ t.units := List.flatMap_append

/-! ## Values -/

/-- A value that is no object. -/
inductive Primitive where
  | undefined
  | null
  | boolean (value : Bool)
  | number (value : Binary64)
  | bigint (value : Int)
  | string (units : List UInt16)
  | symbol (id : Nat)

/-- What an expression comes to. -/
inductive ScriptValue where
  | primitive (value : Primitive)
  | object (id : Nat)

/-- What an evaluation ends with if it does not complete normally. -/
inductive Thrown where
  | typeError
  | other

/-- What an object is asked for when it is turned into a primitive value. -/
inductive Hint where
  | any
  | number
  | string

/-- What the rules for literals, templates, signs and sums leave open. An object may answer
otherwise each time it is asked, so the expression that it is the value of is given too. -/
structure World where
  /-- What an expression of another kind comes to. -/
  other : Node → Except Thrown ScriptValue
  /-- The primitive value that an object is turned into. -/
  convert : Node → Hint → Nat → Except Thrown Primitive
  /-- How a number is written that is not a small integer. -/
  written : Binary64 → List UInt16
  /-- The number that a string is turned into. -/
  numberOf : List UInt16 → Binary64

/-- A number or a big integer. -/
inductive Numeric where
  | number (value : Binary64)
  | bigint (value : Int)

namespace World

variable (w : World)

/-- The primitive value of the value of an expression. -/
def toPrimitive (place : Node) (hint : Hint) : ScriptValue → Except Thrown Primitive
  | .primitive value => .ok value
  | .object id => w.convert place hint id

/-- How a number is written: an integer below `2 ^ 53` with its decimal digits. -/
def numberUnits (x : Binary64) : List UInt16 :=
  match x.toInt? with
  | some n => if n.natAbs < Binary64.exactLimit then (Text.ofInt n).units else w.written x
  | none => w.written x

/-- The string of a primitive value. A symbol has none. -/
def units : Primitive → Except Thrown (List UInt16)
  | .undefined => .ok (Text.ofString "undefined").units
  | .null => .ok (Text.ofString "null").units
  | .boolean true => .ok (Text.ofString "true").units
  | .boolean false => .ok (Text.ofString "false").units
  | .number x => .ok (w.numberUnits x)
  | .bigint n => .ok (Text.ofInt n).units
  | .string units => .ok units
  | .symbol _ => .error .typeError

/-- The string of the value of an expression. -/
def stringOf (place : Node) (v : ScriptValue) : Except Thrown (List UInt16) := do
  w.units (← w.toPrimitive place .string v)

/-- The number or big integer of a primitive value. -/
def numeric : Primitive → Except Thrown Numeric
  | .undefined => .ok (.number .nan)
  | .null => .ok (.number (.ofInt 0))
  | .boolean true => .ok (.number (.ofInt 1))
  | .boolean false => .ok (.number (.ofInt 0))
  | .number x => .ok (.number x)
  | .bigint n => .ok (.bigint n)
  | .string units => .ok (.number (w.numberOf units))
  | .symbol _ => .error .typeError

/-- The sum of two primitive values. A number and a big integer have none. -/
def sum : Primitive → Primitive → Except Thrown Primitive
  | .string s, b => do return .string (s ++ (← w.units b))
  | a, .string t => do return .string ((← w.units a) ++ t)
  | a, b => do
    match ← w.numeric a, ← w.numeric b with
    | .number x, .number y => return .number (x + y)
    | .bigint m, .bigint n => return .bigint (m + n)
    | _, _ => .error .typeError

/-- A primitive value with a sign in front. A big integer cannot have a `+`. -/
def signed (negative : Bool) (value : Primitive) : Except Thrown Primitive := do
  match ← w.numeric value with
  | .number x => return .number (if negative then -x else x)
  | .bigint n => if negative then return .bigint (-n) else .error .typeError

end World

/-! ## Evaluation -/

/-- The value of a literal, if it is no regular expression. -/
def Literal.primitive? : Literal → Option Primitive
  | .string value => some (.string value.units)
  | .number (.int n) => some (.number (.ofInt n))
  | .number (.float x) => some (.number x)
  | .boolean value => some (.boolean value)
  | .null => some .null
  | .bigint value => some (.bigint value)
  | .regex .. => none

/-- The code units of a piece of a template. -/
def Node.pieceUnits (n : Node) : List UInt16 :=
  match n.form with
  | .templateElement value => value.units
  | _ => []

mutual

/-- What an expression comes to. -/
def Node.evaluate (w : World) : Node → Except Thrown ScriptValue
  | .mk span form => form.evaluate w (.mk span form)

/-- What a form comes to at its place. -/
def Form.evaluate (w : World) (place : Node) : Form → Except Thrown ScriptValue
  | .literal value _ =>
    match value.primitive? with
    | some value => .ok (.primitive value)
    | none => w.other place
  | .template (first :: pieces) expressions => do
    return .primitive (.string (first.pieceUnits ++ (← Form.templateUnits w expressions pieces)))
  | .unary operator (some argument) =>
    if operator = Text.ofString "-" ∨ operator = Text.ofString "+" then do
      let v ← argument.evaluate w
      let value ← w.toPrimitive argument .number v
      return .primitive (← w.signed (operator = Text.ofString "-") value)
    else w.other place
  | .binary (some left) operator (some right) =>
    if operator = Text.ofString "+" then do
      let u ← left.evaluate w
      let v ← right.evaluate w
      let a ← w.toPrimitive left .any u
      let b ← w.toPrimitive right .any v
      return .primitive (← w.sum a b)
    else w.other place
  | _ => w.other place

/-- The code units of a template after its first piece. -/
def Form.templateUnits (w : World) : List (Option Node) → List Node → Except Thrown (List UInt16)
  | some expression :: expressions, piece :: pieces => do
    let v ← expression.evaluate w
    let units ← w.stringOf expression v
    return units ++ piece.pieceUnits ++ (← Form.templateUnits w expressions pieces)
  | _, _ => .ok []

end

/-- An expression comes to a value that has a string. -/
def Node.Converts (w : World) (n : Node) : Prop :=
  ∃ v units, n.evaluate w = .ok v ∧ w.stringOf n v = .ok units

/-- A value that arises while an expression is evaluated: what it comes to itself, and what those of
its operands come to that are reached. -/
inductive Node.Arises (w : World) : Node → ScriptValue → Prop where
  | result {n : Node} {v : ScriptValue} (h : n.evaluate w = .ok v) : Node.Arises w n v
  | argument {span : Span} {operator : Text} {n : Node} {v : ScriptValue}
      (hsign : operator = Text.ofString "-" ∨ operator = Text.ofString "+") (h : n.Arises w v) :
      Node.Arises w (.mk span (.unary operator (some n))) v
  | left {span : Span} {left : Node} {right : Option Node} {v : ScriptValue} (h : left.Arises w v) :
      Node.Arises w (.mk span (.binary (some left) (Text.ofString "+") right)) v
  | right {span : Span} {left right : Node} {u v : ScriptValue} (hleft : left.evaluate w = .ok u)
      (h : right.Arises w v) :
      Node.Arises w (.mk span (.binary (some left) (Text.ofString "+") (some right))) v
  | substitution {span : Span} {quasis before after : List Node} {n : Node} {v : ScriptValue}
      (hbefore : ∀ m ∈ before, m.Converts w) (h : n.Arises w v) :
      Node.Arises w (.mk span (.template quasis ((before ++ n :: after).map some))) v

/-- A number that is an integer below `2 ^ 53`, a big integer that can be written, or a value of
another kind. -/
def ScriptValue.InRange : ScriptValue → Prop
  | .primitive (.number x) => ∃ n, x.toInt? = some n ∧ n.natAbs < Binary64.exactLimit
  | .primitive (.bigint n) => n.natAbs < Nat.pow 10 Numeral.digitLimit
  | _ => True

/-- Whether a primitive value is a string. -/
def Primitive.isString : Primitive → Bool
  | .string _ => true
  | _ => false

/-- Whether a primitive value is a number or a big integer. -/
def Primitive.isNumeric : Primitive → Bool
  | .number _ | .bigint _ => true
  | _ => false

/-- Somewhere in an expression an operand is turned into a number: a sign stands before a value that
is none, or a value that is none is added to one that is no string. -/
inductive Node.Coerces (w : World) : Node → Prop where
  | sign {span : Span} {operator : Text} {n : Node} {a : Primitive}
      (hsign : operator = Text.ofString "-" ∨ operator = Text.ofString "+")
      (hvalue : n.evaluate w = .ok (.primitive a)) (h : a.isNumeric = false) :
      Node.Coerces w (.mk span (.unary operator (some n)))
  | summand {span : Span} {left right : Node} {a b : Primitive}
      (hleft : left.evaluate w = .ok (.primitive a))
      (hright : right.evaluate w = .ok (.primitive b))
      (hstring : a.isString = false ∧ b.isString = false) (h : a.isNumeric = false ∨
        b.isNumeric = false) :
      Node.Coerces w (.mk span (.binary (some left) (Text.ofString "+") (some right)))
  | argument {span : Span} {operator : Text} {n : Node}
      (hsign : operator = Text.ofString "-" ∨ operator = Text.ofString "+") (h : n.Coerces w) :
      Node.Coerces w (.mk span (.unary operator (some n)))
  | left {span : Span} {left : Node} {right : Option Node} (h : left.Coerces w) :
      Node.Coerces w (.mk span (.binary (some left) (Text.ofString "+") right))
  | right {span : Span} {left : Option Node} {right : Node} (h : right.Coerces w) :
      Node.Coerces w (.mk span (.binary left (Text.ofString "+") (some right)))
  | substitution {span : Span} {quasis : List Node} {expressions : List (Option Node)} {n : Node}
      (hn : some n ∈ expressions) (h : n.Coerces w) :
      Node.Coerces w (.mk span (.template quasis expressions))

/-! ## Composed expressions -/

/-- Whether a form is neither a literal, a template, a sign nor a sum. -/
def Form.isOther : Form → Bool
  | .literal .. | .template .. => false
  | .unary operator _ => operator ≠ Text.ofString "-" ∧ operator ≠ Text.ofString "+"
  | .binary _ operator _ => operator ≠ Text.ofString "+"
  | .other name _ => name ∉ Constant.partedNames
  | _ => true

/-- An expression that is put together of literals and of other expressions, as leaves, by
templates, signs and sums. A regular expression is no such leaf. -/
inductive Node.Composed : Node → Prop where
  | literal {span : Span} {value : Literal} {raw : Text} (h : value.primitive?.isSome = true) :
      Node.Composed (.mk span (.literal value raw))
  | other {span : Span} {form : Form} (h : form.isOther = true) : Node.Composed (.mk span form)
  | signed {span : Span} {operator : Text} {n : Node}
      (hsign : operator = Text.ofString "-" ∨ operator = Text.ofString "+") (h : n.Composed) :
      Node.Composed (.mk span (.unary operator (some n)))
  | sum {span : Span} {left right : Node} (hleft : left.Composed) (hright : right.Composed) :
      Node.Composed (.mk span (.binary (some left) (Text.ofString "+") (some right)))
  | template {span : Span} {quasis expressions : List Node}
      (hquasis : ∀ q ∈ quasis, q.isTemplateElement = true)
      (hlength : quasis.length = expressions.length + 1) (h : ∀ n ∈ expressions, n.Composed) :
      Node.Composed (.mk span (.template quasis (expressions.map some)))

/-- An expression with a leaf that is no literal. -/
inductive Node.HasOtherLeaf : Node → Prop where
  | leaf {span : Span} {form : Form} (h : form.isOther = true) : Node.HasOtherLeaf (.mk span form)
  | argument {span : Span} {operator : Text} {n : Node}
      (hsign : operator = Text.ofString "-" ∨ operator = Text.ofString "+") (h : n.HasOtherLeaf) :
      Node.HasOtherLeaf (.mk span (.unary operator (some n)))
  | left {span : Span} {left : Node} {right : Option Node} (h : left.HasOtherLeaf) :
      Node.HasOtherLeaf (.mk span (.binary (some left) (Text.ofString "+") right))
  | right {span : Span} {left : Option Node} {right : Node} (h : right.HasOtherLeaf) :
      Node.HasOtherLeaf (.mk span (.binary left (Text.ofString "+") (some right)))
  | substitution {span : Span} {quasis : List Node} {expressions : List (Option Node)} {n : Node}
      (hn : some n ∈ expressions) (h : n.HasOtherLeaf) :
      Node.HasOtherLeaf (.mk span (.template quasis expressions))

end ApiTrace
