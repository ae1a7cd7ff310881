import ApiTrace.Json.Basic
import ApiTrace.Number.Shortest
import ApiTrace.Text.Quoted

/-!
# Writing JSON

`Json.compact` writes a value on one line and `Json.indented` with one item a line; both use ASCII
characters only, so a code point above `U+FFFF` is written as its pair of surrogates. `Json.shown`
is the form in which messages show a value.
-/

namespace ApiTrace.Json

/-! ### Strings -/

/-- An escape of four hexadecimal digits. -/
def unicodeEscape (n : Nat) : List Char := '\\' :: 'u' :: Text.hexPadded 4 n

/-- A code point inside a JSON string. -/
def escapedPoint (p : CodePoint) : List Char :=
  match p with
  | .scalar '"' => ['\\', '"']
  | .scalar '\\' => ['\\', '\\']
  | .scalar '\n' => ['\\', 'n']
  | .scalar '\r' => ['\\', 'r']
  | .scalar '\t' => ['\\', 't']
  | .scalar '\x08' => ['\\', 'b']
  | .scalar '\x0c' => ['\\', 'f']
  | .scalar c =>
    let n := c.toNat
    if 0x20 ≤ n ∧ n ≤ 0x7E then [c]
    else if n < 0x10000 then unicodeEscape n
    else unicodeEscape (0xD800 + (n - 0x10000) / 0x400) ++ unicodeEscape (0xDC00 + n % 0x400)
  | .surrogate s => unicodeEscape (0xD800 + s.val)

/-- A JSON string. -/
def stringLiteral (t : Text) : String := String.ofList ('"' :: t.flatMap escapedPoint ++ ['"'])

/-- The words for the numbers that JSON itself does not have. -/
def floatLayout : Binary64.Layout :=
  { Binary64.Layout.standard with nan := "NaN", infinity := "Infinity" }

/-- A value that is neither array nor object. -/
def atom : Json → String
  | .null => "null"
  | .bool b => if b then "true" else "false"
  | .int n => toString n
  | .float x => x.write floatLayout
  | .string t => stringLiteral t
  | .array _ => "[]"
  | .object _ => "\x7b\x7d"

/-! ### On one line -/

mutual

/-- A value on one line. -/
def compact : Json → String
  | .array items => "[" ++ compactItems items ++ "]"
  | .object members => "\x7b" ++ compactMembers members ++ "\x7d"
  | .null => atom .null
  | .bool b => atom (.bool b)
  | .int n => atom (.int n)
  | .float x => atom (.float x)
  | .string t => atom (.string t)

/-- The items of an array on one line. -/
def compactItems : List Json → String
  | [] => ""
  | [v] => compact v
  | v :: w :: vs => compact v ++ ", " ++ compactItems (w :: vs)

/-- The members of an object on one line. -/
def compactMembers : List (Text × Json) → String
  | [] => ""
  | [(name, v)] => stringLiteral name ++ ": " ++ compact v
  | (name, v) :: w :: vs =>
    stringLiteral name ++ ": " ++ compact v ++ ", " ++ compactMembers (w :: vs)

end

/-! ### One item a line -/

/-- A line break and the indentation of a depth: two blanks a level. -/
def newline (depth : Nat) : String := String.ofList ('\n' :: List.replicate (2 * depth) ' ')

mutual

/-- A value with one item a line, inside `depth` arrays and objects. -/
def indentedAt (depth : Nat) : Json → String
  | .array [] => atom (.array [])
  | .object [] => atom (.object [])
  | .array items => "[" ++ indentedItems (depth + 1) items ++ newline depth ++ "]"
  | .object members => "\x7b" ++ indentedMembers (depth + 1) members ++ newline depth ++ "\x7d"
  | .null => atom .null
  | .bool b => atom (.bool b)
  | .int n => atom (.int n)
  | .float x => atom (.float x)
  | .string t => atom (.string t)

/-- The items of an array, each on a line of its own. -/
def indentedItems (depth : Nat) : List Json → String
  | [] => ""
  | [v] => newline depth ++ indentedAt depth v
  | v :: w :: vs => newline depth ++ indentedAt depth v ++ "," ++ indentedItems depth (w :: vs)

/-- The members of an object, each on a line of its own. -/
def indentedMembers (depth : Nat) : List (Text × Json) → String
  | [] => ""
  | [(name, v)] => newline depth ++ stringLiteral name ++ ": " ++ indentedAt depth v
  | (name, v) :: w :: vs =>
    newline depth ++ stringLiteral name ++ ": " ++ indentedAt depth v ++ ","
      ++ indentedMembers depth (w :: vs)

end

/-- A value with one item a line. -/
def indented (v : Json) : String := indentedAt 0 v

/-! ### In messages -/

mutual

/-- A value as messages show it. -/
def shown : Json → String
  | .null => "None"
  | .bool b => if b then "True" else "False"
  | .int n => toString n
  | .float x => x.toString
  | .string t => Text.quoted t
  | .array items => "[" ++ shownItems items ++ "]"
  | .object members => "\x7b" ++ shownMembers members ++ "\x7d"

/-- The items of an array as messages show them. -/
def shownItems : List Json → String
  | [] => ""
  | [v] => shown v
  | v :: w :: vs => shown v ++ ", " ++ shownItems (w :: vs)

/-- The members of an object as messages show them. -/
def shownMembers : List (Text × Json) → String
  | [] => ""
  | [(name, v)] => Text.quoted name ++ ": " ++ shown v
  | (name, v) :: w :: vs => Text.quoted name ++ ": " ++ shown v ++ ", " ++ shownMembers (w :: vs)

end

end ApiTrace.Json
