import ApiTrace.TraceMap.Validator

/-!
# A validator

`Checker` is the validator that the program runs with. It looks at everything in a value, but it has
limits: a record that lies in 254 others or more is not looked into, and neither is a record with a
member name that holds surrogates. The limits are parameters (`Checker.Limits`), so that the
validator without limits is an instance of the same definition.
-/

namespace ApiTrace

open Document

namespace Checker

/-! ### Booleans -/

/-- The words that stand for true. -/
def trueWords : List Text := ["1", "on", "t", "true", "y", "yes"].map Text.ofString

/-- The words that stand for false. -/
def falseWords : List Text := ["0", "off", "f", "false", "n", "no"].map Text.ofString

/-- The number of integers of 64 bits that are not negative. -/
def wordRange : Int := 0x8000000000000000

/-- Reads a flag that is a number. -/
def intFlag (n : Int) : Except ViolationKind Bool :=
  if n = 0 then .ok false else if n = 1 then .ok true else .error .unreadableFlag

/-- Reads a flag: a boolean, zero or one, or one of the words for true and false. A number that is
no integer of 64 bits is nothing like a flag, and neither is the least of them as a floating point
number. -/
def flag : Json → Except ViolationKind Bool
  | .bool b => .ok b
  | .int n => if -wordRange ≤ n ∧ n < wordRange then intFlag n else .error .notAFlag
  | .float x =>
    match x.toInt? with
    | some n => if -wordRange < n ∧ n < wordRange then intFlag n else .error .notAFlag
    | none => .error .notAFlag
  | .string t =>
    if t.any CodePoint.isSurrogate then .error .unreadableText
    else if t.asciiLower ∈ trueWords then .ok true
    else if t.asciiLower ∈ falseWords then .ok false
    else .error .unreadableFlag
  | .null | .array _ | .object _ => .error .notAFlag

/-! ### Limits -/

/-- What a checker cannot do. -/
structure Limits where
  /-- In how many records a record is too deep, if that can be. -/
  depth : Option Nat
  /-- The member names that cannot be read. -/
  refuses : Text → Bool
  /-- A member name as it is shown in a place. -/
  shown : Text → Text

namespace Limits

/-- No limits. -/
def none : Limits := ⟨.none, fun _ => false, id⟩

/-- The limits inside a record. -/
def inside (l : Limits) : Limits := { l with depth := l.depth.map (· - 1) }

/-- The limits of the program. A surrogate in a name is shown as three replacement characters, one
for each of the bytes that would spell it. -/
def usual : Limits where
  depth := some 254
  refuses := (·.any CodePoint.isSurrogate)
  shown name := name.flatMap fun
    | .scalar c => [.scalar c]
    | .surrogate _ => Text.ofString "\uFFFD\uFFFD\uFFFD"

end Limits

/-! ### Values -/

mutual

/-- What is wrong with a value as one of a type. Nothing in a record that is too deep is looked at.
If a member name of a record cannot be read, that is all that is said of the record. -/
def check (r : RecordType) (l : Limits) : ValueType → Json → List Violation
  | .any, _ => []
  | .boolean, v =>
    match flag v with
    | .ok _ => []
    | .error kind => [⟨[], kind⟩]
  | .dictionary type, .object members => checkAll r l type members
  | .dictionary _, _ => [⟨[], .notAnObject⟩]
  | .record, .object members =>
    if l.depth = some 0 then [⟨[], .tooDeep⟩]
    else if members.any fun p => l.refuses p.1 then [⟨[], .unreadableText⟩]
    else
      (r.fields.flatMap fun f => (checkField r l.inside f.2 f.1 members).map (·.under f.1))
        ++ if r.isClosed then
          (members.filter fun p => (r.type? p.1).isNone).map fun p =>
            ⟨[l.shown p.1], .unknownMember⟩
        else []
  | .record, _ => [⟨[], if l.depth = some 0 then .tooDeep else .notANode⟩]

/-- What is wrong with members that all have one type. -/
def checkAll (r : RecordType) (l : Limits) (type : ValueType) : List (Text × Json) → List Violation
  | [] => []
  | (name, value) :: rest =>
    (check r l type value).map (·.under (l.shown name)) ++ checkAll r l type rest

/-- What is wrong with the member of a name, if it is there. -/
def checkField (r : RecordType) (l : Limits) (type : ValueType) (name : Text) :
    List (Text × Json) → List Violation
  | [] => []
  | (other, value) :: rest =>
    if other = name then check r l type value else checkField r l type name rest

end

/-- The validator with some limits. -/
@[reducible] def validator (l : Limits) : Validator where
  boolean := flag
  violations r := check r l

end Checker

/-- The program checks documents within the usual limits. -/
instance : Validator := Checker.validator .usual

end ApiTrace
