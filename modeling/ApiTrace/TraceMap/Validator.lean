import ApiTrace.Json.Basic

/-!
# Validators

A document is checked against declared types. What the types are is said here, and so is what it
takes to check a value: a `Validator` tells everything that is wrong with a value as one of a type,
and how a boolean is read. How it does so is left to it. A value without violations is used as it
stands, with its booleans as they are read.
-/

namespace ApiTrace

namespace Document

/-- How a value breaks the form of a document. -/
inductive ViolationKind where
  /-- The roots or the properties of a node are no object. -/
  | notAnObject
  /-- A node is no object. -/
  | notANode
  /-- A node has a member with an unknown name. -/
  | unknownMember
  /-- The value of a flag reads like a flag and is neither true nor false. -/
  | unreadableFlag
  /-- The value of a flag is nothing like a flag. -/
  | notAFlag
  /-- A text that has to be read holds surrogates. -/
  | unreadableText
  /-- A node lies in too many others. -/
  | tooDeep
deriving DecidableEq

/-- A value that breaks the form: the member names that lead to it, and how it does. -/
structure Violation where
  place : List Text
  kind : ViolationKind
deriving DecidableEq

/-- A violation in a member of a value, as one of the value. -/
def Violation.under (name : Text) (v : Violation) : Violation := ⟨name :: v.place, v.kind⟩

end Document

/-- The types that values are declared to have. -/
inductive ValueType where
  | any
  | boolean
  /-- An object with the fields that are declared for records. -/
  | record
  /-- An object whose members all have a type. -/
  | dictionary (members : ValueType)

/-- The declaration of records: their fields, in order, and whether other members are forbidden. -/
structure RecordType where
  fields : List (Text × ValueType)
  isClosed : Bool

/-- The type of a field. -/
def RecordType.type? (r : RecordType) (name : Text) : Option ValueType := r.fields.lookup name

/-- Checks values against declared types. -/
class Validator where
  /-- Reads a boolean, which may be spelled in several ways. -/
  boolean : Json → Except Document.ViolationKind Bool
  /-- All that is wrong with a value as one of a type, in order. Places are given from the value
  on. -/
  violations (records : RecordType) (type : ValueType) (value : Json) : List Document.Violation

end ApiTrace
