import ApiTrace.Concrete
import ApiTrace.Json.Basic

/-!
# Concrete trees in JSON

A concrete tree can be stored as JSON. A node is an array of its kind, whether it is named, the
offsets of its first byte and of the byte after it, its row and its column, its field name and its
children. Rows are counted from zero.
-/

namespace ApiTrace

namespace Json

/-- A natural number. -/
def nat? : Json → Option Nat
  | .int n => n.toNat?
  | _ => none

/-- A text without surrogates. -/
def string? : Json → Option String
  | .string t => t.toString?
  | _ => none

/-- A truth value, which may be written as a number. -/
def truth? : Json → Option Bool
  | .bool b => some b
  | .int n => some (n ≠ 0)
  | _ => none

end Json

namespace Concrete

mutual

/-- The node that a JSON value stores. -/
def ofJson? : Json → Option Concrete
  | .array [kind, named, start, stop, row, column, field, .array children] => do
    let head : Head := {
      kind := ← kind.string?
      named := ← named.truth?
      span := ⟨← start.nat?, ← stop.nat?, (← row.nat?) + 1, ← column.nat?⟩
      field := field.string? }
    return .mk head (← ofJsons? children)
  | _ => none

/-- The nodes that some JSON values store. -/
def ofJsons? : List Json → Option (List Concrete)
  | [] => some []
  | v :: vs => do return (← ofJson? v) :: (← ofJsons? vs)

end

end Concrete

namespace ConcreteTree

/-- The tree that a JSON value stores: an object with the root and whether there are syntax
errors. -/
def ofJson? (v : Json) : Option ConcreteTree := do
  let root ← v.member? "root"
  let hasError ← v.member? "has_error"
  return ⟨← Concrete.ofJson? root, ← hasError.truth?⟩

/-- The tree of a source without statements. -/
def empty : ConcreteTree := ⟨.mk ⟨"program", true, ⟨0, 0, 1, 0⟩, none⟩ [], false⟩

end ConcreteTree

end ApiTrace
