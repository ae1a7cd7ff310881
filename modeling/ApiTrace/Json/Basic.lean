import ApiTrace.Number.Binary64
import ApiTrace.Text.CodePoint

/-!
# JSON values

Values of a JSON document. Integers and floating point numbers are kept apart, and the members of an
object stand in the order in which their names first appear.
-/

namespace ApiTrace

/-- A JSON value. -/
inductive Json where
  | null
  | bool (b : Bool)
  | int (n : Int)
  | float (x : Binary64)
  | string (t : Text)
  | array (items : List Json)
  | object (members : List (Text × Json))

namespace Json

instance : Inhabited Json := ⟨.null⟩

/-- Puts a member into an object: a name that is there already keeps its place and gets the new
value. -/
def setMember {α : Type} (name : Text) (value : α) : List (Text × α) → List (Text × α)
  | [] => [(name, value)]
  | (other, old) :: rest =>
    if other = name then (other, value) :: rest else (other, old) :: setMember name value rest

/-- The member of an object with a given name. -/
def member? (name : Text) : Json → Option Json
  | .object members => members.lookup name
  | _ => none

/-- Whether a value is `null`. -/
def isNull : Json → Bool
  | .null => true
  | _ => false

end Json

end ApiTrace
