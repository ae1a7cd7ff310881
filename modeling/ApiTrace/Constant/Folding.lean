import ApiTrace.Constant.Basic
import ApiTrace.Syntax.Node

/-!
# Constant expressions

The constant value of an expression, if it has one. Literals are constants, and so are templates all
of whose expressions are, signed numbers, and sums. Names never are, not even names of constants.
Whether texts are joined, by `+` or in a template, is up to the caller.
-/

namespace ApiTrace

/-- The constant that a literal stands for. A regular expression stands for its source text. -/
def Constant.ofLiteral : Literal → Constant
  | .string value => .string value
  | .number value => .number value
  | .boolean value => .boolean value
  | .null => .null
  | .bigint value => .number (.int value)
  | .regex pattern flags => .string ("/" ++ pattern ++ "/" ++ flags)

/-- The text of a piece of a template. -/
def Node.pieceText (n : Node) : Except ConstantFault Text :=
  match n.form with
  | .templateElement value => .ok value
  | _ => .error .missingPart

/-- The names of forms that cannot be asked for a value without parts of their own. -/
def Constant.partedNames : List Text :=
  ["Literal", "TemplateLiteral", "UnaryExpression", "BinaryExpression"].map Text.ofString

/-- A signed number. Nothing else has a sign. -/
def Constant.signed (negative : Bool) : Constant → Option Constant
  | .number n => some (.number (if negative then negNumber n else n))
  | _ => none

mutual

/-- The constant value of an expression, where `joins` says whether texts are joined. -/
def Node.constant? (joins : Bool) : Node → Except ConstantFault (Option Constant)
  | .mk _ form => form.constant? joins

/-- The constant value of a form. -/
def Form.constant? (joins : Bool) : Form → Except ConstantFault (Option Constant)
  | .literal value _ => .ok (some (.ofLiteral value))
  | .template quasis expressions =>
    if !expressions.isEmpty && !joins then .ok none
    else match quasis with
      | [] => .error .missingPart
      | first :: rest => do
        let start ← first.pieceText
        let rest ← Form.templateRest joins expressions rest
        return rest.map fun t => .string (start ++ t)
  | .unary operator argument =>
    if operator = Text.ofString "-" ∨ operator = Text.ofString "+" then do
      let value ← Form.operand joins argument
      return value.bind (Constant.signed (operator = Text.ofString "-"))
    else .ok none
  | .binary left operator right =>
    if operator = Text.ofString "+" ∧ joins then do
      match ← Form.operand joins left with
      | none => return none
      | some a =>
        match ← Form.operand joins right with
        | none => return none
        | some b => a.plus b
    else .ok none
  | .other name _ => if name ∈ Constant.partedNames then .error .missingPart else .ok none
  | _ => .ok none

/-- The constant value of an operand, which must be there. -/
def Form.operand (joins : Bool) : Option Node → Except ConstantFault (Option Constant)
  | none => .error .missingPart
  | some n => n.constant? joins

/-- The text of a template after its first piece: expressions and pieces in turn. -/
def Form.templateRest (joins : Bool) : List (Option Node) → List Node →
    Except ConstantFault (Option Text)
  | expression :: expressions, piece :: pieces => do
    match ← Form.operand joins expression with
    | none => return none
    | some value =>
      let t ← value.toText
      let p ← piece.pieceText
      return (← Form.templateRest joins expressions pieces).map (t ++ p ++ ·)
  | _, _ => .ok (some [])

end

/-- The text that an expression always has when it is used as a property name. -/
def Node.constantText? (joins : Bool) (n : Node) : Except ConstantFault (Option Text) := do
  match ← n.constant? joins with
  | none => return none
  | some value => return some (← value.toText)

end ApiTrace
