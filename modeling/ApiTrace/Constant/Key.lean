import ApiTrace.Constant.Folding

/-!
# Property keys

The name of the property that a member access, a property or a member of a class is about, where it
is known from the source.
-/

namespace ApiTrace

/-- The constant text of an optional expression. -/
def optionConstantText? (joins : Bool) : Option Node → Except ConstantFault (Option Text)
  | none => .ok none
  | some n => n.constantText? joins

/-- The name of a property that is written without brackets: a literal or a name. -/
def writtenKey? (joins : Bool) : Option Node → Except ConstantFault (Option Text)
  | none => .ok none
  | some key =>
    match key.form with
    | .literal .. => key.constantText? joins
    | .identifier name => .ok (some name)
    | .other name _ =>
      if name = Text.ofString "Literal" ∨ name = Text.ofString "Identifier" then .error .missingPart
      else .ok none
    | _ => .ok none

/-- The name after the dot of a member access. A private name names no property. -/
def dottedKey? : Option Node → Except ConstantFault (Option Text)
  | none => .ok none
  | some property =>
    match property.form with
    | .identifier name | .jsxIdentifier name => .ok (some name)
    | .privateIdentifier _ => .ok none
    | form =>
      if form.name = Text.ofString "PrivateIdentifier" then .ok none else .error .missingPart

/-- The names of forms that cannot be asked for a key without parts of their own. -/
def keyedNames : List Text :=
  ["MemberExpression", "Property", "MethodDefinition", "PropertyDefinition"].map Text.ofString

/-- The name of the property that a node is about. -/
def Form.key? (joins : Bool) : Form → Except ConstantFault (Option Text)
  | .member _ key computed _ =>
    if computed then optionConstantText? joins key else dottedKey? key
  | .property key _ computed .. | .method key computed .. | .field key computed .. =>
    if computed then optionConstantText? joins key else writtenKey? joins key
  | .other name _ => if name ∈ keyedNames then .error .missingPart else .ok none
  | _ => .ok none

/-- The name of the property that a node is about. -/
def Node.key? (joins : Bool) (n : Node) : Except ConstantFault (Option Text) := n.form.key? joins

end ApiTrace
