import ApiTrace.Constant.Key
import ApiTrace.Trace.Match

/-!
# Flow of values

Where a traced value goes from the place where it stands. `Tracer.climb` goes up from a node to the
expression that uses its value: a member access leads to a property of the value, a call or a
construction is a use, and an assignment, a default value or a declaration leads into the pattern on
its other side. `Tracer.bind` goes down that pattern to the variables that receive the value or its
properties, and `Tracer.enter` goes from a variable to everywhere it is read.

A variable that is being followed is not entered again, so alias cycles end.
-/

namespace ApiTrace

/-- What tracing looks at: the scopes of a program, and whether texts are joined to find the name of
a property. -/
structure Tracer where
  graph : ScopeGraph
  joins : Bool

/-! ### Where a climb ends -/

/-- The names of the forms, besides statements and declarations, above which a value is not looked
for. -/
def boundaryNames : List Text :=
  ["ArrayExpression", "ArrowFunctionExpression", "AssignmentExpression", "CallExpression",
    "ClassExpression", "FunctionExpression", "MemberExpression", "NewExpression",
    "ObjectExpression", "AssignmentPattern", "Program", "VariableDeclarator"].map Text.ofString

/-- Whether a name consists of a line of at least one character and a given end. -/
def hasEnding (ending name : Text) : Bool :=
  let start := Text.dropEnd ending.length name
  !start.isEmpty && name == start ++ ending && !start.contains (.scalar '\n')

/-- Whether a node of this name ends a climb. A line break at the end of a name does not count. -/
def isBoundary (name : Text) : Bool :=
  let name := if name.getLast? = some (.scalar '\n') then name.dropLast else name
  boundaryNames.contains name || hasEnding "Statement" name || hasEnding "Declaration" name

/-- The names of the forms that use a value and cannot do so without parts of their own. -/
def userNames : List Text :=
  ["MemberExpression", "CallExpression", "NewExpression", "AssignmentExpression",
    "AssignmentPattern", "VariableDeclarator"].map Text.ofString

/-- The names of the patterns that cannot receive a value without parts of their own. -/
def receiverNames : List Text :=
  ["Identifier", "ObjectPattern", "AssignmentPattern"].map Text.ofString

namespace Tracer

variable {ι : Type}

/-! ### Patterns -/

section Pattern

variable (t : Tracer) (via : List VariableId)
  (enter : VariableId → Traced ι → Emission ConstantFault)

mutual

/-- Follows a value into a pattern; `enter` follows it into a variable. -/
def bind (above : List Frame) (v : Traced ι) : Node → Emission ConstantFault
  | .mk span form => bindForm ⟨.mk span form, above⟩ v form

/-- Follows a value into a pattern by its form. The elements of an array pattern and of a rest
element have no fixed key and are not followed. -/
def bindForm (self : Site) (v : Traced ι) : Form → Emission ConstantFault
  | .identifier name =>
    match t.graph.findVariable? self.start name with
    | some x => enter x v
    | none => .empty
  | .objectPattern properties => bindProperties self v 0 properties
  | .assignmentPattern left _ => bindOption self .left v left
  | .other name _ => if name ∈ receiverNames then .fail .missingPart else .empty
  | _ => .empty

/-- Follows a value into an optional pattern. -/
def bindOption (self : Site) (role : Role) (v : Traced ι) : Option Node → Emission ConstantFault
  | none => .empty
  | some n => bind (self.frames ⟨role, 0⟩) v n

/-- Follows the properties of a value into the properties of a pattern from number `i` on. -/
def bindProperties (self : Site) (v : Traced ι) (i : Nat) : List Node → Emission ConstantFault
  | [] => .empty
  | .mk span form :: rest =>
    let property := self.down ⟨.properties, i⟩ (.mk span form)
    .withValue (form.key? t.joins) (fun key =>
      match v.child? key with
      | none => .empty
      | some w => w.report .read property via ++ bindValue property w form)
    ++ bindProperties self v (i + 1) rest

/-- Follows a property of a value into the pattern of a property. -/
def bindValue (property : Site) (w : Traced ι) : Form → Emission ConstantFault
  | .property _ value .. | .method _ _ value .. | .field _ _ value _ =>
    bindOption property .value w value
  | _ => .fail .missingPart

end

/-! ### Expressions -/

/-- Follows a value up from the node at the bottom of `above`. -/
def climb : List Frame → Traced ι → Emission ConstantFault
  | [], _ => .empty
  | frame :: above, v =>
    let parent : Site := ⟨frame.parent, above⟩
    match frame.parent.form with
    | .member .. =>
      if frame.slot.role = .object then
        .withValue (frame.parent.key? t.joins) fun key =>
          match v.child? key with
          | none => .empty
          | some w => w.report .read parent via ++ climb above w
      else .empty
    | .call .. => if frame.slot.role = .callee then v.report .call parent via else .empty
    | .construct .. => if frame.slot.role = .callee then v.report .construct parent via else .empty
    | .assignment _ left _ =>
      if frame.slot.role = .right then bindOption t via enter parent .left v left ++ climb above v
      else .empty
    | .assignmentPattern left _ =>
      if frame.slot.role = .right then bindOption t via enter parent .left v left else .empty
    | .variableDeclarator target _ =>
      if frame.slot.role = .init then bindOption t via enter parent .name v target else .empty
    | form =>
      if isBoundary form.name then
        if form.name ∈ userNames then .fail .missingPart else .empty
      else climb above v

end Pattern

/-! ### Variables -/

/-- The variables that are not being followed. -/
def closed (t : Tracer) (via : List VariableId) : List VariableId :=
  t.graph.variableIds.filter (· ∉ via)

theorem closed_length_lt {t : Tracer} {via : List VariableId} {x : VariableId}
    (hx : x ∈ t.graph.variableIds) (hv : x ∉ via) :
    (t.closed (x :: via)).length < (t.closed via).length := by
  have hsub : t.closed (x :: via) = (t.closed via).filter (· ≠ x) := by
    simp only [closed, List.filter_filter]
    congr 1
    funext y
    by_cases h : y = x <;> simp [h]
  have hmem : x ∈ t.closed via := by simp [closed, hx, hv]
  rw [hsub]
  exact List.length_filter_lt_length_iff_exists.2 ⟨x, hmem, by simp⟩

/-- Follows the value of a variable to everywhere the variable is read, in the order in which it is
read. `via` are the variables that are being followed already, and `reportReads` says whether a read
itself is a match. -/
def enter (t : Tracer) (via : List VariableId) (reportReads : Bool) (x : VariableId)
    (v : Traced ι) :
    Emission ConstantFault :=
  if h : x ∈ t.graph.variableIds ∧ x ∉ via then
    .concatMap (fun r =>
      (if reportReads then v.report .read r.mention.identifier (x :: via) else .empty)
        ++ t.climb (x :: via) (fun y w => enter t (x :: via) false y w)
          r.mention.identifier.above v)
      ((t.graph.referencesOf x).filter (·.mention.access.reads))
  else .empty
termination_by (t.closed via).length
decreasing_by exact closed_length_lt h.1 h.2

end Tracer

end ApiTrace
