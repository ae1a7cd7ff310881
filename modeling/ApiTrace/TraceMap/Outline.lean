import ApiTrace.Json.Printer
import ApiTrace.TraceMap.Basic

/-!
# Outlines

An outline is a trace map as a caller writes it: cells that hold entries, where an entry gives a
payload, marks an ECMAScript module or leads to another cell. Cells are known by their number, so a
cell can be shared and can be reached from itself. An outline need not make sense: an entry may have
a key that means nothing, and where a cell is needed there may be another value. `Outline.toMap`
finds the first such fault in depth-first order or gives the map.

A cell may also be finished: it is then a node of a map that was made before.
-/

namespace ApiTrace

namespace Outline

/-- What stands where a cell is needed. -/
inductive Value where
  | cell (number : Nat)
  | plain (value : Json)

/-- An entry of a cell. -/
inductive Entry where
  | payload (use : Use) (value : Json)
  | esm
  | child (name : Text) (value : Value)
  | unsupported (key : Json)

/-- A cell that is still an outline, or a node of a finished map. -/
inductive Cell where
  | draft (entries : List Entry)
  | finished (node : MapNode Nat)

/-- Why an outline is no trace map. -/
inductive Fault where
  | notANode (value : Json)
  | unsupportedKey (key : Json)

/-- The name of the type of a value. -/
def typeName : Json → String
  | .null => "NoneType"
  | .bool _ => "bool"
  | .int _ => "int"
  | .float _ => "float"
  | .string _ => "str"
  | .array _ => "list"
  | .object _ => "dict"

/-- What is said of a faulty outline. -/
def Fault.message : Fault → String
  | .notANode value => "Trace map nodes must be dicts, got " ++ typeName value
  | .unsupportedKey key => "Unsupported trace map key: " ++ key.shown

/-- Whether two entries have the same key. Keys that mean nothing are all different. -/
def Entry.sameKey : Entry → Entry → Bool
  | .payload use _, .payload use' _ => use == use'
  | .esm, .esm => true
  | .child name _, .child name' _ => name == name'
  | _, _ => false

/-- Puts an entry among others: it takes the place of one with the same key. -/
def setEntry (entry : Entry) : List Entry → List Entry
  | [] => [entry]
  | old :: rest => if old.sameKey entry then entry :: rest else old :: setEntry entry rest

/-- The node that a list of entries describes. -/
def nodeOfEntries : List Entry → MapNode Nat :=
  List.foldl (fun node entry =>
    match entry with
    | .payload use value => node.setPayload use value
    | .esm => { node with isEsm := true }
    | .child name (.cell i) => { node with children := node.children ++ [(name, i)] }
    | .child _ (.plain _) | .unsupported _ => node) .empty

/-- The node that a cell stands for. -/
def Cell.node : Cell → MapNode Nat
  | .draft entries => nodeOfEntries entries
  | .finished node => node

/-- Whether a cell is finished. -/
def Cell.isFinished : Cell → Bool
  | .draft _ => false
  | .finished _ => true

end Outline

/-- The cells of some outlines, by number. -/
structure Outline where
  cells : List Outline.Cell

namespace Outline

/-- The numbers of the cells that are not in a list. -/
def unseen (o : Outline) (seen : List Nat) : List Nat :=
  (List.range o.cells.length).filter (· ∉ seen)

theorem unseen_length_lt {o : Outline} {seen : List Nat} {i : Nat} (hi : i < o.cells.length)
    (hs : i ∉ seen) : (o.unseen (i :: seen)).length < (o.unseen seen).length := by
  have hsub : o.unseen (i :: seen) = (o.unseen seen).filter (· ≠ i) := by
    simp only [unseen, List.filter_filter]
    congr 1
    funext j
    by_cases h : j = i <;> simp [h]
  have hmem : i ∈ o.unseen seen := by simp [unseen, hi, hs]
  rw [hsub]
  exact List.length_filter_lt_length_iff_exists.2 ⟨i, hmem, by simp⟩

/-- The first fault on the way through some entries, depth first, where the cells in `seen` have
been looked at before. -/
def firstFault? (o : Outline) (seen : List Nat) : List Entry → Option Fault
  | [] => none
  | .payload .. :: rest | .esm :: rest => o.firstFault? seen rest
  | .unsupported key :: _ => some (.unsupportedKey key)
  | .child _ (.plain value) :: _ => some (.notANode value)
  | .child _ (.cell i) :: rest =>
    if h : i < o.cells.length ∧ i ∉ seen then
      match o.cells[i] with
      | .draft entries => o.firstFault? (i :: seen) (entries ++ rest)
      | .finished _ => o.firstFault? seen rest
    else o.firstFault? seen rest
termination_by entries => ((o.unseen seen).length, entries.length)
decreasing_by
  · exact Prod.Lex.right _ (by simp)
  · exact Prod.Lex.right _ (by simp)
  · exact Prod.Lex.left _ _ (unseen_length_lt h.1 h.2)
  · exact Prod.Lex.right _ (by simp)
  · exact Prod.Lex.right _ (by simp)

/-- The trace map of all cells, looked at from one of them. -/
def mapAt (o : Outline) (root : Nat) : TraceMap Nat where
  root
  node i := (o.cells[i]?).elim .empty Cell.node

/-- The trace map that a value outlines. -/
def toMap (o : Outline) (value : Value) : Except Fault (TraceMap Nat) :=
  match value with
  | .plain v => .error (.notANode v)
  | .cell root =>
    match o.firstFault? [] [.child [] value] with
    | some fault => .error fault
    | none => .ok (o.mapAt root)

/-! ### Making outlines -/

/-- No cells. -/
def empty : Outline := ⟨[]⟩

/-- Adds a cell without entries; its number is the number of cells before. -/
def addCell (o : Outline) : Outline := ⟨o.cells ++ [.draft []]⟩

/-- Adds an entry to a cell. -/
def addEntry (o : Outline) (i : Nat) (entry : Entry) : Outline :=
  ⟨o.cells.modify i fun
    | .draft entries => .draft (setEntry entry entries)
    | cell => cell⟩

/-- Whether a cell is finished. -/
def isFinished (o : Outline) (i : Nat) : Bool := (o.cells[i]?).any Cell.isFinished

/-- The number of the finished copy of a cell, where copies come after all cells that there are. -/
def finishedNumber (o : Outline) (i : Nat) : Nat :=
  if o.isFinished i then i else o.cells.length + i

/-- Adds the map that a value outlines at this moment, as finished cells. Later changes to the
outline do not reach it. -/
def finish (o : Outline) (value : Value) : Except Fault (Outline × Value) := do
  let m ← o.toMap value
  let copies := o.cells.map fun cell => Cell.finished (cell.node.map o.finishedNumber)
  return (⟨o.cells ++ copies⟩, .cell (o.finishedNumber m.root))

end Outline

end ApiTrace
