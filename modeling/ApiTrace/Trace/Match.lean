import ApiTrace.Scope.Graph
import ApiTrace.TraceMap.Basic

/-!
# Matches

A match is a place where a traced value is read, called or constructed. Tracing gives its matches
one by one and can stop at a fault: `Emission` is the list of the matches together with the fault,
if there is one, after the last of them.
-/

namespace ApiTrace

/-- A place where a traced value is used: the node, the property path of the value, how it is used
and what to report. `via` are the variables through which the value came there, the last one
first. -/
structure Match where
  site : Site
  path : List Text
  use : Use
  entry : Json
  via : List VariableId

namespace Match

/-- The path of a match in one line. -/
def dottedPath (m : Match) : Text := Text.join "." m.path

end Match

/-- Matches in the order in which they are found, and the fault that ended the search early. -/
structure Emission (ε : Type) where
  found : List Match
  fault : Option ε

namespace Emission

variable {ε δ α : Type}

/-- No matches. -/
def empty : Emission ε := ⟨[], none⟩

/-- One match. -/
def one (m : Match) : Emission ε := ⟨[m], none⟩

/-- A fault before any match. -/
def fail (fault : ε) : Emission ε := ⟨[], some fault⟩

/-- First the matches of one search, then, unless it ended in a fault, those of another. -/
def append (a b : Emission ε) : Emission ε :=
  match a.fault with
  | some _ => a
  | none => ⟨a.found ++ b.found, b.fault⟩

instance : Append (Emission ε) := ⟨append⟩

/-- The matches of one search after the other. -/
def concatMap (f : α → Emission ε) : List α → Emission ε
  | [] => empty
  | a :: as => f a ++ concatMap f as

/-- Goes on with a value if there is one; a fault ends the search. -/
def withValue (value : Except ε (Option α)) (f : α → Emission ε) : Emission ε :=
  match value with
  | .error fault => fail fault
  | .ok none => empty
  | .ok (some a) => f a

/-- Changes matches or leaves them out. -/
def filterMap (f : Match → Option Match) (e : Emission ε) : Emission ε :=
  { e with found := e.found.filterMap f }

/-- Changes the fault. -/
def mapFault (f : ε → δ) (e : Emission ε) : Emission δ := ⟨e.found, e.fault.map f⟩

/-- All matches, if the search did not end early. -/
def rest (e : Emission ε) : Except ε (List Match) :=
  match e.fault with
  | some fault => .error fault
  | none => .ok e.found

end Emission

/-- A value that is traced: its property path and what the trace map says from there on. -/
structure Traced (ι : Type) where
  path : List Text
  map : TraceMap ι

namespace Traced

variable {ι ε : Type}

/-- A property of a traced value, if the trace map knows it. -/
def child? (v : Traced ι) (key : Text) : Option (Traced ι) :=
  (v.map.child? key).map fun m => ⟨v.path ++ [key], m⟩

/-- The match for a use of a traced value, if there is something to report. -/
def report (v : Traced ι) (use : Use) (site : Site) (via : List VariableId) : Emission ε :=
  match v.map.payload? use with
  | some entry => .one ⟨site, v.path, use, entry, via⟩
  | none => .empty

end Traced

end ApiTrace
