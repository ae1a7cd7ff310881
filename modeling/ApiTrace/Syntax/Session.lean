import ApiTrace.Log
import ApiTrace.Syntax.Program
import ApiTrace.Text.Lines

/-!
# Parsing sessions

The source that was parsed last and what came of it. Every parse begins afresh; a parse that fails
leaves the source and its lines, and no program. A session also keeps the bytes that are read, and
keeps them when it is reset: a parse puts those of its own source in their place before it reads.
-/

namespace ApiTrace

/-- The state of a parsing session. `isParsed` says whether the last source has no syntax errors,
and `encoded` is the last source that could be turned into bytes. -/
structure ParseSession where
  source : Option Text := none
  filepath : Option Text := none
  lines : List Text := []
  isParsed : Bool := false
  program : Option Node := none
  encoded : Source := Source.empty

namespace ParseSession

/-- A session in which nothing has been parsed. -/
def fresh : ParseSession := {}

/-- The session after it is reset. The bytes stay. -/
def reset (s : ParseSession) : ParseSession := { encoded := s.encoded }

/-- The program of a source and its concrete tree. -/
def programOf (source : Text) (sourceType : Option Text) (tree : ConcreteTree) : Outcome Node :=
  match Source.ofText? source with
  | none => .error .notEncodable
  | some src => Node.ofConcrete src sourceType tree.root

/-- What is done to a session. What was done before a fault stays done. -/
abbrev Action := EStateM SyntaxFault ParseSession

/-- Turns a source into bytes, which are the ones that are read from then on. -/
def encode (source : Text) : Action Unit :=
  match Source.ofText? source with
  | none => throw .notEncodable
  | some src => modify fun s => { s with encoded := src }

/-- The program of a concrete tree over the bytes of the session. -/
def convert (sourceType : Option Text) (tree : ConcreteTree) : Action Node := do
  match Node.ofConcrete (← get).encoded sourceType tree.root with
  | .error fault => throw fault
  | .ok program => return program

/-- Parses a source, step by step; the answer is whether it has no syntax errors. -/
def parsing (source filepath : Text) (sourceType : Option Text) (tree : ConcreteTree) :
    Action Bool := do
  modify reset
  modify fun s => { s with source, filepath, lines := Text.lines source }
  encode source
  let program ← convert sourceType tree
  modify fun s => { s with program }
  modify fun s => { s with isParsed := !tree.hasError }
  return !tree.hasError

/-- Parses a source; the answer is whether it has no syntax errors. -/
def parse (s : ParseSession) (source filepath : Text) (sourceType : Option Text)
    (tree : ConcreteTree) : ParseSession × Outcome Bool :=
  match parsing source filepath sourceType tree s with
  | .ok isParsed s => (s, .ok isParsed)
  | .error fault s => (s, .error fault)

/-- The log of a parse that ended with an answer. -/
def parseLog (filepath : Text) (isParsed : Bool) : List LogLine :=
  if isParsed then [] else [.debug ("Syntax errors while parsing " ++ sourceLabel filepath)]

/-- A line of the source, counted from one. -/
def line? (s : ParseSession) (number : Int) : Option Text :=
  if 1 ≤ number then s.lines[number.toNat - 1]? else none

end ParseSession

end ApiTrace
