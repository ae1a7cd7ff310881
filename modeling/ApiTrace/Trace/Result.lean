import ApiTrace.Settings
import ApiTrace.Syntax.Session
import ApiTrace.Trace.Root
import ApiTrace.TraceMap.Outline

/-!
# Tracing a source

From a source and a trace map to the matches: the source is parsed, its scopes are analyzed, and the
selected strategies run one after the other. What the caller leaves open comes from the settings.
-/

namespace ApiTrace

/-- Why a source cannot be traced. -/
inductive TraceFault where
  | choice (fault : ChoiceFault)
  | outline (fault : Outline.Fault)
  | parsing (fault : SyntaxFault)
  | scoping (fault : ScopeFault)
  | folding (fault : ConstantFault)

/-- What is to be traced and how. Strategies and mode are given by name; without a mode, or without
names of the global object, the settings decide. -/
structure TraceRequest where
  source : Text
  tree : ConcreteTree
  strategies : List Json := Strategy.all.map fun s => .string s.name
  mode : Json := .null
  names : Option (List Text) := none
  filepath : Text := []
  sourceType : Option Text := none

/-- The matches in a source. -/
structure TraceResult where
  filepath : Text
  parsedCleanly : Bool
  found : List Match
  session : ParseSession

/-- A result with what is logged on the way and the settings from then on. -/
structure TraceOutcome where
  result : TraceResult
  log : List LogLine
  settings : Settings

/-- The scope graph of a source, the session that parsed it, and what is logged on the way. -/
def analyzeSource (source filepath : Text) (sourceType : Option Text) (tree : ConcreteTree) :
    Except TraceFault (ParseSession × ScopeGraph × List LogLine) := do
  let (session, outcome) := ParseSession.fresh.parse source filepath sourceType tree
  let isParsed ← outcome.mapError .parsing
  let warning := if isParsed then [] else
    [.warning ("Syntax errors in " ++ sourceLabel filepath ++ ", tracing the recovered tree")]
  let log := ParseSession.parseLog filepath isParsed ++ warning
  match session.program with
  | none => .error (.parsing .missingPart)
  | some program =>
    let graph ← (ScopeGraph.analyze program).mapError .scoping
    return (session, graph, log)

namespace TraceRequest

variable {ι : Type}

/-- The matches of one strategy and its log. -/
def runStrategy (r : TraceRequest) (t : Tracer) (mode : Mode) (names : List Text) (m : TraceMap ι)
    (s : Strategy) : Except TraceFault (List Match × List LogLine) := do
  let found ← ((t.strategyMatches mode names m s).rest).mapError .folding
  let count : Text := s.name ++ " strategy: " ++ toString found.length ++ " match(es) in "
  return (found, t.strategyLog names m s ++ [.debug (count ++ sourceLabel r.filepath)])

/-- The mode of a request, which the settings give if the request does not. -/
def chooseMode (r : TraceRequest) (settings : Settings) :
    Settings.Answer (Except ChoiceFault Mode) :=
  match r.mode with
  | .null =>
    let answer := settings.getMode
    ⟨.ok answer.value, answer.log, answer.settings⟩
  | value => ⟨Mode.ofJson value, [], settings⟩

/-- The names of the global object, which the settings give if the request does not. -/
def chooseNames (r : TraceRequest) (settings : Settings) : Settings.Answer (List Text) :=
  match r.names with
  | none => settings.getNames
  | some names => ⟨names, [], settings⟩

/-- Traces a source. -/
def trace (r : TraceRequest) (map : Except Outline.Fault (TraceMap ι)) (settings : Settings) :
    Except TraceFault TraceOutcome := do
  let selected ← r.strategies.mapM fun s => (Strategy.ofJson s).mapError TraceFault.choice
  let m ← map.mapError .outline
  let (session, graph, parseLog) ← analyzeSource r.source r.filepath r.sourceType r.tree
  let chosen := r.chooseMode settings
  let names := r.chooseNames chosen.settings
  let joins := names.settings.getJoins
  let mode ← chosen.value.mapError .choice
  let runs ← (Strategy.all.filter (· ∈ selected)).mapM
    (r.runStrategy ⟨graph, joins.value⟩ mode names.value m)
  return {
    result := ⟨r.filepath, session.isParsed, runs.flatMap (·.1), session⟩
    log := parseLog ++ chosen.log ++ names.log ++ joins.log ++ runs.flatMap (·.2)
    settings := joins.settings }

end TraceRequest

end ApiTrace
