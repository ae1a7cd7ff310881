import ApiTrace.Log
import ApiTrace.Text.Quoted
import ApiTrace.Trace.Choice

/-!
# Settings

What a caller can leave to the environment: the mode, the names of the global object, and whether
texts are joined. A setting is read from its environment variable when it is first asked for and
then stays as it is until all settings are reset.
-/

namespace ApiTrace

/-- The environment variables that hold settings. -/
structure Environment where
  mode : Option Text := none
  names : Option Text := none
  joins : Option Text := none

/-- The names of the global object where nothing else is said. -/
def defaultGlobalNames : List Text := ["global", "self", "window"].map Text.ofString

namespace Environment

/-- The mode. A value that names no mode is ignored with a warning. -/
def readMode (e : Environment) : Mode × List LogLine :=
  match e.mode with
  | none | some [] => (.strict, [])
  | some raw =>
    match Mode.ofText? raw with
    | some mode => (mode, [])
    | none =>
      (.strict, [.warning ("Ignoring REFTRACER_MODE=" ++ Text.quoted raw ++ ", using 'strict'")])

/-- The names of the global object, which are separated by commas. -/
def readNames (e : Environment) : List Text :=
  match e.names with
  | none => defaultGlobalNames
  | some raw => ((Text.splitOn ',' raw).map Text.strip).filter (!·.isEmpty)

/-- Whether texts are joined. A value that is no answer is ignored with a warning. -/
def readJoins (e : Environment) : Bool × List LogLine :=
  let raw := Text.lower (Text.strip (e.joins.getD []))
  if raw.isEmpty ∨ raw ∈ ["1", "true", "yes", "on"].map Text.ofString then (true, [])
  else if raw ∈ ["0", "false", "no", "off"].map Text.ofString then (false, [])
  else (true, [.warning ("Ignoring REFTRACER_FOLD_CONCATENATION=" ++ Text.quoted raw)])

end Environment

/-- The environment and the settings that have been asked for. -/
structure Settings where
  environment : Environment
  mode : Option Mode := none
  names : Option (List Text) := none
  joins : Option Bool := none

namespace Settings

/-- The answer to a question for a setting: its value, what is logged, and the settings from then
on. -/
structure Answer (α : Type) where
  value : α
  log : List LogLine
  settings : Settings

/-- Settings of which none has been asked for. -/
def ofEnvironment (environment : Environment) : Settings := { environment }

/-- Forgets the settings that have been asked for. -/
def reset (s : Settings) : Settings := ofEnvironment s.environment

/-- Asks for the mode. -/
def getMode (s : Settings) : Answer Mode :=
  match s.mode with
  | some mode => ⟨mode, [], s⟩
  | none =>
    let (mode, log) := s.environment.readMode
    ⟨mode, log, { s with mode }⟩

/-- Asks for the names of the global object. -/
def getNames (s : Settings) : Answer (List Text) :=
  match s.names with
  | some names => ⟨names, [], s⟩
  | none =>
    let names := s.environment.readNames
    ⟨names, [], { s with names }⟩

/-- Asks whether texts are joined. -/
def getJoins (s : Settings) : Answer Bool :=
  match s.joins with
  | some joins => ⟨joins, [], s⟩
  | none =>
    let (joins, log) := s.environment.readJoins
    ⟨joins, log, { s with joins }⟩

end Settings

end ApiTrace
