import ApiTrace.CommandLine.Arguments
import ApiTrace.CommandLine.Report
import ApiTrace.TraceMap.Checker
import ApiTrace.TraceMap.File

/-!
# The command

Traces the paths of a trace map file through source files and reports the matches, as tables or as
JSON. A file that cannot be read is reported and does not keep the others from being traced.
-/

namespace ApiTrace.CommandLine

/-- What a run of the command leaves behind. -/
structure Report where
  exit : Nat
  output : String := ""
  printed : List (Console × Item) := []
  log : List LogLine := []

/-- A fault that the command does not report itself. -/
inductive Crash where
  | path (fault : PathFault)
  | mapFile (fault : MapFileFault)
  | tracing (fault : TraceFault)

/-- How a run of the command ends. -/
inductive Ending where
  | badUsage (fault : UsageFault)
  | help
  | finished (report : Report)
  | crashed (crash : Crash)

/-- The name and version of the command. -/
def versionLine : Text := "reftracer 0.1.0"

/-- A report of nothing but an error. -/
def failure (message : Text) : Report := { exit := 1, printed := [(.err, errorItem message)] }

/-- What is said of a source file that cannot be read. -/
def unreadable (path reason : Text) : Console × Item :=
  (.err, errorItem ("cannot read " ++ path ++ ": " ++ reason))

/-- The text and the concrete tree of a source file. -/
def readSource (view : FileView) (path : Text) : Except (Console × Item) (Text × ConcreteTree) := do
  let file ← (view.read path).mapError fun f => unreadable path (f.message path)
  let text ← (fileText file.bytes).mapError fun f => unreadable path f.message
  return (text, file.tree)

/-- What came of some source files: the results, the errors and the log, and the settings. -/
structure Progress where
  results : List TraceResult := []
  errors : List (Console × Item) := []
  log : List LogLine := []
  settings : Settings

/-- Traces one source file. -/
def traceFile {ι : Type} (a : Arguments) (view : FileView) (m : TraceMap ι) (p : Progress)
    (path : Text) : Except TraceFault Progress :=
  match readSource view path with
  | .error item => .ok { p with errors := p.errors ++ [item] }
  | .ok (source, tree) => do
    let strategies := if a.strategies.isEmpty then Strategy.all else a.strategies
    let request : TraceRequest := {
      source, tree
      strategies := strategies.map fun s => .string s.name
      mode := a.mode.elim .null fun mode => .string mode.name
      names := if a.globalObjects.isEmpty then none else some a.globalObjects
      filepath := path }
    let o ← request.trace (.ok m) p.settings
    return { p with
      results := p.results ++ [o.result], log := p.log ++ o.log, settings := o.settings }

/-- The lines of a log that are shown. -/
def shownLog (verbose : Bool) (log : List LogLine) : List LogLine :=
  if verbose then log else log.filter (·.level = .warning)

/-- The report on source files. -/
def Progress.report (a : Arguments) (p : Progress) : Report where
  exit := if p.errors.isEmpty then 0 else 1
  output := if a.json then (Json.array (p.results.map TraceResult.toJson)).indented ++ "\n" else ""
  printed := p.errors ++ if a.json then [] else
    (p.results.flatMap resultItems ++ [summary p.results]).map (.out, ·)
  log := shownLog a.verbose p.log

/-- Traces the source files with a trace map. -/
def traceFiles {ι : Type} (a : Arguments) (view : FileView) (environment : Environment)
    (m : TraceMap ι) : Ending :=
  match a.files.foldlM (traceFile a view m) { settings := .ofEnvironment environment } with
  | .ok p => .finished (p.report a)
  | .error fault => .crashed (.tracing fault)

/-- Runs the command with arguments that are checked. -/
def runArguments [Validator] (a : Arguments) (view : FileView)
    (environment : Environment) : Ending :=
  if a.version then .finished { exit := 0, printed := [(.out, .markup versionLine)] }
  else match a.map with
    | none => .finished (failure "--map is required")
    | some path =>
      if a.files.isEmpty then .finished (failure "no input files given")
      else match loadMap ((view.read path).map (·.bytes)) with
        | .ok m => traceFiles a view environment m
        | .error (.notUtf8 fault) => .crashed (.mapFile (.notUtf8 fault))
        | .error (.numeral fault) => .crashed (.mapFile (.numeral fault))
        | .error fault => .finished (failure (fault.message path))

/-- Runs the command. -/
def run [Validator] (arguments : List Text) (view : FileView)
    (environment : Environment) : Ending :=
  match Scan.ofArguments arguments with
  | .error fault => .badUsage fault
  | .ok scan =>
    if scan.has .help then .help
    else match scan.check view with
      | .error .impossible => .badUsage .badParameter
      | .error (.path fault) => .crashed (.path fault)
      | .ok a => runArguments a view environment

end ApiTrace.CommandLine
