import ApiTrace.CommandLine.Path
import ApiTrace.Trace.Choice

/-!
# Arguments

The arguments of the command: options, in a long and some of them in a short form, and files between
them. An option takes its value from the same argument or from the next one. After `--` everything
is a file.
-/

namespace ApiTrace.CommandLine

/-- The options that take a value. -/
inductive ValueOption where
  | map
  | mode
  | strategy
  | globalObject
deriving DecidableEq

/-- The options that take no value. -/
inductive Flag where
  | json
  | verbose
  | version
  | help
deriving DecidableEq

/-- An option. -/
inductive Switch where
  | value (option : ValueOption)
  | flag (flag : Flag)

/-- Why arguments cannot be used. -/
inductive UsageFault where
  /-- There is no such option. -/
  | noSuchOption
  /-- An option lacks its value, or has one and takes none. -/
  | badOptionUsage
  /-- The value of an option or a file is none of those that are possible. -/
  | badParameter
deriving DecidableEq

/-- The option of a long name. -/
def longSwitch? (name : Text) : Option Switch :=
  [("--map", .value .map), ("--mode", .value .mode), ("--strategy", .value .strategy),
    ("--global-object", .value .globalObject), ("--json", .flag .json),
    ("--verbose", .flag .verbose), ("--version", .flag .version), ("--help", .flag .help)].findSome?
    fun ((long, switch) : String × Switch) => if Text.ofString long = name then some
      switch else none

/-- The option of a short name. -/
def shortSwitch? (p : CodePoint) : Option Switch :=
  if p = 'm' then some (.value .map)
  else if p = 's' then some (.value .strategy)
  else if p = 'v' then some (.flag .version)
  else none

/-- What has been read: files, values and flags in order, the option that waits for a value, and
whether only files can follow. -/
structure Scan where
  files : List Text := []
  values : List (ValueOption × Text) := []
  flags : List Flag := []
  waiting : Option ValueOption := none
  onlyFiles : Bool := false

namespace Scan

/-- Adds a file. -/
def addFile (s : Scan) (file : Text) : Scan := { s with files := s.files ++ [file] }

/-- Adds a value. -/
def addValue (s : Scan) (option : ValueOption) (v : Text) : Scan :=
  { s with values := s.values ++ [(option, v)], waiting := none }

/-- Adds a flag. -/
def addFlag (s : Scan) (flag : Flag) : Scan := { s with flags := s.flags ++ [flag] }

/-- Reads a long option, which may have its value after an equals sign. -/
def readLong (s : Scan) (argument : Text) : Except UsageFault Scan :=
  let name := argument.takeWhile (· != .scalar '=')
  let rest := argument.dropWhile (· != .scalar '=')
  match longSwitch? name, rest with
  | none, _ => .error .noSuchOption
  | some (.value option), [] => .ok { s with waiting := some option }
  | some (.value option), _ :: v => .ok (s.addValue option v)
  | some (.flag flag), [] => .ok (s.addFlag flag)
  | some (.flag _), _ :: _ => .error .badOptionUsage

/-- Reads short options that stand together; what follows one that takes a value is its value. -/
def readShort (s : Scan) : Text → Except UsageFault Scan
  | [] => .ok s
  | p :: rest =>
    match shortSwitch? p with
    | none => .error .noSuchOption
    | some (.flag flag) => (s.addFlag flag).readShort rest
    | some (.value option) =>
      .ok (if rest.isEmpty then { s with waiting := some option } else s.addValue option rest)

/-- Reads an argument. -/
def read (s : Scan) (argument : Text) : Except UsageFault Scan :=
  match s.waiting, s.onlyFiles, argument with
  | some option, _, _ => .ok (s.addValue option argument)
  | none, true, _ => .ok (s.addFile argument)
  | none, false, .scalar '-' :: .scalar '-' :: [] => .ok { s with onlyFiles := true }
  | none, false, .scalar '-' :: .scalar '-' :: _ => s.readLong argument
  | none, false, .scalar '-' :: p :: rest => s.readShort (p :: rest)
  | none, false, _ => .ok (s.addFile argument)

/-- Reads all arguments. -/
def ofArguments (arguments : List Text) : Except UsageFault Scan := do
  let s ← arguments.foldlM read {}
  if s.waiting.isSome then .error .badOptionUsage else .ok s

/-- The values of an option, in order. -/
def valuesOf (s : Scan) (option : ValueOption) : List Text :=
  s.values.filterMap fun (o, v) => if o = option then some v else none

/-- Whether a flag is given. -/
def has (s : Scan) (flag : Flag) : Bool := s.flags.contains flag

end Scan

/-- The arguments of a command, with paths and choices checked. -/
structure Arguments where
  files : List Text
  map : Option Text
  mode : Option Mode
  strategies : List Strategy
  globalObjects : List Text
  json : Bool
  verbose : Bool
  version : Bool

/-- What can be wrong with the value of an option or with a file. -/
inductive ValueFault where
  /-- The value is none of those that are possible. -/
  | impossible
  /-- The system cannot be asked for the path. -/
  | path (fault : PathFault)
deriving DecidableEq

/-- The choice that a word names; letter case does not matter. -/
def readChoice {α : Type} (choices : List α) (name : α → String) (word : Text) :
    Except ValueFault α :=
  match choices.find? fun a => Text.ofString (name a) == Text.foldAscii word with
  | some a => .ok a
  | none => .error .impossible

/-- A path, which must not be a directory. -/
def readPath (view : FileView) (path : Text) : Except ValueFault Text := do
  let _ ← (pathBytes path).mapError .path
  if view.isDirectory path then .error .impossible else .ok (plainPath path)

namespace Scan

/-- The arguments before paths and choices are checked. -/
def unchecked (s : Scan) : Arguments where
  files := []
  map := none
  mode := none
  strategies := []
  globalObjects := s.valuesOf .globalObject
  json := s.has .json
  verbose := s.has .verbose
  version := s.has .version

/-- Checks the values of an option. Where it has one value the last one counts. -/
def checkOption (s : Scan) (view : FileView) (a : Arguments) :
    ValueOption → Except ValueFault Arguments
  | .map => do return { a with map := ← ((s.valuesOf .map).getLast?).mapM (readPath view) }
  | .mode => do
    return { a with mode := ← ((s.valuesOf .mode).getLast?).mapM (readChoice Mode.all Mode.name) }
  | .strategy => do
    return { a with
      strategies := ← (s.valuesOf .strategy).mapM (readChoice Strategy.all Strategy.name) }
  | .globalObject => .ok a

/-- The options that have values, in the order in which they are first given. -/
def options (s : Scan) : List ValueOption := (s.values.map (·.1)).eraseDups

/-- Checks the options in the order in which they are first given, and then the files. -/
def check (s : Scan) (view : FileView) : Except ValueFault Arguments := do
  let a ← s.options.foldlM (s.checkOption view) s.unchecked
  return { a with files := ← s.files.mapM (readPath view) }

end Scan

end ApiTrace.CommandLine
