import ApiTrace.CommandLine.Run
import ApiTrace.Concrete.Json
import ApiTrace.Json.Reader

/-!
# The program

Reads the files that the arguments name, runs the command and prints what it reports. The concrete
tree of a source file stands beside it in a file of the same name with `.tree.json` added.
-/

namespace ApiTrace.CommandLine

/-- A text as it is printed. A surrogate is printed as a replacement character. -/
def printable (t : Text) : String :=
  String.ofList (t.map fun
    | .scalar c => c
    | .surrogate _ => '�')

/-- Whether a path is a directory. -/
def isDirectoryPath (path : String) : IO Bool := do
  try
    (← IO.FS.realPath path).isDir
  catch _ => return false

/-- The concrete tree that is stored beside a source file. -/
def readTree (path : String) : IO ConcreteTree := do
  try
    let stored ← IO.FS.readFile (path ++ ".tree.json")
    match Json.read stored with
    | .ok v => return (ConcreteTree.ofJson? v).getD .empty
    | .error _ => return .empty
  catch _ => return .empty

/-- Reads a file with its concrete tree. -/
def readStored (path : String) : IO (Except FileFault StoredFile) := do
  if ← isDirectoryPath path then return .error .isADirectory
  try
    let bytes ← IO.FS.readBinFile path
    return .ok ⟨bytes.toList, ← readTree path⟩
  catch
    | .noFileOrDirectory .. => return .error .missing
    | .invalidArgument .. => return .error .nameTooLong
    | _ => return .error .notADirectory

/-- What a run can see: the paths that its arguments name. -/
def viewOf (paths : List Text) : IO FileView := do
  let directories ← paths.filterM fun path => isDirectoryPath (printable path)
  let files ← (paths.map plainPath).mapM fun path => do return (path, ← readStored (printable path))
  return {
    isDirectory := directories.contains
    read := fun path => (files.lookup path).getD (.error .missing) }

/-- The settings in the environment. -/
def readEnvironment : IO Environment := do
  return {
    mode := (← IO.getEnv "REFTRACER_MODE").map Text.ofString
    names := (← IO.getEnv "REFTRACER_GLOBAL_OBJECT_NAMES").map Text.ofString
    joins := (← IO.getEnv "REFTRACER_FOLD_CONCATENATION").map Text.ofString }

/-- The paths that arguments name. -/
def namedPaths (arguments : List Text) : List Text :=
  match Scan.ofArguments arguments with
  | .ok scan => scan.files ++ scan.valuesOf .map
  | .error _ => []

/-- What is said of arguments that cannot be used. -/
def UsageFault.message : UsageFault → String
  | .noSuchOption => "no such option"
  | .badOptionUsage => "an option lacks its value, or takes none"
  | .badParameter => "a value is not possible"

/-- Prints a report. -/
def printReport (r : Report) : IO UInt32 := do
  for line in r.log do
    IO.eprintln (printable line.message)
  for (console, item) in r.printed do
    for line in item.lines do
      match console with
      | .out => IO.println (printable line)
      | .err => IO.eprintln (printable line)
  IO.print r.output
  return UInt32.ofNat r.exit

end ApiTrace.CommandLine

open ApiTrace CommandLine in
/-- Runs the command with the arguments of the process. -/
def main (arguments : List String) : IO UInt32 := do
  let arguments := arguments.map Text.ofString
  let view ← viewOf (namedPaths arguments)
  match run arguments view (← readEnvironment) with
  | .finished report => printReport report
  | .help =>
    IO.println "Options: --map -m FILE, --mode NAME, --strategy -s NAME, --global-object NAME,"
    IO.println "  --json, --verbose, --version -v, --help; everything else is a source file."
    return 0
  | .badUsage fault =>
    IO.eprintln ("Error: " ++ fault.message)
    return 2
  | .crashed (.path fault) =>
    IO.eprintln ("Error: " ++ (fault.message?).getD "a path cannot be encoded")
    return 1
  | .crashed (.mapFile fault) =>
    IO.eprintln ("Error: " ++ printable (fault.message "trace map"))
    return 1
  | .crashed (.tracing _) =>
    IO.eprintln "Error: a source file cannot be traced"
    return 1
