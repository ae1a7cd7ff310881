import ApiTrace.Concrete
import ApiTrace.File

/-!
# Paths and files

Paths as they are written on the command line, and the files that a command can see.
-/

namespace ApiTrace

namespace CommandLine

/-! ### Paths -/

/-- The slash between the parts of a path. -/
def slash : CodePoint := '/'

/-- The name of a directory within itself. -/
def selfName : Text := "."

/-- The name of the directory around a directory. -/
def parentName : Text := ".."

/-- The slashes that an absolute path begins with: two are kept, any other number counts as one. -/
def pathRoot (path : Text) : Text :=
  match (path.takeWhile (· == slash)).length with
  | 0 => []
  | 2 => [slash, slash]
  | _ => [slash]

/-- The parts of a path that matter. -/
def pathParts (path : Text) : List Text :=
  (Text.splitOn slash path).filter fun part => !part.isEmpty && part != selfName

/-- A path without parts that do not matter. -/
def plainPath (path : Text) : Text :=
  match pathRoot path ++ Text.join [slash] (pathParts path) with
  | [] => selfName
  | plain => plain

/-! ### Paths of the system -/

/-- The name of something in a directory, as bytes. -/
abbrev FileName := List UInt8

/-- Why a path is none that the system could be asked for. -/
inductive PathFault where
  /-- The path has no bytes. -/
  | notEncodable
  /-- A byte of the path is zero, which ends a path. -/
  | zeroByte
deriving DecidableEq

/-- What is said of a path that the system cannot be asked for, where there are words for it. -/
def PathFault.message? : PathFault → Option String
  | .notEncodable => none
  | .zeroByte => some "embedded null byte"

/-- The bytes of a path. -/
def pathBytes (path : Text) : Except PathFault (List UInt8) :=
  match Utf8.encodeEscaped? path with
  | none => .error .notEncodable
  | some bytes => if bytes.contains 0 then .error .zeroByte else .ok bytes

/-- The greatest number of bytes of a path. -/
def pathLimit : Nat := 4095

/-- The greatest number of bytes of a name in a directory. -/
def nameLimit : Nat := 255

/-- The name that a part of a path is. -/
def fileName (part : Text) : FileName := (Utf8.encodeEscaped? part).getD []

/-! ### Files -/

/-- A file with the concrete tree of its text. -/
structure StoredFile where
  bytes : List UInt8
  tree : ConcreteTree

/-- What a command can see of the files around it, by path. -/
structure FileView where
  isDirectory : Text → Bool
  read : Text → Except FileFault StoredFile

/-- The files and directories below the working directory, by the names that lead to them. -/
structure FileTree where
  files : List (List FileName × StoredFile)
  directories : List (List FileName)

namespace FileTree

/-- Where a path leads. -/
inductive Place where
  | file (file : StoredFile)
  | directory (names : List FileName)
  /-- A directory that is not below the working directory. -/
  | outside

/-- Whether some names lead to a directory: one that is listed, or one that holds something. -/
def hasDirectory (t : FileTree) (names : List FileName) : Bool :=
  names.isEmpty || (t.directories ++ t.files.map (·.1.dropLast)).any (names.isPrefixOf ·)

/-- Where one name leads from a directory. -/
def enter (t : FileTree) (names : List FileName) (name : FileName) : Except FileFault Place :=
  match t.files.lookup (names ++ [name]) with
  | some file => .ok (.file file)
  | none =>
    if t.hasDirectory (names ++ [name]) then .ok (.directory (names ++ [name])) else .error .missing

/-- Whether a name means the directory itself. -/
def isSelf (name : FileName) : Bool := name.isEmpty || name == fileName selfName

/-- Whether a name means the directory around a directory. -/
def isParent (name : FileName) : Bool := name == fileName parentName

/-- Where one name of a path leads. -/
def step (t : FileTree) (place : Place) (name : FileName) : Except FileFault Place :=
  match place with
  | .file _ => .error .notADirectory
  | .outside =>
    if isSelf name || isParent name then .ok .outside
    else if nameLimit < name.length then .error .nameTooLong
    else .error .missing
  | .directory names =>
    if isSelf name then .ok place
    else if isParent name then .ok (if names.isEmpty then .outside else .directory names.dropLast)
    else if nameLimit < name.length then .error .nameTooLong
    else t.enter names name

/-- Where a path leads. Nothing is at a path that the system cannot be asked for. -/
def find (t : FileTree) (path : Text) : Except FileFault Place :=
  match pathBytes path with
  | .error _ | .ok [] => .error .missing
  | .ok bytes =>
    if pathLimit < bytes.length then .error .nameTooLong
    else ((Text.splitOn slash path).map fileName).foldlM t.step
      (if path.head? = some slash then .outside else .directory [])

/-- The files as a command sees them. -/
def view (t : FileTree) : FileView where
  isDirectory path :=
    match t.find path with
    | .ok (.directory _) | .ok .outside => true
    | _ => false
  read path := do
    match ← t.find path with
    | .file file => .ok file
    | _ => .error .isADirectory

end FileTree

end CommandLine

end ApiTrace
