import ApiTrace.Text.Lines
import ApiTrace.Text.Quoted
import ApiTrace.Text.Utf8

/-!
# Text files

What can go wrong when a text file is read, and how its bytes become a text.
-/

namespace ApiTrace

/-- Why a file has no contents. -/
inductive FileFault where
  | missing
  | notADirectory
  | isADirectory
  | nameTooLong
deriving DecidableEq

namespace FileFault

/-- The number that the system gives to a fault. -/
def number : FileFault → Nat
  | .missing => 2
  | .notADirectory => 20
  | .isADirectory => 21
  | .nameTooLong => 36

/-- What the system says of a fault. -/
def reason : FileFault → String
  | .missing => "No such file or directory"
  | .notADirectory => "Not a directory"
  | .isADirectory => "Is a directory"
  | .nameTooLong => "File name too long"

/-- What is said of a path that cannot be read. -/
def message (f : FileFault) (path : Text) : String :=
  s!"[Errno {f.number}] {f.reason}: {Text.quoted path}"

end FileFault

/-- The text of a file: its bytes read as UTF-8, with every line break as a line feed. -/
def fileText (bytes : List UInt8) : Except Utf8.Fault Text := do
  return Text.unixNewlines (← Utf8.decode bytes)

end ApiTrace
