import ApiTrace.File
import ApiTrace.Json.Reader
import ApiTrace.TraceMap.Document

/-!
# Trace map files

A trace map file is a UTF-8 text that holds one trace map document.
-/

namespace ApiTrace

/-- Why a file is no trace map. -/
inductive MapFileFault where
  /-- The file has no contents. -/
  | unreadable (fault : FileFault)
  /-- The contents are no UTF-8. -/
  | notUtf8 (fault : Utf8.Fault)
  /-- The text is no JSON. -/
  | notJson
  /-- A number in the document is too long. -/
  | numeral (fault : Numeral.Fault)
  /-- The document does not have the form of a trace map. -/
  | invalid (violations : List Document.Violation)

namespace Document

/-- What is said of a kind of violation. -/
def ViolationKind.message : ViolationKind → String
  | .notAnObject => "should be an object"
  | .notANode => "should be an object with the members of a node"
  | .unknownMember => "is not permitted"
  | .unreadableFlag => "should be a boolean, and cannot be read as one"
  | .notAFlag => "should be a boolean"
  | .unreadableText => "should be a text without surrogates"
  | .tooDeep => "lies in too many nodes"

/-- What is said of a violation. -/
def Violation.message (v : Violation) : Text := Text.join "." v.place ++ " " ++ v.kind.message

end Document

namespace MapFileFault

/-- What is said of a faulty file, by its path. -/
def message (path : Text) : MapFileFault → Text
  | .unreadable fault => "Cannot read trace map " ++ path ++ ": " ++ fault.message path
  | .notUtf8 fault => fault.message
  | .notJson => "Trace map " ++ path ++ " is not valid JSON: no document can be read"
  | .numeral fault => fault.message
  | .invalid violations =>
    "Invalid trace map: " ++ Text.join "; " (violations.map Document.Violation.message)

end MapFileFault

/-- The trace map that the contents of a file describe. -/
def loadMap [Validator] (contents : Except FileFault (List UInt8)) :
    Except MapFileFault (TraceMap (List Text)) := do
  let bytes ← contents.mapError .unreadable
  let text ← (fileText bytes).mapError .notUtf8
  let document ← (Json.read text).mapError fun
    | .malformed => .notJson
    | .numeral fault => .numeral fault
  (Document.toMap document).mapError .invalid

end ApiTrace
