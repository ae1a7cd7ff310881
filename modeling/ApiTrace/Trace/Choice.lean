import ApiTrace.Json.Printer
import ApiTrace.Text.Blank
import ApiTrace.Text.Case

/-!
# Modes and strategies

The two choices that a caller makes by name. Names are read without regard to letter case and to the
blanks around them.
-/

namespace ApiTrace

/-- How a CommonJS module is seen by `import`: as a default export only, or also by its
properties. -/
inductive Mode where
  | legacy
  | strict
deriving DecidableEq

/-- Where tracing begins: at global names, at `require` calls, or at import and export
declarations. -/
inductive Strategy where
  | globals
  | cjs
  | esm
deriving DecidableEq

/-- The name of a mode. -/
def Mode.name : Mode → String
  | .legacy => "legacy"
  | .strict => "strict"

/-- The name of a strategy. -/
def Strategy.name : Strategy → String
  | .globals => "global"
  | .cjs => "cjs"
  | .esm => "esm"

/-- All modes. -/
def Mode.all : List Mode := [.legacy, .strict]

/-- All strategies, in the order in which they run. -/
def Strategy.all : List Strategy := [.globals, .cjs, .esm]

/-- A value that names no choice. -/
inductive ChoiceFault where
  | unknownMode (value : Json)
  | unknownStrategy (value : Json)

/-- What is said of a value that names no choice. -/
def ChoiceFault.message : ChoiceFault → String
  | .unknownMode value => s!"Unknown trace mode {value.shown} (expected 'legacy' or 'strict')"
  | .unknownStrategy value => s!"Unknown strategy {value.shown} (expected one of global, cjs, esm)"

/-- A name without the blanks around it and in small letters. -/
def plainName (t : Text) : Text := Text.strip (Text.lower t)

/-- The mode of a name. -/
def Mode.ofText? (t : Text) : Option Mode :=
  all.find? fun m => Text.ofString m.name == plainName t

/-- The strategy of a name. -/
def Strategy.ofText? (t : Text) : Option Strategy :=
  all.find? fun s => Text.ofString s.name == plainName t

/-- The mode that a value names; no value is the strict mode. -/
def Mode.ofJson (value : Json) : Except ChoiceFault Mode :=
  match value with
  | .null => .ok .strict
  | .string t => (ofText? t).elim (.error (.unknownMode value)) .ok
  | _ => .error (.unknownMode value)

/-- The strategy that a value names. -/
def Strategy.ofJson (value : Json) : Except ChoiceFault Strategy :=
  match value with
  | .string t => (ofText? t).elim (.error (.unknownStrategy value)) .ok
  | _ => .error (.unknownStrategy value)

end ApiTrace
