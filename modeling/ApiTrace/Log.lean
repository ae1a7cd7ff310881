import ApiTrace.Text.CodePoint

/-!
# Log lines
-/

namespace ApiTrace

/-- How much a log line matters. -/
inductive Level where
  | debug
  | warning
deriving DecidableEq

/-- One line of a log. -/
structure LogLine where
  level : Level
  message : Text
deriving DecidableEq

/-- A line that matters to someone who looks for the reason of an answer. -/
def LogLine.debug (message : Text) : LogLine := ⟨.debug, message⟩

/-- A line that matters to everyone. -/
def LogLine.warning (message : Text) : LogLine := ⟨.warning, message⟩

/-- How a source is called in log lines. -/
def sourceLabel (filepath : Text) : Text := if filepath.isEmpty then "<source>" else filepath

end ApiTrace
