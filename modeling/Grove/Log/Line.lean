/-!
# Log lines

What a run tells its user: a severity and a message.
-/

namespace Grove

/-- How serious a message is. -/
inductive Severity where
  /-- The run goes on as it should. -/
  | info
  /-- Something was passed over. -/
  | warn
  /-- Something failed. -/
  | error
  deriving DecidableEq, Inhabited

/-- The word in front of a message. -/
def Severity.label : Severity → String
  | info => "INFO"
  | warn => "WARN"
  | error => "ERROR"

/-- One message of a run. -/
structure LogLine where
  /-- How serious it is. -/
  severity : Severity
  /-- The message. -/
  message : String
  deriving DecidableEq, Inhabited

/-- The line as it is shown. -/
def LogLine.text (l : LogLine) : String :=
  l.severity.label ++ " " ++ l.message

end Grove
