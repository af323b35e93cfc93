/-!
# Log records

Operations say what they did in `Record`s. A record names its source, so that a reader of the log
can tell the parts of the program apart.
-/

namespace Settlement.Log

/-- How much attention a record asks for. -/
inductive Severity where
  | debug
  | info
  deriving DecidableEq

/-- The word for a severity. -/
def Severity.word : Severity → String
  | .debug => "DEBUG"
  | .info => "INFO"

/-- The number by which severities are compared with a level. -/
def Severity.level : Severity → Nat
  | .debug => 10
  | .info => 20

/-- One line of the log. -/
structure Record where
  severity : Severity
  source : String
  message : String
  deriving DecidableEq

end Settlement.Log
