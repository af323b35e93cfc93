import Settlement.Money.Reading
import Settlement.Text.Blank

/-!
# Configuration

Two settings can be made from outside: the currency of all amounts, and the level from which log
records are shown. Each is given explicitly, or by an environment variable, or has a default.
-/

namespace Settlement.Configuration

/-- The environment variable for the currency. -/
def currencyVariable : String := "TABSETTLE_CURRENCY"

/-- The environment variable for the log level. -/
def logLevelVariable : String := "TABSETTLE_LOG_LEVEL"

/-- The currency when nobody sets one. -/
def defaultCurrency : String := "EUR"

/-- A currency from a configured value: its code in any case, with blanks around it passed over. -/
def currency : Value → Except Fault Currency
  | .text s =>
    let code := Text.upper (Text.trim s)
    if code.isEmpty then .error .codeBlank
    else if h : isCurrencyCode code = true then .ok ⟨code, h⟩
    else .error (.codeMalformed s)
  | _ => .error .codeNotText

/-- The currency that is set explicitly, else by the environment, else by default. -/
def resolveCurrency (explicit : Value) (environment : Option String) : Except Fault Currency :=
  match explicit with
  | .null => currency (.text (environment.getD defaultCurrency))
  | v => currency v

/-! ### Log levels -/

/-- The names of log levels, with the numbers they stand for. -/
def logLevels : List (String × Nat) :=
  [("CRITICAL", 50), ("FATAL", 50), ("ERROR", 40), ("WARNING", 30), ("WARN", 30), ("INFO", 20),
    ("DEBUG", 10), ("NOTSET", 0)]

/-- How logging is set up: the level, and how many handlers write the records. -/
structure Logging where
  level : Nat
  handlers : Nat
  deriving DecidableEq

/-- Logging before anyone sets it up. -/
def Logging.initial : Logging := ⟨0, 0⟩

/-- Logging at a level given by name, in any case. The first call adds the one handler. -/
def Logging.configure (logging : Logging) (name : String) : Except Fault Logging :=
  match logLevels.lookup (Text.upper name) with
  | some level => .ok ⟨level, if logging.handlers = 0 then 1 else logging.handlers⟩
  | none => .error (.logLevel name)

end Settlement.Configuration
