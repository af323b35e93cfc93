import Settlement.Check.Identifier
import Settlement.CommandLine.Run

/-!
# The program

The outer layer of the commands: it reads the arguments, the environment and the session file, and
prints what a run says.
-/

namespace Settlement

/-- The contents of a file, if there is one. -/
def readSession (path : String) : IO (Option ByteArray) := do
  try
    let contents ← IO.FS.readBinFile path
    return some contents
  catch _ => return none

/-- Prints a text on a stream; control sequences are for terminals only. -/
def printOn (stream : IO.FS.Stream) (text : String) : IO Unit := do
  stream.putStr (if ← stream.isTty then text else Text.plain text)

/-- Prints how a run ends; the exit code is the result. -/
def printEnding : CommandLine.Ending → IO UInt32
  | .finished exit out err => do
    printOn (← IO.getStdout) out
    printOn (← IO.getStderr) err
    return exit.toUInt32
  | .misused => do
    IO.eprint CommandLine.usage
    return 2
  | .escaped f => do
    IO.eprintln f.message
    return 1

end Settlement

open Settlement in
/-- Runs a command. -/
def main (args : List String) : IO UInt32 := do
  let currency ← IO.getEnv Configuration.currencyVariable
  let level ← IO.getEnv Configuration.logLevelVariable
  let environment (name : String) : Option String :=
    if name = Configuration.currencyVariable then currency
    else if name = Configuration.logLevelVariable then level
    else none
  match CommandLine.plan environment args with
  | .error ending => printEnding ending
  | .ok plan =>
    let contents ← match plan.path? with
      | some path => readSession path
      | none => pure none
    for record in plan.journal contents do
      IO.eprintln s!"{record.severity.word} | {record.source} | {record.message}"
    let octets ← IO.getRandomBytes 16
    printEnding (plan.run contents (Check.Identifier.ofOctets (octets.data.toList.map UInt8.toNat)))
