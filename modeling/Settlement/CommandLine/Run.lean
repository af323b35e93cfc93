import Settlement.Check.Basic
import Settlement.CommandLine.Options
import Settlement.Configuration
import Settlement.SelectionText
import Settlement.Session.Document
import Settlement.Text.ControlSequence

/-!
# The commands

Two commands are offered. `discount` resolves a discount against a base amount; `quote` says what a
payer owes for selected items of a session file, and may make a check of it.

`CommandLine.plan` reads the arguments as far as they go without a file, `Plan.run` does the rest.
An `Ending` says what is printed and with which exit code: zero for an answer, one for an error that
is reported, two for arguments that make no sense. `Ending.plain` is what remains of it where no
terminal reads along.
-/

namespace Settlement.CommandLine

/-- How a run ends. -/
inductive Ending where
  /-- With an exit code, after printing to the two streams. -/
  | finished (exit : Nat) (out err : String)
  /-- With the advice to look at the arguments again. -/
  | misused
  /-- With a fault that no command reports. -/
  | escaped (f : Fault)

/-- The end of a run with an error in words. -/
def Ending.failed (message : String) : Ending := .finished 1 "" s!"Error: {message}\n"

/-- The end of a run with a fault: reported if it is of a kind that is. -/
def Ending.ofFault (f : Fault) : Ending :=
  let f := f.reported
  if f.category.isReportable then .failed f.message else .escaped f

/-- The end of a run as it is printed where no terminal reads it: without control sequences. -/
def Ending.plain : Ending → Ending
  | .finished exit out err => .finished exit (Text.plain out) (Text.plain err)
  | .misused => .misused
  | .escaped f => .escaped f

/-- A command and its arguments. -/
inductive Command where
  | discount (base : String) (percent amount : Option String) (reason : Reason)
      (note : Option String)
  | quote (path : String) (selections : List String) (withCheck : Bool)

/-- A command in the currency and at the log level that are configured. -/
structure Plan where
  currency : Currency
  level : Nat
  command : Command

/-! ### Reading the arguments -/

/-- A brief description of the arguments. -/
def usage : String :=
  "Usage: tabsettle [--currency CODE] [--log-level LEVEL] COMMAND\n\n" ++
    "Commands:\n" ++
    "  discount --base AMOUNT (--percent NUMBER | --amount AMOUNT) [--reason REASON] " ++
    "[--note TEXT]\n" ++
    "  quote SESSION_FILE --select ITEM[:QTY]... [--check]\n"

/-- The option that asks for the usage. -/
def helpSwitch : Switch := ⟨"--help", false⟩

/-- The options in front of a command. -/
def generalSwitches : List Switch := [⟨"--currency", true⟩, ⟨"--log-level", true⟩, helpSwitch]

def discountSwitches : List Switch :=
  [⟨"--base", true⟩, ⟨"--percent", true⟩, ⟨"--amount", true⟩, ⟨"--reason", true⟩,
    ⟨"--note", true⟩, helpSwitch]

def quoteSwitches : List Switch := [⟨"--select", true⟩, ⟨"--check", false⟩, helpSwitch]

/-- The log levels that can be chosen. -/
def levelChoices : List String := ["DEBUG", "INFO", "WARNING", "ERROR"]

/-- The log level when nobody sets one. -/
def defaultLevel : String := "WARNING"

/-- The value of an option, or of an environment variable that is not empty. -/
def optionOrVariable (p : Parsed) (option : String) (fallback : Option String) :
    Option String :=
  (p.last? option).or (fallback.filter fun v => !v.isEmpty)

/-- The `discount` command from its arguments. -/
def discountCommand (args : List String) : Except Ending Command :=
  match parse discountSwitches true args with
  | none => .error .misused
  | some p =>
    if p.has "--help" then .error (.finished 0 usage "")
    else
      let reason := choose? (Reason.all.map Reason.word) ((p.last? "--reason").getD "DISCOUNT")
      match p.last? "--base", reason.bind Reason.ofWord?, p.operands with
      | some base, some reason, [] =>
        .ok (.discount base (p.last? "--percent") (p.last? "--amount") reason (p.last? "--note"))
      | _, _, _ => .error .misused

/-- The `quote` command from its arguments. -/
def quoteCommand (args : List String) : Except Ending Command :=
  match parse quoteSwitches true args with
  | none => .error .misused
  | some p =>
    if p.has "--help" then .error (.finished 0 usage "")
    else
      match p.operands, p.all "--select" with
      | [path], s :: rest => .ok (.quote path (s :: rest) (p.has "--check"))
      | _, _ => .error .misused

/-- The plan for a run, from the environment and the arguments. The command is looked at before the
currency, and its own arguments after it. -/
def plan (environment : String → Option String) (args : List String) : Except Ending Plan := do
  match parse generalSwitches false args with
  | none => .error .misused
  | some p =>
    if p.has "--help" then .error (.finished 0 usage "")
    else
      let level := optionOrVariable p "--log-level" (environment Configuration.logLevelVariable)
      match choose? levelChoices (level.getD defaultLevel), p.operands with
      | some level, name :: args =>
        let readCommand ←
          if name = "discount" then .ok discountCommand
          else if name = "quote" then .ok quoteCommand
          else .error .misused
        let explicit :=
          optionOrVariable p "--currency" (environment Configuration.currencyVariable)
        let currency ←
          (Configuration.resolveCurrency ((explicit.map Value.text).getD .null)
            (environment Configuration.currencyVariable)).mapError .ofFault
        let command ← readCommand args
        .ok ⟨currency, (Configuration.logLevels.lookup level).getD 0, command⟩
      | _, _ => .error .misused

/-! ### Carrying out a command -/

/-- The resolved discount of a `discount` command, with the base amount. -/
def resolveDiscount (currency : Currency) (base : String) (size : String ⊕ String) (reason : Reason)
    (note : Option String) : Except Fault (Money × WriteOff) := do
  let base ← Money.ofDecimal currency (← AmountText.readText base)
  let note := (note.map Value.text).getD .null
  let discount ← match size with
    | .inl percent => do
      Discount.percent (.decimal (.finite (← AmountText.readText percent))) (.given reason) note
    | .inr amount => do
      let amount ← Money.ofDecimal currency (← AmountText.readText amount)
      Discount.flat (.given amount) (.given reason) note
  .ok (base, ← discount.toWriteOff base)

/-- What is printed about a resolved discount. -/
def discountReport (base : Money) (w : WriteOff) : Except Fault String := do
  let net ← base.minus w.amount
  let lines :=
    [s!"Base amount: {base.text}", s!"Reduction: {w.amount.text}", s!"Net amount: {net.text}",
      s!"Reason: {w.reason.word}"] ++ (w.note.map fun note => s!"Note: {note}").toList
  .ok (String.join (lines.map (· ++ "\n")))

/-- The `discount` command. -/
def runDiscount (currency : Currency) (base : String) (percent amount : Option String)
    (reason : Reason) (note : Option String) : Ending :=
  let resolve (size : String ⊕ String) : Ending :=
    match resolveDiscount currency base size reason note with
    | .error f => .ofFault f
    | .ok (base, w) =>
      match discountReport base w with
      | .error f => .escaped f.reported
      | .ok out => .finished 0 out ""
  match percent, amount with
  | some p, none => resolve (.inl p)
  | none, some a => resolve (.inr a)
  | _, _ => .failed "Provide exactly one of --percent or --amount"

/-- A text filled up with spaces on the right. -/
def padRight (width : Nat) (cs : List Char) : List Char :=
  cs ++ List.replicate (width - cs.length) ' '

/-- A text filled up with spaces on the left. -/
def padLeft (width : Nat) (cs : List Char) : List Char :=
  List.replicate (width - cs.length) ' ' ++ cs

/-- The width of the first column, to which item ids are cut. -/
def idWidth : Nat := 30

/-- A row of the table of paid items. -/
def tableRow (id quantity unitPrice paid : String) : String :=
  String.ofList (padRight idWidth (id.toList.take idWidth) ++ ' ' :: padLeft 5 quantity.toList ++
    ' ' :: padLeft 15 unitPrice.toList ++ ' ' :: padLeft 15 paid.toList ++ ['\n'])

/-- The line between the parts of a report. -/
def rule : String := String.ofList (List.replicate 70 '-' ++ ['\n'])

/-- What is printed about a quote. -/
def quoteReport (gross : Money) (q : Quote) : String :=
  s!"\nGross amount: {gross.text}\nCheck amount: {q.amount.text}\n" ++ rule ++
    tableRow "Item" "Qty" "Unit price" "Paid" ++ rule ++
    String.join (q.items.map fun p =>
      tableRow p.id (toString p.quantity) p.unitPrice.amount.text p.paid.amount.text)

/-- What is printed about a check. -/
def checkReport (check : Check) : String :=
  s!"\nCreated check {check.id.shown}\n  Status: {check.standing.status.word}\n" ++
    s!"  Amount: {check.amount.text}\n"

/-- A session file, the selections from it, their price and their quote. -/
def quoteSession (currency : Currency) (path : String) (contents : Option ByteArray)
    (selections : List String) : Except Fault (Money × Quote) := do
  let tab ← Session.load currency.code path contents
  let parsed ← selections.mapM SelectionText.readText
  let gross ← Quote.grossAmount currency tab.items parsed
  .ok (gross, ← tab.quote parsed)

/-- The `quote` command. The time of a check is not printed, and stands for itself here. -/
def runQuote (currency : Currency) (path : String) (contents : Option ByteArray)
    (selections : List String) (withCheck : Bool) (fresh : String) : Ending :=
  match quoteSession currency path contents selections with
  | .error f => .ofFault f
  | .ok (gross, q) =>
    let out := quoteReport gross q
    if withCheck then
      match Check.ofQuote q (.text "now") .null .null fresh with
      | .error f => .escaped f.reported
      | .ok check => .finished 0 (out ++ checkReport check) ""
    else .finished 0 out ""

/-- The records that a `quote` command writes. -/
def quoteJournal (currency : Currency) (path : String) (contents : Option ByteArray)
    (selections : List String) : List Log.Record :=
  match Session.load currency.code path contents with
  | .error _ => []
  | .ok tab =>
    Session.announcement path tab ::
      match selections.mapM SelectionText.readText with
      | .error _ => []
      | .ok parsed =>
        match Quote.grossAmount currency tab.items parsed with
        | .error _ => []
        | .ok _ => tab.journal parsed

/-- The file that a plan asks for. -/
def Plan.path? (p : Plan) : Option String :=
  match p.command with
  | .discount .. => none
  | .quote path .. => some path

/-- Carries out a plan, given the contents of its file and an id for a check. A file that is asked
for must exist. -/
def Plan.run (p : Plan) (contents : Option ByteArray) (fresh : String) : Ending :=
  match p.command with
  | .discount base percent amount reason note =>
    runDiscount p.currency base percent amount reason note
  | .quote path selections withCheck =>
    if contents.isNone then .misused
    else runQuote p.currency path contents selections withCheck fresh

/-- The records that a plan writes, from its level on. -/
def Plan.journal (p : Plan) (contents : Option ByteArray) : List Log.Record :=
  match p.command with
  | .discount .. => []
  | .quote path selections _ =>
    (quoteJournal p.currency path contents selections).filter fun r => p.level ≤ r.severity.level

/-- A whole run that no terminal reads, with files by name. -/
def run (environment : String → Option String) (files : String → Option ByteArray)
    (fresh : String) (args : List String) : Ending :=
  match plan environment args with
  | .error ending => ending.plain
  | .ok p => (p.run (p.path?.bind files) fresh).plain

end Settlement.CommandLine
