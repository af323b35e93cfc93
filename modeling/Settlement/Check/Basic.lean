import Settlement.Quote.Basic

/-!
# Checks

A check is one attempt to pay a quote. Its id, session, amount, paid items and time of creation are
fixed when it is made; only its `Standing` moves: the status, the payment reference and the time of
completion. Ids and times belong to the caller: they are kept as they are given, and all that is
asked of them is that they are there.

`Check.authorize`, `Check.pay`, `Check.fail` and `Check.cancel` work on a check in place, one field
after the other, and what they changed before a fault stays changed. `Check.call` says how a step
ends and as what it leaves the check; `Check.take` yields the check after a step, or the fault for
which the step is refused.
-/

namespace Settlement

/-- The id under which a payment provider knows a payment. -/
structure PaymentReference where
  value : String
  deriving DecidableEq

/-- A payment reference from a value that should be its text: without the blanks at its ends, not
blank, and not too long. -/
def PaymentReference.ofValue : Value → Except Fault PaymentReference
  | .text s =>
    let trimmed := Text.trim s
    if trimmed.isEmpty then .error .referenceBlank
    else if Fault.longestReference < trimmed.length then .error .referenceTooLong
    else .ok ⟨trimmed⟩
  | _ => .error .referenceNotText

namespace Check

/-- Where a check stands: what changes over its life. -/
structure Standing where
  status : Status
  reference : Option PaymentReference
  completedAt : Option Value

/-- How every check begins. -/
def Standing.initial : Standing := ⟨.created, none, none⟩

end Check

/-- One attempt to pay. -/
structure Check where
  id : Value
  sessionId : Value
  amount : Money
  items : List PaidItem
  createdAt : Value
  standing : Check.Standing

namespace Check

/-- A time that a caller may have left out. -/
def time? : Value → Option Value
  | .null => none
  | v => some v

/-- A new check; the amount and the items must make a quote. -/
def create (id : Value) (amount : Money) (items : List PaidItem) (createdAt sessionId : Value) :
    Except Fault Check := do
  if id.isVoid then .error .emptyCheckId
  else
    match time? createdAt with
    | none => .error .missingCreationTime
    | some t =>
      let quote ← Quote.create amount items
      .ok ⟨id, sessionId, quote.amount, quote.items, t, .initial⟩

/-- A new check under an id that was just generated. -/
def createNew (amount : Money) (items : List PaidItem) (createdAt sessionId : Value)
    (fresh : String) : Except Fault Check :=
  create (.text fresh) amount items createdAt sessionId

/-- A new check for a quote, under an id that was just generated unless one is given. -/
def ofQuote (quote : Quote) (createdAt sessionId id : Value) (fresh : String) :
    Except Fault Check :=
  create (if id.isVoid then .text fresh else id) quote.amount quote.items createdAt sessionId

/-- A procedure works on a check in place: what it changed before a fault stays changed. -/
abbrev Procedure (α : Type) := ExceptT Fault (StateM Check) α

/-- How a procedure ends on a check, and as what it leaves it. -/
def Procedure.on {α : Type} (p : Procedure α) (check : Check) : Except Fault α × Check :=
  p.run.run check

/-- Changes where a check stands. -/
def change (f : Standing → Standing) : Procedure Unit :=
  modify fun check => { check with standing := f check.standing }

/-- Refuses an action that the status does not allow. -/
def require (action : Action) : Procedure Unit := do
  let check ← get
  if check.standing.status ∈ action.allowed then pure ()
  else throw (.wrongStatus action check.standing.status)

/-- Completes a check at some time, in a terminal status. -/
def complete (status : Status) (completedAt : Value) : Procedure Unit :=
  match time? completedAt with
  | none => throw .missingCompletionTime
  | some t => do
    change fun standing => { standing with completedAt := some t }
    change fun standing => { standing with status }

/-- Authorizes a check. -/
def authorize (reference : Given PaymentReference) : Procedure Unit := do
  require .authorize
  let reference ← ofExcept (reference.require .notAReference)
  change fun standing => { standing with reference := some reference }
  change fun standing => { standing with status := .authorized }

/-- Completes a check as paid. -/
def pay (reference : Given PaymentReference) (completedAt : Value) : Procedure Unit := do
  require .pay
  let reference ← ofExcept (reference.require .notAReference)
  complete .paid completedAt
  change fun standing => { standing with reference := some reference }

/-- Completes a check as failed. -/
def fail (completedAt : Value) : Procedure Unit := do
  require .fail
  complete .failed completedAt

/-- Completes a check as canceled. -/
def cancel (completedAt : Value) : Procedure Unit := do
  require .cancel
  complete .canceled completedAt

/-- A step in the life of a check, with what it is given. -/
inductive Step where
  | authorize (reference : Given PaymentReference)
  | pay (reference : Given PaymentReference) (completedAt : Value)
  | fail (completedAt : Value)
  | cancel (completedAt : Value)

/-- What a step does. -/
def Step.perform : Step → Procedure Unit
  | .authorize reference => Check.authorize reference
  | .pay reference completedAt => Check.pay reference completedAt
  | .fail completedAt => Check.fail completedAt
  | .cancel completedAt => Check.cancel completedAt

/-- How a step ends, and the check as it leaves it. -/
def call (check : Check) (step : Step) : Except Fault Unit × Check := step.perform.on check

/-- The check after a step, or why the step is refused. -/
def take (check : Check) (step : Step) : Except Fault Check :=
  let (result, next) := check.call step
  result.map fun _ => next

/-- The check after a number of steps, be they refused or not. -/
def run (check : Check) (steps : List Step) : Check :=
  steps.foldl (fun check step => (check.call step).2) check

/-- A check in short: its id, amount and status. -/
def summary (check : Check) : String :=
  s!"Check(id={check.id.quoted}, amount={check.amount.text}, " ++
    s!"status={check.standing.status.word})"

end Check

end Settlement
