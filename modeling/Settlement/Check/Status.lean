/-!
# Where a check stands

A check is created, may be authorized, and ends by being paid, by failing or by being canceled.
`Action.allowed` lists the states that each action may start from.
-/

namespace Settlement.Check

/-- The state of a payment attempt. -/
inductive Status where
  | created
  | authorized
  | paid
  | failed
  | canceled
  deriving DecidableEq

/-- The states in which nothing can happen any more. -/
def Status.isTerminal : Status → Bool
  | .created | .authorized => false
  | .paid | .failed | .canceled => true

/-- The word for a state. -/
def Status.word : Status → String
  | .created => "CREATED"
  | .authorized => "AUTHORIZED"
  | .paid => "PAID"
  | .failed => "FAILED"
  | .canceled => "CANCELED"

/-- What can be done to a check. -/
inductive Action where
  | authorize
  | pay
  | fail
  | cancel
  deriving DecidableEq

/-- The states that an action may start from. -/
def Action.allowed : Action → List Status
  | .authorize => [.created]
  | .pay | .fail | .cancel => [.created, .authorized]

/-- The rule that an action in the wrong state breaks. -/
def Action.rule : Action → String
  | .authorize => "Only CREATED checks can be authorized"
  | .pay => "Only CREATED or AUTHORIZED checks can be paid"
  | .fail => "Only CREATED or AUTHORIZED checks can fail"
  | .cancel => "Only CREATED or AUTHORIZED checks can be canceled"

/-- No action may start from a terminal state. -/
theorem isTerminal_of_mem_allowed {a : Action} {s : Status} (h : s ∈ a.allowed) :
    s.isTerminal = false := by
  cases a <;> cases s <;> simp_all [Action.allowed, Status.isTerminal]

end Settlement.Check
