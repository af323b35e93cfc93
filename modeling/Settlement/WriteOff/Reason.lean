import Settlement.Text.LetterCase

/-!
# Why something is written off

Every reduction is recorded with one of five reasons. A reason is read without regard to case.
-/

namespace Settlement

/-- The reason for a write-off. -/
inductive Reason where
  | discount
  | compensation
  | promotion
  | adminAdjustment
  | other
  deriving DecidableEq

namespace Reason

/-- All reasons, in the order in which messages list them. -/
def all : List Reason := [discount, compensation, promotion, adminAdjustment, other]

/-- The word for a reason. -/
def word : Reason → String
  | discount => "DISCOUNT"
  | compensation => "COMPENSATION"
  | promotion => "PROMOTION"
  | adminAdjustment => "ADMIN_ADJUSTMENT"
  | other => "OTHER"

/-- The reason with exactly this word. -/
def ofWord? (s : String) : Option Reason := all.find? fun r => r.word == s

/-- The reason that a text names once it is written in capitals. -/
def ofText? (s : String) : Option Reason := ofWord? (Text.upper s)

theorem mem_all (r : Reason) : r ∈ all := by cases r <;> decide

theorem ofWord?_word (r : Reason) : ofWord? r.word = some r := by cases r <;> decide

end Reason

end Settlement
