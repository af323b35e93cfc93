import Settlement.Check.Status
import Settlement.Decimal.Arithmetic
import Settlement.Decimal.Parts
import Settlement.Json.Failure
import Settlement.Money.Basic
import Settlement.Text.Utf8
import Settlement.Value
import Settlement.WriteOff.Reason

/-!
# What can go wrong

A `Fault` is a cause, with the values at fault. `Fault.category` sorts the causes by what a caller
can do about them, and `Fault.message` puts them into words.

Whole numbers in messages are limited: one of more than `Fault.longestWhole` digits is not written,
and the message that would hold it becomes a complaint about its length (`Fault.reported`).
-/

namespace Settlement

/-- Kinds of faults. The first eight concern the rules of settling a tab; the others come from
outside them: from texts, files, keys and arithmetic. -/
inductive Category where
  /-- An input breaks a rule of the domain. -/
  | validation
  /-- Two amounts of one operation are in different currencies. -/
  | currencyMismatch
  /-- A reduction is zero or larger than what it reduces. -/
  | invalidReduction
  /-- Something that is referred to does not exist. -/
  | notFound
  /-- Two things have one identity. -/
  | conflict
  /-- Write-offs leave nothing to charge. -/
  | nothingPayable
  /-- A rounding remainder finds no place. -/
  | allocation
  /-- The state of a thing forbids an operation. -/
  | illegalState
  /-- A text is not of the form that is asked for. -/
  | malformedText
  /-- A value cannot serve as a key. -/
  | unusableKey
  /-- There is no such file. -/
  | missingFile
  /-- A file is not text. -/
  | undecodableFile
  /-- An operation is not defined for its operands. -/
  | invalidOperation
  /-- A number other than zero is divided by zero. -/
  | divisionByZero
  /-- A result is beyond the largest exponent. -/
  | overflow
  /-- A number is too large to count with: an infinite number of cents, or a part of a decimal. -/
  | infiniteCount
  deriving DecidableEq

/-- The categories that concern the rules of settling a tab. -/
def Category.isDomain : Category → Bool
  | .validation | .currencyMismatch | .invalidReduction | .notFound | .conflict | .nothingPayable
  | .allocation | .illegalState => true
  | _ => false

/-- The categories that a command reports as an ordinary error: those of the domain, malformed texts
and files that are missing or no text. -/
def Category.isReportable : Category → Bool
  | .malformedText | .missingFile | .undecodableFile => true
  | category => category.isDomain

/-- A cause of failure. -/
inductive Fault where
  -- currencies and amounts
  | currencyCode (got : Value)
  | amountKind (kind : String)
  | amountUnreadable (got : Value)
  | amountParts (refusal : Decimal.Parts.Refusal)
  | amountNotFinite (got : Numeric)
  | amountOutOfRange (got : Decimal)
  | amountNegative (got : Decimal)
  | differenceNegative (left right : Money)
  | notMoney (kind : String)
  | lacksPart (got : Value) (part : String)
  | currencyMismatch (context expected actual : String)
  | trap (t : Trap)
  -- quantities, ids, notes and reasons
  | quantityNotWhole (got : Value)
  | quantityNegative (got : Int)
  | quantityNotPositive (got : Int)
  | itemId (got : Value)
  | notAReason (got : Value)
  | noteNotText (owner : String)
  | noteTooLong (owner : String)
  -- write-offs, items and paid items
  | zeroWriteOff
  | zeroItemWriteOff (id : String)
  | zeroUnitPrice (id : String)
  | remainingNotWhole (id : String)
  | remainingNegative (id : String)
  | zeroPaid (id : String)
  | paidAboveGross (id : String) (paid gross : Money)
  | zeroCheckAmount
  | noPaidItems
  -- selections
  | emptySelections
  | itemCurrency (id expected actual : String)
  | duplicateItem (id : String)
  | unknownItem (id : String)
  | selectionAboveRemaining (id : String) (selected remaining : Nat)
  -- shares and allocations
  | zeroWhole
  | zeroTotalCap (total : Money)
  | missingCap (id : String)
  | missingAllocation (id : String)
  | fractionalRemainder (got : Numeric)
  | infiniteRemainder
  | noHeadroom (ids : List String)
  | nothingHeld (ids : List String)
  -- quotes
  | zeroPayableItem (id : String)
  | zeroNetSelected
  | zeroNetRemaining
  | zeroCheck
  -- discounts
  | percentNotPositive (got : Decimal)
  | percentAboveHundred (got : Decimal)
  | flatNotMoney (got : Value)
  | zeroFlatAmount
  | zeroBase
  | unsupportedDiscount (kind : String)
  | zeroReduction (base : Money)
  | reductionAboveBase (reduction base : Money)
  | discountQuantity (id : Value)
  -- checks
  | emptyCheckId
  | missingCreationTime
  | missingCompletionTime
  | referenceNotText
  | referenceBlank
  | referenceTooLong
  | notAReference (got : Value)
  | wrongStatus (action : Check.Action) (status : Check.Status)
  -- texts
  | emptyAmountText
  | negativeAmountText (text : String)
  | unreadableAmountText (text : String)
  | emptySelectionText
  | selectionQuantity (quantity selection : String)
  | notADigitString (text : String)
  | longDigitString (digits : Nat)
  | longWhole
  -- session files
  | missingSession (path : String)
  | undecodable (failure : Text.Utf8.Failure)
  | notJson (place : Json.Place)
  | documentNotRecord
  | declaredCurrency (expected : String) (got : Value)
  | missingList (key : String)
  | notAList (key : String)
  | entryNotRecord (location : String)
  | fieldNotText (location key : String)
  | fieldNotWhole (location key : String)
  | fieldMissing (location key : String)
  | fieldInvalid (location key : String) (cause : Fault)
  | discountForm (location : String)
  | reasonMissing (location : String)
  | reasonUnknown (location : String) (got : Value)
  | discountItem (location : String) (got : Value)
  | unusableKey (kind : String)
  -- configuration
  | codeNotText
  | codeBlank
  | codeMalformed (got : String)
  | logLevel (got : String)

namespace Fault

/-- The longest note, in characters. -/
def longestNote : Nat := 200

/-- The longest payment reference, in characters. -/
def longestReference : Nat := 100

/-- The number of digits that a whole number may have when it is read or written as text. -/
def longestWhole : Nat := 4300

/-- The part of a quoted text that the complaint about a digit string shows. -/
def longestExcerpt : Nat := 200

/-- What kind of fault this is. -/
def category : Fault → Category
  | amountNegative _ | differenceNegative .. | wrongStatus .. => .illegalState
  | currencyMismatch .. | itemCurrency .. | declaredCurrency .. => .currencyMismatch
  | trap .invalidOperation | lacksPart .. => .invalidOperation
  | trap .divisionByZero => .divisionByZero
  | trap .overflow => .overflow
  | infiniteRemainder | amountParts .oversized => .infiniteCount
  | duplicateItem _ => .conflict
  | unknownItem _ | discountItem .. => .notFound
  | noHeadroom _ | nothingHeld _ => .allocation
  | zeroPayableItem _ | zeroNetSelected | zeroNetRemaining | zeroCheck => .nothingPayable
  | zeroReduction _ | reductionAboveBase .. => .invalidReduction
  | amountParts _ | emptyAmountText | negativeAmountText _ | unreadableAmountText _
  | emptySelectionText | selectionQuantity .. | notADigitString _ | longDigitString _ | longWhole | logLevel _ =>
    .malformedText
  | missingSession _ => .missingFile
  | undecodable _ => .undecodableFile
  | unusableKey _ => .unusableKey
  | _ => .validation

/-- The fault in words. -/
def message : Fault → String
  | currencyCode got => s!"Currency must be an uppercase ISO-4217 code, got {got.quoted}"
  | amountKind kind => s!"Money amount must be a Decimal, int or str, got {kind}"
  | amountUnreadable got => s!"Could not parse money amount {got.quoted}"
  | amountParts refusal => refusal.text
  | amountNotFinite got => s!"Money amount must be finite, got {got.text}"
  | amountOutOfRange got => s!"Money amount out of range: {got.text}"
  | amountNegative got => s!"Money amount cannot be negative: {got.text}"
  | differenceNegative left right =>
    s!"Money subtraction would result in a negative amount ({left.text} - {right.text})"
  | notMoney kind => s!"Expected Money, got {kind}"
  | lacksPart got part => s!"'{got.fullKind}' object has no attribute '{part}'"
  | currencyMismatch context expected actual =>
    s!"Currency mismatch in {context}: expected {expected}, got {actual}"
  | trap _ | infiniteRemainder => ""
  | quantityNotWhole got => s!"quantity must be an integer, got {got.quoted}"
  | quantityNegative got => s!"quantity must be >= 0, got {got}"
  | quantityNotPositive got => s!"quantity must be > 0, got {got}"
  | itemId got => s!"item_id must be a non-blank string, got {got.quoted}"
  | notAReason got => s!"reason must be a WriteOffReason, got {got.quoted}"
  | noteNotText owner => s!"{owner} note must be a string"
  | noteTooLong owner => s!"{owner} note must be at most {longestNote} characters"
  | zeroWriteOff => "WriteOff amount must be strictly greater than zero"
  | zeroItemWriteOff id =>
    s!"ItemWriteOff amount must be strictly greater than zero for item '{id}'"
  | zeroUnitPrice id => s!"unit_price must be strictly greater than zero for item '{id}'"
  | remainingNotWhole id => s!"remaining_quantity must be an integer for item '{id}'"
  | remainingNegative id => s!"remaining_quantity must be >= 0 for item '{id}'"
  | zeroPaid id => s!"paid_amount must be strictly greater than zero for item '{id}'"
  | paidAboveGross id paid gross =>
    s!"paid_amount {paid.text} exceeds unit price x quantity ({gross.text}) for item '{id}'"
  | zeroCheckAmount => "check_amount must be strictly greater than zero"
  | noPaidItems => "paid_items must not be empty"
  | emptySelections => "selections must not be empty"
  | itemCurrency id expected actual =>
    s!"Currency mismatch in session items: item '{id}' is priced in {actual}, expected {expected}"
  | duplicateItem id => s!"Duplicate session item id '{id}'"
  | unknownItem id => s!"Selected item '{id}' not found in session items"
  | selectionAboveRemaining id selected remaining =>
    s!"Selected quantity {selected} exceeds remaining quantity {remaining} for item '{id}'"
  | zeroWhole => "whole must be > 0 for a proportional share"
  | zeroTotalCap total => s!"Total cap is zero; cannot allocate {total.text} proportionally"
  | missingCap id => s!"Missing cap for item '{id}'"
  | missingAllocation id => s!"Missing current allocation for item '{id}'"
  | fractionalRemainder got => s!"Remainder must be a whole number of cents, got {got.text}"
  | noHeadroom ids =>
    "Unable to distribute positive rounding remainder: every item is at its cap (" ++
      ", ".intercalate ids ++ ")"
  | nothingHeld ids =>
    "Unable to distribute negative rounding remainder: no item holds a cent (" ++
      ", ".intercalate ids ++ ")"
  | zeroPayableItem id => s!"Selected item '{id}' results in zero payable amount"
  | zeroNetSelected => "Total net selected amount is zero; cannot create a check quote"
  | zeroNetRemaining => "Total net remaining amount is zero; cannot apply session write-offs"
  | zeroCheck => "Check amount is zero; cannot create a check quote"
  | percentNotPositive got => s!"percent must be > 0, got {got.text}"
  | percentAboveHundred got => s!"percent must be <= 100, got {got.text}"
  | flatNotMoney got => s!"amount must be Money, got {got.quoted}"
  | zeroFlatAmount => "amount must be strictly greater than zero"
  | zeroBase => "base_amount must be greater than zero"
  | unsupportedDiscount kind => s!"Unsupported discount type: {kind}"
  | zeroReduction base =>
    s!"Calculated reduction must be strictly greater than zero (base {base.text})"
  | reductionAboveBase reduction base =>
    s!"Calculated reduction {reduction.text} must not exceed base amount {base.text}"
  | discountQuantity id => s!"quantity must be > 0 for item '{id.shown}'"
  | emptyCheckId => "check id must not be empty"
  | missingCreationTime => "created_at must not be None"
  | missingCompletionTime => "completed_at must not be None"
  | referenceNotText => "payment reference must be a string"
  | referenceBlank => "payment reference must not be blank"
  | referenceTooLong => s!"payment reference must be at most {longestReference} characters"
  | notAReference got => s!"payment reference must be a PaymentReference, got {got.quoted}"
  | wrongStatus action status => s!"{action.rule} (current: {status.word})"
  | emptyAmountText => "Empty amount string"
  | negativeAmountText text => s!"Negative amounts are not allowed: '{text}'"
  | unreadableAmountText text => s!"Could not parse amount '{text}'"
  | emptySelectionText => "Empty selection"
  | selectionQuantity quantity selection =>
    s!"Invalid quantity '{quantity}' in selection '{selection}'"
  | notADigitString text =>
    "invalid literal for int() with base 10: " ++
      String.ofList ((Text.quotedChars text.toList).take longestExcerpt)
  | longDigitString digits =>
    s!"Exceeds the limit ({longestWhole} digits) for integer string conversion: " ++
      s!"value has {digits} digits; use sys.set_int_max_str_digits() to increase the limit"
  | longWhole =>
    s!"Exceeds the limit ({longestWhole} digits) for integer string conversion; " ++
      "use sys.set_int_max_str_digits() to increase the limit"
  | missingSession path => s!"Session file not found: {path}"
  | undecodable failure => failure.text
  | notJson place => s!"Session file is not valid JSON: {place.text}"
  | documentNotRecord => "Session document must be a JSON object"
  | declaredCurrency expected got =>
    s!"Currency mismatch in session file: expected {expected}, got {got.shown}"
  | missingList key => s!"Session document is missing '{key}'"
  | notAList key => s!"'{key}' must be a list"
  | entryNotRecord location => s!"{location}: expected an object"
  | fieldNotText location key => s!"{location}: '{key}' must be a non-empty string"
  | fieldNotWhole location key => s!"{location}: '{key}' must be an integer"
  | fieldMissing location key => s!"{location}: missing '{key}'"
  | fieldInvalid location key cause => s!"{location}: invalid '{key}': {cause.message}"
  | discountForm location =>
    s!"{location}: exactly one of 'percent' or 'amount' is required"
  | reasonMissing location => s!"{location}: missing 'reason'"
  | reasonUnknown location got =>
    let allowed := ", ".intercalate (Reason.all.map Reason.word)
    s!"{location}: unknown reason '{got.shown}' (expected one of: {allowed})"
  | discountItem location got =>
    s!"{location}: item '{got.shown}' not found in session items"
  | unusableKey kind => s!"unhashable type: '{kind}'"
  | codeNotText => "currency code must be a string"
  | codeBlank => "currency code must not be blank"
  | codeMalformed got =>
    s!"currency code must be a valid ISO-4217 code (e.g. EUR), got '{got}'"
  | logLevel got => s!"Unknown log level '{got}'"

/-- The whole numbers that the message of a fault shows. -/
def wholes : Fault → List Int
  | currencyCode got | amountUnreadable got | quantityNotWhole got | itemId got | notAReason got
  | flatNotMoney got | notAReference got | discountQuantity got | declaredCurrency _ got
  | reasonUnknown _ got | discountItem _ got => got.wholes
  | quantityNegative got | quantityNotPositive got => [got]
  | selectionAboveRemaining _ selected remaining => [selected, remaining]
  | fieldInvalid _ _ cause => cause.wholes
  | _ => []

/-- The fault as it is reported: a message with too long a whole number gives way to a complaint
about its length. -/
def reported (f : Fault) : Fault :=
  if f.wholes.any fun n => pow10 longestWhole ≤ n.natAbs then .longWhole else f

end Fault

end Settlement
