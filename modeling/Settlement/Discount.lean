import Settlement.Allocation.Share
import Settlement.WriteOff.Basic

/-!
# Discounts

A discount says how a reduction is to be computed: a percentage of a base, or a flat amount. It is
resolved against a base into a reduction that is never zero and never more than the base, and the
reduction becomes a write-off of a whole tab or of one item.
-/

namespace Settlement

namespace Discount

/-- How much a discount takes. -/
inductive Size where
  /-- A percentage above zero and up to a hundred, in hundredths. -/
  | percent (hundredths : Nat) (pos : 0 < hundredths) (le : hundredths ≤ 10000)
  /-- A flat amount above zero. -/
  | flat (amount : Money) (pos : 0 < amount.cents)

end Discount

/-- A discount, with its reason and an optional note. -/
structure Discount where
  size : Discount.Size
  reason : Reason
  note : Option String

namespace Discount

/-- The owner that messages about a discount's note name. -/
def noteOwner : String := "Discount"

/-- A percentage, rounded to two places, from a value that should be one. -/
def percentOf (value : Value) : Except Fault Size := do
  let x ← Amount.normalize value
  if h : 0 < x.coefficient ∧ x.negative = false then
    if hle : x.coefficient ≤ 10000 then .ok (.percent x.coefficient h.1 hle)
    else .error (.percentAboveHundred x)
  else .error (.percentNotPositive x)

/-- A flat amount from a field that should hold one. -/
def flatOf (amount : Given Money) : Except Fault Size := do
  let amount ← amount.require .flatNotMoney
  if h : 0 < amount.cents then .ok (.flat amount h) else .error .zeroFlatAmount

/-- A discount whose reason is checked first, then its size, then its note. -/
def create (size : Except Fault Size) (reason : Given Reason) (note : Value) :
    Except Fault Discount := do
  let reason ← requireReason reason
  let size ← size
  let note ← Note.normalize noteOwner note
  .ok ⟨size, reason, note⟩

/-- A percentage discount from unchecked values. -/
def percent (value : Value) (reason : Given Reason) (note : Value) : Except Fault Discount :=
  create (percentOf value) reason note

/-- A flat discount from unchecked values. -/
def flat (amount : Given Money) (reason : Given Reason) (note : Value) : Except Fault Discount :=
  create (flatOf amount) reason note

/-- What a discount of some size takes of a base, before it is checked against the base. -/
def rawReduction (size : Size) (base : Money) : Except Fault Money :=
  match size with
  | .percent hundredths _ _ => do
    Money.ofDecimal base.currency
      (← proportion base.amount (.ofHundredths hundredths) (.ofNat 100))
  | .flat amount _ =>
    if amount.currency = base.currency then .ok amount
    else .error (.currencyMismatch "discount amount" base.currency.code amount.currency.code)

/-- What a discount takes of a base: more than nothing, and at most the base. -/
def reduction (discount : Discount) (base : Money) : Except Fault Money := do
  if base.isZero then .error .zeroBase
  else
    let r ← rawReduction discount.size base
    if r.isZero then .error (.zeroReduction base)
    else if base.cents < r.cents then .error (.reductionAboveBase r base)
    else .ok r

/-- A reduction written off the whole tab. -/
def toWriteOff (discount : Discount) (base : Money) : Except Fault WriteOff := do
  let r ← discount.reduction base
  WriteOff.ofValues (.given r) (.given discount.reason) ((discount.note.map Value.text).getD .null)

/-- Refuses a quantity that a discount cannot apply to. -/
def requireScope (id : Value) : Value → Except Fault Unit
  | .whole n => if 0 < n then .ok () else .error (.discountQuantity id)
  | _ => .error (.discountQuantity id)

/-- A reduction written off a quantity of one item; the base is the price of that quantity. -/
def toItemWriteOff (discount : Discount) (id quantity : Value) (base : Money) :
    Except Fault ItemWriteOff := do
  requireScope id quantity
  let r ← discount.reduction base
  ItemWriteOff.ofValues id quantity (.given r) (.given discount.reason)
    ((discount.note.map Value.text).getD .null)

/-! ### Fields that should hold a discount and its base -/

/-- The part of a base that a discount of some size asks for. -/
def Size.part : Size → String
  | .percent .. => "amount"
  | .flat .. => "currency"

/-- The discount and the base in fields that should hold them: a base of nothing is refused before
the discount is looked at. -/
def ofFields (discount : Given Discount) (base : Given Money) :
    Except Fault (Discount × Money) := do
  let base ← base.positive .zeroBase
  let discount ← discount.require fun v => .unsupportedDiscount v.kind
  .ok (discount, ← base.asking discount.size.part)

/-- What the discount in a field takes of a base. -/
def reductionOf (discount : Given Discount) (base : Given Money) : Except Fault Money := do
  let (discount, base) ← ofFields discount base
  discount.reduction base

/-- The discount in a field as a write-off of the whole tab. -/
def writeOffOf (discount : Given Discount) (base : Given Money) : Except Fault WriteOff := do
  let (discount, base) ← ofFields discount base
  discount.toWriteOff base

/-- The discount in a field as a write-off of a quantity of one item. -/
def itemWriteOffOf (discount : Given Discount) (id quantity : Value) (base : Given Money) :
    Except Fault ItemWriteOff := do
  requireScope id quantity
  let (discount, base) ← ofFields discount base
  discount.toItemWriteOff id quantity base

end Discount

end Settlement
