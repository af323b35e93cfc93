import Settlement.Item

/-!
# Quotes

A `Quote` says what a payer is to pay: an amount, and what of it each item takes. A `PaidItem` never
pays more than its price; it pays less where write-offs were allocated to it.
-/

namespace Settlement

/-- What a quote or a check pays for one item. -/
structure PaidItem where
  id : String
  quantity : Nat
  unitPrice : Money
  paid : Money
  id_notBlank : Text.isBlankText id = false
  quantity_pos : 0 < quantity
  paid_pos : 0 < paid.cents
  currency_eq : unitPrice.currency = paid.currency
  paid_le : paid.cents ≤ unitPrice.cents * quantity
  gross_lt : unitPrice.cents * quantity < Money.bound

namespace PaidItem

/-- The price of the paid quantity. -/
def gross (p : PaidItem) : Money :=
  ⟨p.unitPrice.currency, p.unitPrice.cents * p.quantity, p.gross_lt⟩

/-- A paid item with a known id, of a known quantity. -/
def create (id : { id : String // Text.isBlankText id = false }) (quantity : { n : Nat // 0 < n })
    (unitPrice : Money) (paid : Money.Positive) : Except Fault PaidItem :=
  if hc : unitPrice.currency = paid.val.currency then
    match h : unitPrice.times quantity with
    | .error f => .error f
    | .ok most =>
      if hle : paid.val.cents ≤ most.cents then
        have hmost := (Money.ofCents_eq_ok_iff.1 h).2
        .ok ⟨id, quantity, unitPrice, paid, id.2, quantity.2, paid.2, hc, hmost ▸ hle,
          hmost ▸ most.lt_bound⟩
      else .error (.paidAboveGross id paid most)
  else
    .error (.currencyMismatch s!"paid item '{id.val}'" unitPrice.currency.code
      paid.val.currency.code)

/-- A paid item from unchecked values. -/
def ofValues (id quantity : Value) (unitPrice paid : Given Money) : Except Fault PaidItem := do
  let id ← requireItemId id
  let quantity ← requireQuantity quantity
  let paid ← paid.positive (.zeroPaid id)
  create id quantity (← unitPrice.asking "currency") (← paid.asking "currency")

end PaidItem

/-- What a payer is to pay. -/
structure Quote where
  amount : Money
  items : List PaidItem
  amount_pos : 0 < amount.cents
  items_ne_nil : items ≠ []
  currency_eq : ∀ item ∈ items, item.paid.currency = amount.currency

namespace Quote

/-- A quote of an amount and what its items take of it. -/
def create (amount : Money) (items : List PaidItem) : Except Fault Quote :=
  if ha : 0 < amount.cents then
    if hi : items ≠ [] then
      match h : items.find? fun item => item.paid.currency ≠ amount.currency with
      | some item =>
        .error (.currencyMismatch s!"paid item '{item.id}'" amount.currency.code
          item.paid.currency.code)
      | none => .ok ⟨amount, items, ha, hi, by simpa using h⟩
    else .error .noPaidItems
  else .error .zeroCheckAmount

def currency (q : Quote) : Currency := q.amount.currency

end Quote

end Settlement
