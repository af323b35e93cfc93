import Settlement.Item
import Settlement.Note

/-!
# Write-offs

A write-off is no payment but an intentional reduction: a discount, a compensation, a correction. A
`WriteOff` reduces a whole tab, an `ItemWriteOff` a quantity of one item. Its amount is never zero,
and it is money: a bare decimal has no currency, and is refused for that once the other values are
checked.
-/

namespace Settlement

/-- A reason from a field that should hold one. -/
def requireReason (reason : Given Reason) : Except Fault Reason := reason.require .notAReason

/-- A reduction of a whole tab. -/
structure WriteOff where
  amount : Money
  reason : Reason
  note : Option String
  amount_pos : 0 < amount.cents

/-- A write-off from unchecked values. -/
def WriteOff.ofValues (amount : Given Money) (reason : Given Reason) (note : Value) :
    Except Fault WriteOff := do
  let reason ← requireReason reason
  let amount ← amount.positive .zeroWriteOff
  let note ← Note.normalize "WriteOff" note
  let ⟨amount, h⟩ ← amount.asking "currency"
  .ok ⟨amount, reason, note, h⟩

/-- A reduction of a quantity of one item. -/
structure ItemWriteOff where
  id : String
  quantity : Nat
  amount : Money
  reason : Reason
  note : Option String
  id_notBlank : Text.isBlankText id = false
  quantity_pos : 0 < quantity
  amount_pos : 0 < amount.cents

/-- An item write-off from unchecked values. -/
def ItemWriteOff.ofValues (id quantity : Value) (amount : Given Money) (reason : Given Reason)
    (note : Value) : Except Fault ItemWriteOff := do
  let ⟨id, hid⟩ ← requireItemId id
  let reason ← requireReason reason
  let ⟨quantity, hq⟩ ← requireQuantity quantity
  let amount ← amount.positive (.zeroItemWriteOff id)
  let note ← Note.normalize "ItemWriteOff" note
  let ⟨amount, h⟩ ← amount.asking "currency"
  .ok ⟨id, quantity, amount, reason, note, hid, hq, h⟩

end Settlement
