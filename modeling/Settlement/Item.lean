import Settlement.Money.Arithmetic
import Settlement.Text.Blank

/-!
# Items and selections

An `Item` is what a tab still holds of one ordered article: its unit price, which is never zero, and
the quantity that nobody has paid yet. A `Selection` is a payer's wish to pay a positive quantity of
one item. Both are built from unchecked values, and carry what was checked.
-/

namespace Settlement

/-- An item id: any text that is not blank. -/
def requireItemId : Value → Except Fault { id : String // Text.isBlankText id = false }
  | .text s =>
    if h : Text.isBlankText s = false then .ok ⟨s, h⟩ else .error (.itemId (.text s))
  | v => .error (.itemId v)

/-- A quantity to act on: a positive whole number. -/
def requireQuantity : Value → Except Fault { n : Nat // 0 < n }
  | .whole n =>
    if h : 0 < n.toNat then .ok ⟨n.toNat, h⟩ else .error (.quantityNotPositive n)
  | v => .error (.quantityNotWhole v)

/-- The payable state of one item. -/
structure Item where
  id : String
  unitPrice : Money
  remaining : Nat
  id_notBlank : Text.isBlankText id = false
  unitPrice_pos : 0 < unitPrice.cents
  deriving DecidableEq

namespace Item

/-- What may remain of an item: any whole number that is not negative. -/
def requireRemaining (id : String) : Value → Except Fault Nat
  | .whole n => if n < 0 then .error (.remainingNegative id) else .ok n.toNat
  | _ => .error (.remainingNotWhole id)

/-- An item from unchecked values. Its price is money: a bare decimal has no currency, and is
refused for that once the other values are checked. -/
def ofValues (id : Value) (unitPrice : Given Money) (remaining : Value) : Except Fault Item := do
  let ⟨id, hid⟩ ← requireItemId id
  let unitPrice ← unitPrice.positive (.zeroUnitPrice id)
  let remaining ← requireRemaining id remaining
  let ⟨unitPrice, h⟩ ← unitPrice.asking "currency"
  .ok ⟨id, unitPrice, remaining, hid, h⟩

/-- The price of a quantity of the item. -/
def gross (item : Item) (quantity : Nat) : Except Fault Money := item.unitPrice.times quantity

/-- The item with some of its remaining quantity taken off. -/
def takeOff (item : Item) (quantity : Nat) : Item :=
  { item with remaining := item.remaining - quantity }

end Item

/-- A payer's request to pay a quantity of one item. -/
structure Selection where
  id : String
  quantity : Nat
  id_notBlank : Text.isBlankText id = false
  quantity_pos : 0 < quantity
  deriving DecidableEq

/-- A selection from unchecked values. -/
def Selection.ofValues (id quantity : Value) : Except Fault Selection := do
  let ⟨id, hid⟩ ← requireItemId id
  let ⟨quantity, hq⟩ ← requireQuantity quantity
  .ok ⟨id, quantity, hid, hq⟩

end Settlement
