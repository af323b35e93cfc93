import Settlement.Money.Arithmetic
import Settlement.Table

/-!
# Caps

A cap is the most that an item may be given. Caps come from a caller, by item, and are looked at one
by one: an item without a cap, or with null in its place, is refused when its cap is asked for; a
cap that is not money is refused when an amount is held against it.
-/

namespace Settlement

/-- The caps of items. -/
abbrev Caps := Table (Given Money)

namespace Caps

/-- Caps that are money. -/
def ofMoney (caps : Table Money) : Caps := caps.map fun _ cap => .given cap

/-- The cap of an item, which must be there. -/
def require (caps : Caps) (id : String) : Except Fault (Given Money) :=
  match caps.find? id with
  | none | some (.other .null) => .error (.missingCap id)
  | some cap => .ok cap

/-- Among caps that are money, only one that is not listed is missing. -/
theorem require_ofMoney (caps : Table Money) (id : String) :
    (ofMoney caps).require id =
      match caps.find? id with
      | none => .error (.missingCap id)
      | some cap => .ok (.given cap) := by
  unfold require ofMoney
  rw [Table.find?_map]
  cases caps.find? id <;> rfl

end Caps

/-- Whether an amount is within a cap. -/
def Money.isWithin (m : Money) (cap : Given Money) : Except Fault Bool := do m.atMost (← cap.money)

/-- An amount held down to a cap. -/
def Money.heldTo (m : Money) (cap : Given Money) : Except Fault Money := do m.min (← cap.money)

end Settlement
