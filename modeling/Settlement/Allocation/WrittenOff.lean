import Settlement.Allocation.Cap
import Settlement.Context
import Settlement.WriteOff.Basic

/-!
# Item write-offs within a scope

Write-offs of one item are summed, amounts and quantities alike. A scope takes as much of them as
its quantity asks for: the amount per unit, at working precision, times the smaller of the scope's
quantity and the written-off quantity. The product is rounded once, and held down to the cap of the
scope.
-/

namespace Settlement

/-- All write-offs of one item, summed. -/
structure WrittenOff where
  amount : Money
  quantity : Nat
  deriving DecidableEq

namespace WrittenOff

/-- The amount per unit, with ten digits. -/
def perUnit (w : WrittenOff) : Except Fault Decimal :=
  (Precision.working.divide w.amount.amount (.ofNat w.quantity)).mapError .trap

/-- The sum with one more write-off. -/
def merge (w : WrittenOff) (next : ItemWriteOff) : Except Fault WrittenOff := do
  .ok ⟨← w.amount.plus next.amount, w.quantity + next.quantity⟩

/-- Adds write-offs to a table of sums by item. -/
def collectIn (currency : Currency) (table : Table WrittenOff) :
    List ItemWriteOff → Except Fault (Table WrittenOff)
  | [] => .ok table
  | w :: rest => do
    w.amount.requireCurrency currency.code s!"item write-offs for item '{w.id}'"
    let sum ← match table.find? w.id with
      | none => .ok ⟨w.amount, w.quantity⟩
      | some previous => previous.merge w
    collectIn currency (table.insert w.id sum) rest

/-- The sums of item write-offs by item, in the order of first mention. -/
def collect (currency : Currency) (writeOffs : List ItemWriteOff) :
    Except Fault (Table WrittenOff) :=
  collectIn currency .empty writeOffs

/-- What a scope of `quantity` units takes of the write-offs of one item, at most its cap. -/
def within (w : WrittenOff) (currency : Currency) (quantity : Nat) (cap : Given Money) :
    Except Fault Money := do
  let taken := min quantity w.quantity
  let raw ← (Precision.exact.multiply (← w.perUnit) (.ofNat taken)).mapError .trap
  (← Money.ofDecimal currency raw).heldTo cap

/-- What a scope takes of the write-offs of an item: nothing for an empty scope, or for an item
without write-offs. -/
def forItem (currency : Currency) (table : Table WrittenOff) (id : String) (quantity : Nat)
    (cap : Given Money) : Except Fault Money :=
  if quantity = 0 then .ok (.zero currency)
  else
    match table.find? id with
    | none => .ok (.zero currency)
    | some w => w.within currency quantity cap

/-- What a scope takes of the write-offs, for each of its items. -/
def allocate (currency : Currency) (table : Table WrittenOff) (quantities : Table Nat)
    (caps : Caps) : Except Fault (Table Money) :=
  quantities.traverse fun id quantity => do
    forItem currency table id quantity (← caps.require id)

end WrittenOff

end Settlement
