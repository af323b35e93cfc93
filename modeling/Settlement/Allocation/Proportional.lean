import Settlement.Allocation.Remainder
import Settlement.Allocation.Share

/-!
# Proportional allocation

An amount is spread over items in proportion to their caps, in cents, and no item is given more than
its cap. Each share is rounded by itself and held down to its cap; what that leaves over or gives
out too much is distributed cent by cent.
-/

namespace Settlement.Allocation

/-- Shares rounded to cents, and the cents by which they miss the total. -/
structure Plan where
  caps : Table Money
  shares : List Share
  rounded : Table Money
  remainder : Int

/-- The share of one cap in the total. -/
def rawShare (total totalCap cap : Money) : Except Fault Decimal :=
  proportion total.amount cap.amount totalCap.amount

/-- Shares and their roundings for a total that is not zero. -/
def planShares (total : Money) (caps : Table Money) : Except Fault Plan := do
  let totalCap ← Money.sum total.currency "caps" caps.values
  if totalCap.isZero then .error (.zeroTotalCap total)
  else
    let raw ← caps.traverse fun _ cap => rawShare total totalCap cap
    let shares := raw.entries.map fun e => ⟨e.1, .finite e.2⟩
    let rounded ← caps.traverse fun id cap => do
      match raw.find? id with
      | none => .error (.missingAllocation id)
      | some x => (← Money.ofDecimal total.currency x).min cap
    let given ← Money.sum total.currency Money.sumContext rounded.values
    .ok ⟨caps, shares, rounded, total.cents - given.cents⟩

/-- The plan for spreading a total over caps, all in the currency with this code. -/
def plan (code : String) (total : Money) (caps : Table Money) : Except Fault Plan := do
  total.requireCurrency code "total to allocate"
  let _ ← caps.traverse fun id cap => cap.requireCurrency code s!"cap for item '{id}'"
  if total.isZero then .ok ⟨caps, [], caps.map fun _ _ => .zero total.currency, 0⟩
  else planShares total caps

/-- The plan carried out: its roundings, with the remainder distributed. -/
def Plan.settle (code : String) (p : Plan) : Distribution.Outcome :=
  if p.remainder = 0 then ⟨p.rounded, none, []⟩
  else
    Distribution.run code (.finite (.ofHundredths p.remainder)) (.ofMoney p.caps) p.shares p.rounded

/-- Spreads a total over items in proportion to their caps. -/
def allocate (code : String) (total : Money) (caps : Table Money) : Except Fault (Table Money) := do
  ((← plan code total caps).settle code).result

/-- What an allocation has to say. -/
def journal (code : String) (total : Money) (caps : Table Money) : List Log.Record :=
  match plan code total caps with
  | .error _ => []
  | .ok p => (p.settle code).journal

end Settlement.Allocation
