import Settlement.Quote.Calculation

/-!
# Tabs

A `Tab` is what guests run up together: items with their unpaid quantities, and the write-offs on
single items and on the whole. Payers settle it with selections, one quote at a time.
-/

namespace Settlement

/-- A tab: the code of its currency, its items, and the write-offs on them and on the whole. -/
structure Tab where
  code : String
  items : List Item
  itemWriteOffs : List ItemWriteOff
  writeOffs : List WriteOff

namespace Tab

/-- The quote for a payer's selections. -/
def quote (tab : Tab) (selections : List Selection) : Except Fault Quote := do
  Quote.calculate (← Currency.ofCode tab.code) tab.items selections tab.itemWriteOffs tab.writeOffs

/-- The records of a quote for a payer's selections. -/
def journal (tab : Tab) (selections : List Selection) : List Log.Record :=
  match Currency.ofCode tab.code with
  | .error _ => []
  | .ok currency => Quote.journal currency tab.items selections tab.itemWriteOffs tab.writeOffs

end Tab

end Settlement
