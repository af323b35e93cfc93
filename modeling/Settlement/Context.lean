import Settlement.Item
import Settlement.Log
import Settlement.Table

/-!
# The selection of a payer, checked against the tab

A `Context` is what a quote is calculated from: the items of the tab by id, and the quantity that
the payer selects of each, summed over all mentions of an item. The items stand in the order of the
tab, the selected quantities in the order in which the payer first mentions them.
-/

namespace Settlement

/-- Items by id and selected quantities by item, in one currency. -/
structure Context where
  currency : Currency
  items : Table Item
  selected : Table Nat

namespace Context

/-- The quantities that nobody has paid yet. -/
def remaining (ctx : Context) : Table Nat := ctx.items.map fun _ item => item.remaining

/-- Adds items to a table by id; each must be priced in the currency, and no id may come twice. -/
def indexItems (currency : Currency) (table : Table Item) : List Item → Except Fault (Table Item)
  | [] => .ok table
  | item :: rest =>
    if item.unitPrice.currency ≠ currency then
      .error (.itemCurrency item.id currency.code item.unitPrice.currency.code)
    else if (table.find? item.id).isSome then .error (.duplicateItem item.id)
    else indexItems currency (table.insert item.id item) rest

/-- The selected quantities, summed for each item. -/
def consolidate (selections : List Selection) : Table Nat :=
  selections.foldl (fun t s => t.insert s.id ((t.find? s.id).getD 0 + s.quantity)) .empty

/-- Refuses a selected quantity of an unknown item, or more of an item than remains. -/
def checkSelected (items : Table Item) : List (String × Nat) → Except Fault Unit
  | [] => .ok ()
  | (id, quantity) :: rest =>
    match items.find? id with
    | none => .error (.unknownItem id)
    | some item =>
      if item.remaining < quantity then
        .error (.selectionAboveRemaining id quantity item.remaining)
      else checkSelected items rest

/-- The context of a tab and a payer's selections. -/
def create (currency : Currency) (items : List Item) (selections : List Selection) :
    Except Fault Context := do
  if selections.isEmpty then .error .emptySelections
  else
    let table ← indexItems currency .empty items
    let selected := consolidate selections
    checkSelected table selected.entries
    .ok ⟨currency, table, selected⟩

/-- The context of a tab and a payer's selections, in a currency that is still unchecked. -/
def ofValues (currency : Value) (items : List Item) (selections : List Selection) :
    Except Fault Context := do
  create (← Currency.ofValue currency) items selections

/-- The item with an id. -/
def item (ctx : Context) (id : String) : Except Fault Item :=
  match ctx.items.find? id with
  | some item => .ok item
  | none => .error (.unknownItem id)

/-- The price of what nobody has paid yet, for every item. -/
def grossRemaining (ctx : Context) : Except Fault (Table Money) :=
  ctx.items.traverse fun _ item => item.gross item.remaining

/-- The price of what the payer selects, for every selected item. -/
def grossSelected (ctx : Context) : Except Fault (Table Money) :=
  ctx.selected.traverse fun id quantity => do (← ctx.item id).gross quantity

/-- What is said about a new context. -/
def announcement (ctx : Context) : Log.Record where
  severity := .debug
  source := "tabsettle.domain.calculation_context"
  message :=
    s!"Calculation context: {ctx.items.size} session items, {ctx.selected.size} selected items"

end Context

end Settlement
