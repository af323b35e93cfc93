import Settlement.Allocation.Proportional
import Settlement.Allocation.WrittenOff
import Settlement.Quote.Basic

/-!
# Quoting a check

A quote is calculated in stages:

* the payer's selection is checked against the tab (`Context`);
* item write-offs reduce the gross amounts, for the selected and for the remaining quantities
  (`Balance`);
* write-offs of the whole tab reduce the selection by the share that its net amount is of the net
  outstanding balance, spread over the selected items in proportion to their net amounts;
* what is left of each item is paid, and nothing may be left at zero.
-/

namespace Settlement

/-- Subtracts from each amount of a table what another table holds for the same key. -/
def subtractPerItem (left right : Table Money) : Except Fault (Table Money) :=
  left.traverse fun id value =>
    match right.find? id with
    | none => .ok value
    | some reduction => value.minus reduction

/-- The amounts of a quote before the write-offs of the whole tab are spread. -/
structure Balance where
  writeOffTotal : Money
  netSelected : Table Money
  netSelectedTotal : Money
  netRemainingTotal : Money
  share : Money

namespace Balance

/-- Refuses a selection in which write-offs leave nothing of an item. -/
def requirePayable : List (String × Money) → Except Fault Unit
  | [] => .ok ()
  | (id, net) :: rest => if net.isZero then .error (.zeroPayableItem id) else requirePayable rest

/-- The net amounts of a selection, and its share of the write-offs of the tab. -/
def ofContext (ctx : Context) (itemWriteOffs : List ItemWriteOff) (writeOffs : List WriteOff) :
    Except Fault Balance := do
  let writeOffTotal ←
    Money.sum ctx.currency "session write-offs" (writeOffs.map WriteOff.amount)
  let grossRemaining ← ctx.grossRemaining
  let grossSelected ← ctx.grossSelected
  let written ← WrittenOff.collect ctx.currency itemWriteOffs
  let offSelected ←
    WrittenOff.allocate ctx.currency written ctx.selected (.ofMoney grossSelected)
  let netSelected ← subtractPerItem grossSelected offSelected
  requirePayable netSelected.entries
  let netSelectedTotal ← Money.sum ctx.currency Money.sumContext netSelected.values
  if netSelectedTotal.isZero then .error .zeroNetSelected
  else
    let offRemaining ←
      WrittenOff.allocate ctx.currency written ctx.remaining (.ofMoney grossRemaining)
    let netRemaining ← subtractPerItem grossRemaining offRemaining
    let netRemainingTotal ← Money.sum ctx.currency Money.sumContext netRemaining.values
    if netRemainingTotal.isZero then .error .zeroNetRemaining
    else
      let share ← shareOfTotal ctx.currency.code writeOffTotal netSelectedTotal netRemainingTotal
      .ok ⟨writeOffTotal, netSelected, netSelectedTotal, netRemainingTotal, share⟩

end Balance

namespace Quote

/-- What is paid for the selected items, in the order of the selection. -/
def paidItems (ctx : Context) (paid : Table Money) :
    List (String × Nat) → Except Fault (List PaidItem)
  | [] => .ok []
  | (id, quantity) :: rest =>
    match paid.find? id with
    | none => .error (.zeroPayableItem id)
    | some amount => do
      if amount.isZero then .error (.zeroPayableItem id)
      else
        let item ← ctx.item id
        let first ← PaidItem.ofValues (.text id) (.whole quantity) (.given item.unitPrice)
          (.given amount)
        .ok (first :: (← paidItems ctx paid rest))

/-- The quote for the amounts that are paid for the selected items. -/
def assemble (ctx : Context) (paid : Table Money) : Except Fault Quote := do
  let items ← paidItems ctx paid ctx.selected.entries
  let amount ← Money.sum ctx.currency Money.sumContext paid.values
  if amount.isZero then .error .zeroCheck else create amount items

/-- The quote for a checked selection and its balance. -/
def ofBalance (ctx : Context) (b : Balance) : Except Fault Quote := do
  let off ← Allocation.allocate ctx.currency.code b.share b.netSelected
  let paid ← subtractPerItem b.netSelected off
  assemble ctx paid

/-- The quote for a checked selection. -/
def ofContext (ctx : Context) (itemWriteOffs : List ItemWriteOff) (writeOffs : List WriteOff) :
    Except Fault Quote := do
  ofBalance ctx (← Balance.ofContext ctx itemWriteOffs writeOffs)

/-- The quote for a payer's selections from the items of a tab, with the write-offs on it. -/
def calculate (currency : Currency) (items : List Item) (selections : List Selection)
    (itemWriteOffs : List ItemWriteOff) (writeOffs : List WriteOff) : Except Fault Quote := do
  ofContext (← Context.create currency items selections) itemWriteOffs writeOffs

/-- The quote in a currency that is still unchecked. -/
def ofValues (currency : Value) (items : List Item) (selections : List Selection)
    (itemWriteOffs : List ItemWriteOff) (writeOffs : List WriteOff) : Except Fault Quote := do
  calculate (← Currency.ofValue currency) items selections itemWriteOffs writeOffs

/-! ### The gross amount of a selection -/

/-- The last item with an id. -/
def lastItem? (items : List Item) (id : String) : Option Item :=
  items.reverse.find? fun item => item.id == id

/-- Adds the prices of selections to a total. -/
def addGross (items : List Item) (total : Money) : List Selection → Except Fault Money
  | [] => .ok total
  | s :: rest =>
    match lastItem? items s.id with
    | none => .error (.unknownItem s.id)
    | some item => do addGross items (← total.plus (← item.gross s.quantity)) rest

/-- The price of a payer's selections before any write-off. -/
def grossAmount (currency : Currency) (items : List Item) (selections : List Selection) :
    Except Fault Money :=
  addGross items (.zero currency) selections

/-! ### What a calculation has to say -/

/-- What is said about a quote. -/
def announcement (b : Balance) (q : Quote) : Log.Record where
  severity := .debug
  source := "tabsettle.domain.check_amount"
  message :=
    s!"Quoted {q.amount.text} for {q.items.length} item(s) " ++
      s!"(session write-off share {b.share.text} of {b.writeOffTotal.text})"

/-- The records of a calculation, up to where it ends. -/
def journal (currency : Currency) (items : List Item) (selections : List Selection)
    (itemWriteOffs : List ItemWriteOff) (writeOffs : List WriteOff) : List Log.Record :=
  match Context.create currency items selections with
  | .error _ => []
  | .ok ctx =>
    ctx.announcement ::
      match Balance.ofContext ctx itemWriteOffs writeOffs with
      | .error _ => []
      | .ok b =>
        Allocation.journal ctx.currency.code b.share b.netSelected ++
          match ofBalance ctx b with
          | .error _ => []
          | .ok q => [announcement b q]

end Quote

end Settlement
