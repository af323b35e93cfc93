import Settlement.AmountText
import Settlement.Discount
import Settlement.Json.Reader
import Settlement.Log
import Settlement.Tab

/-!
# Session documents

A session document describes one tab: its items, the write-offs on items and on the whole, and
discounts. Only the items are required. Discounts are resolved when the document is read: one of an
item against the price of a quantity of it, by default of all that remains; one of the tab against
the price of all that remains of all items. No discount is affected by another reduction.

Documents are values that were read from a text, so that whole numbers in them are short enough to
be written again.

Write-offs stand in the order of the document, those that come from discounts behind the others.
-/

namespace Settlement

namespace Session

/-- The fields of a record. -/
abbrev Fields := List (String × Value)

/-- A field of a record; a missing one counts as null. -/
def field (fields : Fields) (key : String) : Value := (Table.findIn key fields).getD .null

/-- A list in the document; one that is not required may be missing. -/
def listField (fields : Fields) (key : String) (required : Bool) : Except Fault (List Value) :=
  match field fields key with
  | .null => if required then .error (.missingList key) else .ok []
  | .list items => .ok items
  | _ => .error (.notAList key)

/-- The fields of an entry, which must be a record. -/
def entryFields (location : String) : Value → Except Fault Fields
  | .record fields => .ok fields
  | _ => .error (.entryNotRecord location)

/-- A text that is not blank. -/
def textField (fields : Fields) (location key : String) : Except Fault String :=
  match field fields key with
  | .text s => if Text.isBlankText s then .error (.fieldNotText location key) else .ok s
  | _ => .error (.fieldNotText location key)

/-- A whole number. -/
def wholeOf (location key : String) : Value → Except Fault Int
  | .whole n => .ok n
  | _ => .error (.fieldNotWhole location key)

/-- A whole number in a field. -/
def wholeField (fields : Fields) (location key : String) : Except Fault Int :=
  wholeOf location key (field fields key)

/-- An amount as it was written: numbers count as their text. -/
def writtenAmount : Value → Value
  | .whole n => .text (toString n)
  | .real x => .text x.text
  | v => v

/-- A written amount in a field. -/
def decimalField (fields : Fields) (location key : String) : Except Fault Decimal :=
  match Table.findIn key fields with
  | none => .error (.fieldMissing location key)
  | some v => (AmountText.read (writtenAmount v)).mapError (.fieldInvalid location key)

/-- A written amount in a field, as money. -/
def moneyField (code : String) (fields : Fields) (location key : String) : Except Fault Money := do
  let x ← decimalField fields location key
  Money.ofDecimal (← Currency.ofCode code) x

/-- A reason in a field. -/
def reasonField (fields : Fields) (location : String) : Except Fault Reason :=
  match field fields "reason" with
  | .null => .error (.reasonMissing location)
  | v =>
    match Reason.ofText? v.shown with
    | some reason => .ok reason
    | none => .error (.reasonUnknown location v)

/-! ### Entries -/

/-- An item entry. -/
def readItem (code location : String) (entry : Value) : Except Fault Item := do
  let fields ← entryFields location entry
  let id ← textField fields location "id"
  let unitPrice ← moneyField code fields location "unit_price"
  let remaining ← wholeField fields location "remaining_quantity"
  Item.ofValues (.text id) (.given unitPrice) (.whole remaining)

/-- An entry for a write-off of an item. -/
def readItemWriteOff (code location : String) (entry : Value) : Except Fault ItemWriteOff := do
  let fields ← entryFields location entry
  let id ← textField fields location "item_id"
  let quantity ← wholeField fields location "quantity"
  let amount ← moneyField code fields location "amount"
  let reason ← reasonField fields location
  ItemWriteOff.ofValues (.text id) (.whole quantity) (.given amount) (.given reason)
    (field fields "note")

/-- An entry for a write-off of the tab. -/
def readWriteOff (code location : String) (entry : Value) : Except Fault WriteOff := do
  let fields ← entryFields location entry
  let amount ← moneyField code fields location "amount"
  let reason ← reasonField fields location
  WriteOff.ofValues (.given amount) (.given reason) (field fields "note")

/-- The discount in an entry: a percentage or a flat amount, but not both. -/
def readDiscount (code location : String) (fields : Fields) : Except Fault Discount := do
  let hasPercent := (Table.findIn "percent" fields).isSome
  let hasAmount := (Table.findIn "amount" fields).isSome
  if hasPercent = hasAmount then .error (.discountForm location)
  else
    let reason ← reasonField fields location
    let note := field fields "note"
    if hasPercent then
      let x ← decimalField fields location "percent"
      Discount.percent (.decimal (.finite x)) (.given reason) note
    else
      let amount ← moneyField code fields location "amount"
      Discount.flat (.given amount) (.given reason) note

/-- Reads the entries of a list one after the other; a location names the list and the position. -/
def readEntries {α : Type} (read : String → Value → Except Fault α) (key : String)
    (position : Nat) : List Value → Except Fault (List α)
  | [] => .ok []
  | entry :: rest => do
    let first ← read s!"{key}[{position}]" entry
    .ok (first :: (← readEntries read key (position + 1) rest))

/-! ### Discounts -/

/-- Adds the prices of all that remains of items to a total. -/
def addRemaining (total : Money) : List Item → Except Fault Money
  | [] => .ok total
  | item :: rest => do
    let gross ← item.gross item.remaining
    gross.requireCurrency total.currency.code "session items"
    addRemaining (← total.plus gross) rest

/-- The price of all that remains of all items. -/
def grossRemaining (code : String) (items : List Item) : Except Fault Money := do
  addRemaining (.zero (← Currency.ofCode code)) items

/-- The item that a discount refers to. -/
def discountedItem (items : List Item) (location : String) : Value → Except Fault Item
  | .text id =>
    match Quote.lastItem? items id with
    | some item => .ok item
    | none => .error (.discountItem location (.text id))
  | .list items => .error (.unusableKey (Value.list items).kind)
  | .record fields => .error (.unusableKey (Value.record fields).kind)
  | v => .error (.discountItem location v)

/-- A write-off of an item or of the tab. -/
inductive Resolved where
  | ofItem (w : ItemWriteOff)
  | ofTab (w : WriteOff)

/-- A discount entry resolved against the items. -/
def resolveDiscount (code : String) (items : List Item) (location : String) (entry : Value) :
    Except Fault Resolved := do
  let fields ← entryFields location entry
  let discount ← readDiscount code location fields
  match field fields "item_id" with
  | .null =>
    let base ← grossRemaining code items
    .ok (.ofTab (← discount.toWriteOff base))
  | id =>
    let item ← discountedItem items location id
    let quantity ← wholeOf location "quantity"
      ((Table.findIn "quantity" fields).getD (.whole item.remaining))
    let base ← item.unitPrice.timesValue (.whole quantity)
    .ok (.ofItem (← discount.toItemWriteOff id (.whole quantity) base))

/-- The write-offs of items among resolved discounts. -/
def itemWriteOffsOf (resolved : List Resolved) : List ItemWriteOff :=
  resolved.filterMap fun
    | .ofItem w => some w
    | .ofTab _ => none

/-- The write-offs of the tab among resolved discounts. -/
def writeOffsOf (resolved : List Resolved) : List WriteOff :=
  resolved.filterMap fun
    | .ofItem _ => none
    | .ofTab w => some w

/-! ### Documents -/

/-- Refuses a document that declares another currency. -/
def checkCurrency (code : String) : Value → Except Fault Unit
  | .null => .ok ()
  | .text s =>
    if s = code then .ok () else .error (.declaredCurrency code (.text s))
  | v => .error (.declaredCurrency code v)

/-- The tab that a document describes, with all amounts in the currency with this code. -/
def readTab (code : String) : Value → Except Fault Tab
  | .record fields => do
    checkCurrency code (field fields "currency")
    let items ← readEntries (readItem code) "items" 0 (← listField fields "items" true)
    let itemWriteOffs ← readEntries (readItemWriteOff code) "item_write_offs" 0
      (← listField fields "item_write_offs" false)
    let writeOffs ← readEntries (readWriteOff code) "write_offs" 0
      (← listField fields "write_offs" false)
    let resolved ← readEntries (resolveDiscount code items) "discounts" 0
      (← listField fields "discounts" false)
    .ok ⟨code, items, itemWriteOffs ++ itemWriteOffsOf resolved, writeOffs ++ writeOffsOf resolved⟩
  | _ => .error .documentNotRecord

/-- The tab in a session file, if there is such a file. -/
def load (code path : String) (contents : Option ByteArray) : Except Fault Tab :=
  match contents with
  | none => .error (.missingSession path)
  | some octets => do readTab code (← Json.read octets)

/-- A path as it is shown: without parts that are empty or a single point. -/
def shownPath (path : String) : String :=
  let parts := (path.splitOn "/").filter fun part => part != "" && part != "."
  if path.startsWith "/" then "/" ++ "/".intercalate parts
  else if parts.isEmpty then "." else "/".intercalate parts

/-- What is said about a session file that was read. -/
def announcement (path : String) (tab : Tab) : Log.Record where
  severity := .info
  source := "tabsettle.domain.session_import"
  message :=
    s!"Loaded session file {shownPath path}: {tab.items.length} items, " ++
      s!"{tab.itemWriteOffs.length} item write-offs, {tab.writeOffs.length} write-offs"

end Session

end Settlement
