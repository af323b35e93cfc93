import Settlement.Tab

/-!
# Paying a tab in rounds

One payer after the other asks to settle a selection. A quote that succeeds takes its quantities off
the items of the tab; one that fails changes nothing, and so does a request whose selection could
not be read. The write-offs on the tab stay as they are.
-/

namespace Settlement

/-- What a payer asks for in a round: selections, or why they could not be read. -/
abbrev Request := Except Fault (List Selection)

namespace Tab

/-- The quantity that a quote pays for an id. -/
def paidQuantity (q : Quote) (id : String) : Nat :=
  (q.items.filter fun p => p.id == id).foldl (fun n p => n + p.quantity) 0

/-- The tab after a quote is paid. -/
def settle (tab : Tab) (q : Quote) : Tab :=
  { tab with items := tab.items.map fun item => item.takeOff (paidQuantity q item.id) }

/-- One round: the quote for a request, and the tab after it. -/
def round (tab : Tab) (request : Request) : Except Fault Quote × Tab :=
  match request >>= tab.quote with
  | .ok q => (.ok q, tab.settle q)
  | .error f => (.error f, tab)

/-- The rounds of a run, and the tab at its end. -/
def run (tab : Tab) : List Request → List (Except Fault Quote) × Tab
  | [] => ([], tab)
  | request :: rest =>
    let (first, tab) := tab.round request
    let (others, tab) := run tab rest
    (first :: others, tab)

/-- The records of a run. -/
def runJournal (tab : Tab) : List Request → List Log.Record
  | [] => []
  | request :: rest =>
    let records := match request with
      | .ok selections => tab.journal selections
      | .error _ => []
    records ++ runJournal (tab.round request).2 rest

end Tab

end Settlement
