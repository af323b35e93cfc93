import Settlement.Proofs.Balance
import Settlement.Proofs.UncheckedValues

/-!
# What a quote pays

The paid items of a quote are the selected ones, each with its price and with what is left of it
after all write-offs (`PaysFor`). A payment is refused for the first item of which nothing is left,
and for no other cause (`paidItems_cases`).

`Quote.calculate_balanced` follows the amount of a quote through all stages: it is the price of the
selection less what item write-offs take of it, less its share in the write-offs of the tab.
-/

namespace Settlement

open Table (Within Splits)

/-! ### Paid items -/

namespace PaidItem

variable {p : PaidItem} {id : String} {quantity : ℕ} {price amount : Money}

/-- Nothing but a paid amount above the price, or in another currency, stops a paid item. -/
private theorem create_eq_ok_iff {i : { id : String // Text.isBlankText id = false }}
    {n : { n : ℕ // 0 < n }} {paid : Money.Positive} :
    create i n price paid = .ok p ↔
      p.id = i ∧ p.quantity = n ∧ p.unitPrice = price ∧ p.paid = paid := by
  rw [create]
  constructor
  · intro h
    split_ifs at h with hcur
    split at h
    · cases h
    · split_ifs at h
      cases h
      exact ⟨rfl, rfl, rfl, rfl⟩
  · -- the checks are those that every paid item carries
    obtain ⟨i, hi⟩ := i
    obtain ⟨n, hn⟩ := n
    obtain ⟨paid, hpaid⟩ := paid
    rintro ⟨rfl, rfl, rfl, rfl⟩
    rw [dif_pos p.currency_eq]
    have htimes : p.unitPrice.times p.quantity = .ok p.gross :=
      Money.times_eq_ok_iff.2 ⟨rfl, rfl⟩
    split
    · rename_i heq
      cases heq.symm.trans htimes
    · rename_i most heq
      cases heq.symm.trans htimes
      exact dif_pos (show p.paid.cents ≤ p.gross.cents from p.paid_le)

/-- **Paid items.** A paid item that is made of values consists of them. -/
theorem ofValues_eq_ok_iff :
    ofValues (.text id) (.whole quantity) (.given price) (.given amount) = .ok p ↔
      p.id = id ∧ p.quantity = quantity ∧ p.unitPrice = price ∧ p.paid = amount := by
  constructor
  · intro h
    obtain ⟨i, hid, h⟩ := bind_eq_ok_iff.1 h
    obtain ⟨n, hquantity, h⟩ := bind_eq_ok_iff.1 h
    obtain ⟨given, hgiven, h⟩ := bind_eq_ok_iff.1 h
    obtain ⟨paid, rfl, hpaid⟩ := positive_eq_ok_iff.1 hgiven
    obtain ⟨hi, hn, hprice, hamount⟩ := create_eq_ok_iff.1 h
    refine ⟨hi.trans (requireItemId_eq_ok_iff.1 hid), ?_, hprice, hamount.trans hpaid⟩
    exact hn.trans (Nat.cast_inj.1 (requireQuantity_eq_ok_iff.1 hquantity))
  · rintro ⟨rfl, rfl, rfl, rfl⟩
    refine bind_eq_ok_iff.2 ⟨⟨_, p.id_notBlank⟩, requireItemId_eq_ok_iff.2 rfl, ?_⟩
    refine bind_eq_ok_iff.2 ⟨⟨_, p.quantity_pos⟩, requireQuantity_eq_ok_iff.2 rfl, ?_⟩
    refine bind_eq_ok_iff.2 ⟨_, positive_eq_ok_iff.2 ⟨⟨_, p.paid_pos⟩, rfl, rfl⟩, ?_⟩
    exact create_eq_ok_iff.2 ⟨rfl, rfl, rfl, rfl⟩

/-- There is a paid item of any amount above nothing that is within the price. -/
theorem exists_ofValues (hid : Text.isBlankText id = false) (hquantity : 0 < quantity)
    (hcur : price.currency = amount.currency) (hpos : 0 < amount.cents)
    (hle : amount.cents ≤ price.cents * quantity) (hlt : price.cents * quantity < Money.bound) :
    ∃ p, ofValues (.text id) (.whole quantity) (.given price) (.given amount) = .ok p :=
  ⟨⟨id, quantity, price, amount, hid, hquantity, hpos, hcur, hle, hlt⟩,
    ofValues_eq_ok_iff.2 ⟨rfl, rfl, rfl, rfl⟩⟩

end PaidItem

/-! ### The items of a quote -/

namespace Quote

variable {ctx : Context} {paid : Table Money} {items : List PaidItem}

/-- A paid item **pays for** a selected quantity of an item what is found for it in a table. -/
def PaysFor (ctx : Context) (paid : Table Money) (e : String × ℕ) (p : PaidItem) : Prop :=
  p.id = e.1 ∧ p.quantity = e.2 ∧ paid.find? e.1 = some p.paid ∧
    ∃ item, ctx.items.find? e.1 = some item ∧ p.unitPrice = item.unitPrice

/-- Each selected item is paid for, in the order of the selection. -/
theorem paysFor_of_paidItems {l : List (String × ℕ)} (h : paidItems ctx paid l = .ok items) :
    List.Forall₂ (PaysFor ctx paid) l items := by
  induction l generalizing items with
  | nil =>
    cases h
    exact .nil
  | cons e l ih =>
    obtain ⟨id, quantity⟩ := e
    rw [paidItems] at h
    split at h
    · cases h
    · rename_i amount hamount
      split_ifs at h with hzero
      obtain ⟨item, hitem, h⟩ := bind_eq_ok_iff.1 h
      obtain ⟨p, hp, h⟩ := bind_eq_ok_iff.1 h
      obtain ⟨rest, hrest, h⟩ := bind_eq_ok_iff.1 h
      cases h
      obtain ⟨hid, hquantity, hprice, hpaid⟩ := PaidItem.ofValues_eq_ok_iff.1 hp
      have hfind := Context.item_eq_ok_iff.1 hitem
      exact .cons ⟨hid, hquantity, hpaid ▸ hamount, item, hfind, hprice⟩ (ih hrest)

/-- Items that pay for the selected ones are the paid items. -/
theorem paidItems_of_paysFor {l : List (String × ℕ)}
    (h : List.Forall₂ (PaysFor ctx paid) l items) : paidItems ctx paid l = .ok items := by
  induction h with
  | nil => rfl
  | @cons e p l items hp _ ih =>
    obtain ⟨id, quantity⟩ := e
    obtain ⟨hid, hquantity, hpaid, item, hitem, hprice⟩ := hp
    have hvalues := PaidItem.ofValues_eq_ok_iff.2 ⟨hid, hquantity, hprice, rfl⟩
    rw [paidItems, hpaid]
    simp only [Money.isZero_eq_false_iff.2 p.paid_pos, bind, Except.bind,
      Context.item_eq_ok_iff.2 hitem, hvalues, ih]
    rfl

/-- The amounts of paid items are those of the table that they are paid from. -/
theorem sum_paid_eq {l : List (String × ℕ)} (h : List.Forall₂ (PaysFor ctx paid) l items) :
    (items.map fun p => p.paid.cents) = (l.map Prod.fst).map paid.centsAt := by
  induction h with
  | nil => rfl
  | cons hp _ ih =>
    rw [List.map_cons, List.map_cons, List.map_cons, ih, Table.centsAt_of_find? hp.2.2.1]

theorem ids_eq {l : List (String × ℕ)} (h : List.Forall₂ (PaysFor ctx paid) l items) :
    items.map PaidItem.id = l.map Prod.fst := by
  induction h with
  | nil => rfl
  | cons hp _ ih => rw [List.map_cons, List.map_cons, ih, hp.1]

theorem exists_entry {l : List (String × ℕ)} (h : List.Forall₂ (PaysFor ctx paid) l items)
    {p : PaidItem} (hp : p ∈ items) : ∃ e ∈ l, PaysFor ctx paid e p := by
  induction h with
  | nil => cases hp
  | cons hfirst _ ih =>
    rcases List.mem_cons.1 hp with rfl | hrest
    · exact ⟨_, List.mem_cons_self, hfirst⟩
    · obtain ⟨e, he, hpays⟩ := ih hrest
      exact ⟨e, List.mem_cons_of_mem _ he, hpays⟩

theorem of_create {amount : Money} {q : Quote} (h : create amount items = .ok q) :
    q.amount = amount ∧ q.items = items := by
  rw [create] at h
  split_ifs at h
  split at h
  · cases h
  · cases h
    exact ⟨rfl, rfl⟩

/-- A quote from a balance pays what is left of the net amounts after the share. -/
theorem of_ofBalance {b : Balance} {q : Quote} (h : ofBalance ctx b = .ok q) :
    ∃ off paid, Allocation.allocate ctx.currency.code b.share b.netSelected = .ok off ∧
      subtractPerItem b.netSelected off = .ok paid ∧
      List.Forall₂ (PaysFor ctx paid) ctx.selected.entries q.items ∧
      Money.sum ctx.currency Money.sumContext paid.values = .ok q.amount := by
  rw [ofBalance] at h
  obtain ⟨off, hoff, h⟩ := bind_eq_ok_iff.1 h
  obtain ⟨paid, hpaid, h⟩ := bind_eq_ok_iff.1 h
  rw [assemble] at h
  obtain ⟨items, hitems, h⟩ := bind_eq_ok_iff.1 h
  obtain ⟨amount, hamount, h⟩ := bind_eq_ok_iff.1 h
  split_ifs at h
  obtain ⟨rfl, rfl⟩ := of_create h
  exact ⟨off, paid, hoff, hpaid, paysFor_of_paidItems hitems, hamount⟩

variable {currency : Currency} {tab : List Item} {selections : List Selection}
  {itemWriteOffs : List ItemWriteOff} {writeOffs : List WriteOff} {q : Quote} {s : Stages}
  {b : Balance} {off net : Table Money}

/-- The share of a selection is in the currency of its net amounts. -/
theorem currency_share (hs : s.Of ctx itemWriteOffs writeOffs) (hb : b.Reached ctx s off net) :
    b.share.currency = ctx.currency := by
  rw [(shareOfTotal_of_ok hb.share).2.1, hb.writeOffTotal]
  exact (Money.sum_eq_ok_iff.1 hs.writeOffTotal).2.1

/-- The net amounts of a selection split into its share and what is paid. -/
theorem splits_paid (hctx : ctx.Valid) (hs : s.Of ctx itemWriteOffs writeOffs)
    (hb : b.Reached ctx s off net) {share : Table Money}
    (hshare : Allocation.allocate ctx.currency.code b.share b.netSelected = .ok share)
    (hpaid : subtractPerItem b.netSelected share = .ok paid) :
    Splits b.netSelected share paid ∧ share.cents = b.share.cents ∧
      paid.InCurrency ctx.currency := by
  have hnet : b.netSelected.InCurrency ctx.currency := by
    rw [hb.netSelected]
    exact hs.inCurrency_netSelected hctx
  rw [← currency_share hs hb] at hshare hnet ⊢
  obtain ⟨hwithin, hsum⟩ := Allocation.within_of_allocate hnet hshare
  exact ⟨splits_of_subtract hwithin.keys hpaid, hsum,
    inCurrency_of_subtract hwithin.keys hnet hpaid⟩

/-- What is charged is what the share leaves of the net amount of a selection. -/
theorem amount_add_share (hctx : ctx.Valid) (hs : s.Of ctx itemWriteOffs writeOffs)
    (hb : b.Reached ctx s off net) (h : ofBalance ctx b = .ok q) :
    q.amount.cents + b.share.cents = b.netSelectedTotal.cents := by
  obtain ⟨share, paid, hshare, hpaid, -, hsum⟩ := of_ofBalance h
  obtain ⟨hsplits, hgiven, hcur⟩ := splits_paid hctx hs hb hshare hpaid
  have hnet : b.netSelected.InCurrency ctx.currency := by
    rw [hb.netSelected]
    exact hs.inCurrency_netSelected hctx
  have hamount := ((Money.sum_values_eq_ok_iff hcur).1 hsum).2
  have htotal := ((Money.sum_values_eq_ok_iff hnet).1 hb.netSelectedTotal).2
  have := hsplits.cents
  omega

/-- A quote that is calculated is reached through the stages of its selection: something is left of
each selected item, its items pay for the selected ones, and it is charged what its share leaves of
its net amount. -/
theorem exists_stages (h : calculate currency tab selections itemWriteOffs writeOffs = .ok q) :
    ∃ ctx s b off net paid, Context.create currency tab selections = .ok ctx ∧
      Stages.Of s ctx itemWriteOffs writeOffs ∧ Balance.Reached b ctx s off net ∧
      (∀ id ∈ ctx.selected.keys, 0 < s.netSelected.centsAt id) ∧
      List.Forall₂ (PaysFor ctx paid) ctx.selected.entries q.items ∧
      q.amount.cents + b.share.cents = b.netSelectedTotal.cents := by
  obtain ⟨ctx, hcreate, h⟩ := bind_eq_ok_iff.1 h
  obtain ⟨b, hbalance, h⟩ := bind_eq_ok_iff.1 h
  have hctx := Context.valid_of_create hcreate
  obtain ⟨s, off, net, hs, hb, hnone⟩ := Balance.exists_stages hbalance
  obtain ⟨share, paid, -, -, hpays, -⟩ := of_ofBalance h
  exact ⟨ctx, s, b, off, net, paid, hcreate, hs, hb, (hs.netSelected_pos hctx hnone).1, hpays,
    amount_add_share hctx hs hb h⟩

/-- The items of a quote stand in the order in which they were first mentioned. -/
theorem ids_of_calculate (h : calculate currency tab selections itemWriteOffs writeOffs = .ok q) :
    q.items.map PaidItem.id = (selections.map Selection.id).eraseDups := by
  obtain ⟨ctx, _, _, _, _, _, hcreate, -, -, -, hpays, -⟩ := exists_stages h
  obtain ⟨-, hselected, -⟩ := Context.of_create hcreate
  rw [ids_eq hpays, ← Context.keys_consolidate, ← hselected]
  rfl

/-- No item is paid for twice. -/
theorem nodup_ids (h : calculate currency tab selections itemWriteOffs writeOffs = .ok q) :
    (q.items.map PaidItem.id).Nodup := by
  rw [ids_of_calculate h, ← Context.keys_consolidate]
  exact Table.nodup_keys _

/-- A quote is charged in the currency that it is calculated in, as its items are priced in it. -/
theorem currency_of_calculate
    (h : calculate currency tab selections itemWriteOffs writeOffs = .ok q) :
    q.amount.currency = currency := by
  obtain ⟨ctx, _, _, _, _, _, hcreate, -, -, -, hpays, -⟩ := exists_stages h
  obtain ⟨p, hp⟩ := List.exists_mem_of_ne_nil _ q.items_ne_nil
  obtain ⟨e, -, -, -, -, item, hitem, hprice⟩ := exists_entry hpays hp
  calc q.amount.currency = p.paid.currency := (q.currency_eq p hp).symm
    _ = item.unitPrice.currency := by rw [← p.currency_eq, hprice]
    _ = ctx.currency := (Context.valid_of_create hcreate).priced e.1 item hitem
    _ = currency := (Context.of_create hcreate).1

/-- A selected quantity that is paid for is the sum of its mentions, of an item of the tab. -/
private theorem of_paysFor (hcreate : Context.create currency tab selections = .ok ctx)
    {e : String × ℕ} {p : PaidItem} (he : e ∈ ctx.selected.entries) (hp : PaysFor ctx paid e p) :
    p.quantity = Context.quantityOf selections p.id ∧
      ∃ item ∈ tab, item.id = p.id ∧ (∀ other ∈ tab, other.id = p.id → other = item) ∧
        p.unitPrice = item.unitPrice ∧ p.quantity ≤ item.remaining := by
  obtain ⟨-, hselected, hitems, -, -, hremains⟩ := Context.of_create hcreate
  obtain ⟨hid, hquantity, -, item, hitem, hprice⟩ := hp
  have hfind := Table.find?_eq_some_iff.2 he
  obtain ⟨item', hitem', hle⟩ := hremains e.1 e.2 hfind
  cases hitem.symm.trans hitem'
  rw [← hid] at hitem hfind
  obtain ⟨hmem, hitemid⟩ := (hitems p.id item).1 hitem
  refine ⟨?_, item, hmem, hitemid, fun other hother hotherid => ?_, hprice, hquantity ▸ hle⟩
  · rw [hselected, Context.find?_consolidate] at hfind
    split_ifs at hfind
    rw [hquantity, Option.some.inj hfind]
  · have hsame := (hitems p.id other).2 ⟨hother, hotherid⟩
    exact Option.some.inj (hsame.symm.trans hitem)

/-- Each paid item is paid for in the quantity that is selected of it. -/
theorem quantity_of_calculate
    (h : calculate currency tab selections itemWriteOffs writeOffs = .ok q) :
    ∀ p ∈ q.items, p.quantity = Context.quantityOf selections p.id := by
  obtain ⟨ctx, _, _, _, _, _, hcreate, -, -, -, hpays, -⟩ := exists_stages h
  intro p hp
  obtain ⟨e, he, hpay⟩ := exists_entry hpays hp
  exact (of_paysFor hcreate he hpay).1

/-- **Balance of a quote.** A quote pays for the selected items, in the order of their first mention
and in the quantities of all mentions, at the prices of the tab; every item pays something, and at
most its price. Its amount is the exact sum of what the items pay: the price of the selection less
what item write-offs take of it and less its share in the write-offs of the tab. No cent is created
or lost where write-offs are taken off the selection, off all that remains, and off the net amounts
of the selection. -/
theorem calculate_balanced
    (h : calculate currency tab selections itemWriteOffs writeOffs = .ok q) :
    q.items.map PaidItem.id = (selections.map Selection.id).eraseDups ∧
    (∀ p ∈ q.items, p.quantity = Context.quantityOf selections p.id ∧
      (∃ item ∈ tab, item.id = p.id ∧ (∀ other ∈ tab, other.id = p.id → other = item) ∧
        p.unitPrice = item.unitPrice ∧ p.quantity ≤ item.remaining) ∧
      p.paid.currency = currency ∧ 0 < p.paid.cents ∧
      p.paid.cents ≤ p.unitPrice.cents * p.quantity) ∧
    q.amount.currency = currency ∧
    q.amount.cents = (q.items.map fun p => p.paid.cents).sum ∧
    ∃ ctx s b offRemaining netRemaining share paid,
      Context.create currency tab selections = .ok ctx ∧
      Stages.Of s ctx itemWriteOffs writeOffs ∧
      Balance.Reached b ctx s offRemaining netRemaining ∧
      Allocation.allocate currency.code b.share b.netSelected = .ok share ∧
      subtractPerItem b.netSelected share = .ok paid ∧
      (∀ p ∈ q.items, paid.find? p.id = some p.paid) ∧
      Splits s.grossSelected s.offSelected b.netSelected ∧
      Splits s.grossRemaining offRemaining netRemaining ∧
      Splits b.netSelected share paid ∧
      q.amount.cents + s.offSelected.cents + b.share.cents = s.grossSelected.cents := by
  obtain ⟨ctx, hcreate, h⟩ := bind_eq_ok_iff.1 h
  obtain ⟨b, hbalance, h⟩ := bind_eq_ok_iff.1 h
  have hctx := Context.valid_of_create hcreate
  obtain ⟨hcurrency, hselected, -⟩ := Context.of_create hcreate
  obtain ⟨s, off, net, hs, hb, -⟩ := Balance.exists_stages hbalance
  obtain ⟨share, paid, hshare, hpaid, hpays, hsum⟩ := of_ofBalance h
  obtain ⟨hsplits, hgiven, hpaidcur⟩ := splits_paid hctx hs hb hshare hpaid
  obtain ⟨hamountcur, hamount⟩ := (Money.sum_values_eq_ok_iff hpaidcur).1 hsum
  have hpaidkeys : paid.keys = ctx.selected.keys := by
    rw [hsplits.left_keys, hb.netSelected, hs.keys_netSelected]
  have hselectedsplits : Splits s.grossSelected s.offSelected b.netSelected :=
    hb.netSelected ▸ hs.splits_selected
  -- all tables have the keys of the selection, so that amounts are compared item by item
  rw [hcurrency] at hamountcur hpaidcur hshare
  refine ⟨?_, fun p hp => ?_, hamountcur, ?_, ctx, s, b, off, net, share, paid, hcreate, hs, hb,
    hshare, hpaid, fun p hp => ?_, hselectedsplits, hb.splits_remaining hs, hsplits, ?_⟩
  · rw [ids_eq hpays, ← Context.keys_consolidate, ← hselected]
    rfl
  · obtain ⟨e, he, hpay⟩ := exists_entry hpays hp
    obtain ⟨hquantity, hitem⟩ := of_paysFor hcreate he hpay
    exact ⟨hquantity, hitem, hpaidcur e.1 p.paid hpay.2.2.1, p.paid_pos, p.paid_le⟩
  · rw [hamount, Table.cents_eq_sum_centsAt, hpaidkeys, sum_paid_eq hpays]
    rfl
  · obtain ⟨e, -, hid, -, hfind, -⟩ := exists_entry hpays hp
    rwa [hid]
  · have hpaidsum := hsplits.cents
    have hnetsum := hselectedsplits.cents
    omega

/-- Two teas, a cake and a third tea, with write-offs of one tea and of the tab. -/
theorem calculate_balanced_tea_and_cake :
    let tab : List Item :=
      [⟨"tea", Money.euro 150 (by decide), 4, by decide, by decide⟩,
        ⟨"cake", Money.euro 275 (by decide), 2, by decide, by decide⟩]
    let selections : List Selection := [⟨"tea", 2, by decide, by decide⟩,
      ⟨"cake", 1, by decide, by decide⟩, ⟨"tea", 1, by decide, by decide⟩]
    let itemWriteOffs : List ItemWriteOff :=
      [⟨"tea", 1, Money.euro 30 (by decide), .discount, none, by decide, by decide, by decide⟩]
    let writeOffs : List WriteOff := [⟨Money.euro 100 (by decide), .discount, none, by decide⟩]
    ∃ q, calculate ⟨"EUR", by decide⟩ tab selections itemWriteOffs writeOffs = .ok q ∧
      q.items.map PaidItem.id = ["tea", "cake"] ∧
      q.amount.cents = (q.items.map fun p => p.paid.cents).sum := by
  intro tab selections itemWriteOffs writeOffs
  have hreturns : (calculate ⟨"EUR", by decide⟩ tab selections itemWriteOffs writeOffs).isOk =
      true := by decide +kernel
  cases hq : calculate ⟨"EUR", by decide⟩ tab selections itemWriteOffs writeOffs with
  | error f =>
    rw [hq] at hreturns
    cases hreturns
  | ok q =>
    obtain ⟨hids, -, -, hsum, -⟩ := calculate_balanced hq
    exact ⟨q, rfl, hids, hsum⟩

end Quote

end Settlement
