import Mathlib.Algebra.BigOperators.Ring.List
import Settlement.CommandLine.Run
import Settlement.Proofs.Prices
import Settlement.Proofs.SessionDocuments

/-!
# The price of a selection, mention by mention

A quote prices each selected item once, in the quantity of all its mentions. The gross amount that is
shown next to it is found in another way: `Quote.grossAmount` prices each mention by itself, by the
last item of the tab with its id, and adds it to a running total that must stay in the range of money
(`Quote.addGross_cases`). For a selection that is quoted the two agree, in whatever order and however
often the items are mentioned (`Quote.sum_mentionPrice`), and the gross amount exceeds the charge by
the cents that write-offs take of the selection (`Quote.grossAmount_of_calculate`).
-/

namespace Settlement.Quote

variable {currency : Currency} {items : List Item} {selections : List Selection}
  {itemWriteOffs : List ItemWriteOff} {writeOffs : List WriteOff} {q : Quote} {item : Item}
  {s : Selection} {total price : Money} {ctx : Context} {gross paid : Table Money}

/-! ### Mentions -/

/-- An item is the last one with its id, if no id comes twice. -/
theorem lastItem?_of_mem (h : (items.map Item.id).Nodup) (hitem : item ∈ items) :
    lastItem? items item.id = some item := by
  obtain ⟨before, after, rfl⟩ := List.append_of_mem hitem
  refine lastItem?_eq_some_iff.2 ⟨rfl, before, after, rfl, fun i hi hid => ?_⟩
  rw [List.map_append, List.map_cons, List.nodup_append] at h
  exact (List.nodup_cons.1 h.2.1).1 (hid ▸ List.mem_map_of_mem hi)

/-- The price of one mention, in cents. -/
def mentionPrice (items : List Item) (s : Selection) : ℕ :=
  ((lastItem? items s.id).map fun item => item.unitPrice.cents * s.quantity).getD 0

theorem mentionPrice_eq (h : lastItem? items s.id = some item) :
    mentionPrice items s = item.unitPrice.cents * s.quantity := by
  rw [mentionPrice, h]
  rfl

/-- A mention **has a price** if its item is known, and is priced in the currency and in range. -/
def HasPrice (currency : Currency) (items : List Item) (s : Selection) : Prop :=
  ∃ item, lastItem? items s.id = some item ∧ item.unitPrice.currency = currency ∧
    item.unitPrice.cents * s.quantity < Money.bound

private theorem addGross_cons (hitem : lastItem? items s.id = some item)
    (hprice : item.gross s.quantity = .ok price) (total : Money) (rest : List Selection) :
    addGross items total (s :: rest) =
      total.plus price >>= fun m => addGross items m rest := by
  rw [addGross, hitem]
  exact bind_of_eq_ok hprice _

/-- **Running totals.** The prices of mentions are added up exactly, unless their sum is out of
range. -/
theorem addGross_cases (h : ∀ s ∈ selections, HasPrice total.currency items s) :
    (∃ m, addGross items total selections = .ok m ∧ m.currency = total.currency ∧
        m.cents = total.cents + (selections.map (mentionPrice items)).sum) ∨
      (∃ x, addGross items total selections = .error (.amountOutOfRange x)) ∧
        Money.bound ≤ total.cents + (selections.map (mentionPrice items)).sum := by
  induction selections generalizing total with
  | nil => exact .inl ⟨total, rfl, rfl, rfl⟩
  | cons s rest ih =>
    obtain ⟨item, hitem, hcur, hlt⟩ := h s List.mem_cons_self
    obtain ⟨price, hprice⟩ := Money.exists_times hlt
    obtain ⟨hpricecur, hcents⟩ := Money.times_eq_ok_iff.1 hprice
    have hsame : total.currency = price.currency := (hpricecur.trans hcur).symm
    rw [addGross_cons hitem hprice, List.map_cons, List.sum_cons, mentionPrice_eq hitem, ← hcents,
      ← Nat.add_assoc]
    rcases lt_or_ge (total.cents + price.cents) Money.bound with hsum | hsum
    · -- the other mentions are added to the new total
      have hplus : total.plus price = .ok ⟨total.currency, total.cents + price.cents, hsum⟩ :=
        Money.plus_eq_ok_iff.2 ⟨hsame, rfl, rfl⟩
      rw [bind_of_eq_ok hplus]
      exact ih fun s' hs' => h s' (List.mem_cons_of_mem s hs')
    · obtain ⟨x, hx⟩ := Money.plus_eq_error hsame hsum
      rw [hx]
      exact .inr ⟨⟨x, rfl⟩, hsum.trans (Nat.le_add_right _ _)⟩

/-- **Mentions and items.** Mention by mention, a selection has the price that it has item by
item. -/
theorem sum_mentionPrice (hdistinct : (items.map Item.id).Nodup)
    (h : ∀ s ∈ selections, s.id ∈ items.map Item.id) :
    (selections.map (mentionPrice items)).sum = priceOf items selections := by
  rw [← sum_sumAt hdistinct h, List.map_map, priceOf]
  congr 1
  refine List.map_congr_left fun item hitem => ?_
  have hprice : ∀ s ∈ selections.filter fun s => s.id = item.id,
      mentionPrice items s = item.unitPrice.cents * s.quantity := by
    intro s hs
    have hid : s.id = item.id := of_decide_eq_true (List.mem_filter.1 hs).2
    exact mentionPrice_eq (hid ▸ lastItem?_of_mem hdistinct hitem)
  rw [Function.comp_apply, sumAt, List.map_congr_left hprice, List.sum_map_mul_left,
    Context.quantityOf]

/-! ### Selections that are quoted -/

/-- The prices of the items that are paid for are those of the selection. -/
theorem sum_prices_of_paysFor (hgross : ctx.grossSelected = .ok gross) {ps : List PaidItem}
    (h : List.Forall₂ (PaysFor ctx paid) ctx.selected.entries ps) :
    (ps.map fun p => p.unitPrice.cents * p.quantity).sum = gross.cents := by
  have hprice : ∀ e ∈ ctx.selected.entries, ∀ p, PaysFor ctx paid e p →
      p.unitPrice.cents * p.quantity = gross.centsAt e.1 := by
    rintro e he p ⟨-, hquantity, -, item, hitem, hprice⟩
    obtain ⟨item', m, hitem', hm, -, hcents⟩ :=
      Context.find?_grossSelected hgross (Table.find?_eq_some_iff.2 he)
    cases hitem.symm.trans hitem'
    rw [hprice, hquantity, ← hcents, Table.centsAt_of_find? hm]
  rw [Table.cents_eq_sum_centsAt, Table.keys_traverse hgross, Table.keys]
  congr 1
  -- the two lists agree entry by entry
  generalize ctx.selected.entries = l at h hprice
  induction h with
  | nil => rfl
  | cons hp _ ih =>
    rw [List.map_cons, List.map_cons, List.map_cons, hprice _ List.mem_cons_self _ hp,
      ih fun e he => hprice e (List.mem_cons_of_mem _ he)]

/-- Each mention in a selection whose items have prices has a price. -/
theorem hasPrice_of_grossSelected (hcreate : Context.create currency items selections = .ok ctx)
    (hgross : ctx.grossSelected = .ok gross) (hs : s ∈ selections) :
    HasPrice currency items s := by
  obtain ⟨hcurrency, -, hfind, hpriced, -⟩ := Context.of_create hcreate
  have hselected : 0 < Context.quantityOf selections s.id :=
    Context.mem_ids_iff.1 (List.mem_map_of_mem hs)
  obtain ⟨item, m, hitem, -, -, hcents⟩ := Context.find?_grossSelected hgross
    ((Context.find?_selected_eq_some_iff hcreate).2 ⟨hselected, rfl⟩)
  obtain ⟨hmem, hid⟩ := (hfind s.id item).1 hitem
  have hdistinct := (Context.create_eq_ok_iff.1 hcreate).1.distinct
  refine ⟨item, hid ▸ lastItem?_of_mem hdistinct hmem, hpriced item hmem, ?_⟩
  -- one mention asks for no more than all of them
  have hle : s.quantity ≤ Context.quantityOf selections s.id :=
    List.single_le_sum (fun _ _ => Nat.zero_le _) _
      (List.mem_map_of_mem (List.mem_filter.2 ⟨hs, decide_eq_true rfl⟩))
  exact ((Nat.mul_le_mul_left _ hle).trans_eq hcents.symm).trans_lt m.lt_bound

/-- What is paid for costs what the selection does. -/
theorem sum_prices_of_calculate
    (h : calculate currency items selections itemWriteOffs writeOffs = .ok q) :
    (q.items.map fun p => p.unitPrice.cents * p.quantity).sum = priceOf items selections := by
  obtain ⟨ctx, s, b, off, net, paid, hcreate, hs, -, -, hpays, -⟩ := exists_stages h
  rw [sum_prices_of_paysFor hs.grossSelected hpays,
    Context.cents_grossSelected hcreate hs.grossSelected]

/-- **Gross amounts.** The gross amount of a selection that is quoted is its price, unless that is
out of range. -/
theorem grossAmount_cases
    (h : calculate currency items selections itemWriteOffs writeOffs = .ok q) :
    (∃ m, grossAmount currency items selections = .ok m ∧ m.currency = currency ∧
        m.cents = priceOf items selections) ∨
      (∃ x, grossAmount currency items selections = .error (.amountOutOfRange x)) ∧
        Money.bound ≤ priceOf items selections := by
  obtain ⟨ctx, s, b, off, net, paid, hcreate, hs, -⟩ := exists_stages h
  have hprices : ∀ s ∈ selections, HasPrice (Money.zero currency).currency items s := fun _ =>
    hasPrice_of_grossSelected hcreate hs.grossSelected
  have hknown : ∀ s ∈ selections, s.id ∈ items.map Item.id := by
    intro s hs
    obtain ⟨item, hitem, -⟩ := hprices s hs
    obtain ⟨hid, before, after, rfl, -⟩ := lastItem?_eq_some_iff.1 hitem
    exact hid ▸ List.mem_map_of_mem (by simp)
  have hcases := addGross_cases hprices
  rwa [sum_mentionPrice (Context.create_eq_ok_iff.1 hcreate).1.distinct hknown,
    Money.currency_zero, Money.cents_zero, Nat.zero_add] at hcases

/-- **Gross and charge.** Of a selection that is quoted, the gross amount is the exact sum of what
its items cost in the quantity of all their mentions, unless that is out of range. The charge is at
most this sum, and is this sum if and only if no cent of the selection is taken by write-offs of
items, or given to it in its share of the write-offs of the tab. -/
theorem grossAmount_of_calculate
    (h : calculate currency items selections itemWriteOffs writeOffs = .ok q) :
    let gross := (q.items.map fun p => p.unitPrice.cents * p.quantity).sum
    (∀ p ∈ q.items, p.quantity = Context.quantityOf selections p.id) ∧
    ((∃ m, grossAmount currency items selections = .ok m ∧ m.currency = currency ∧
        m.cents = gross) ∨
      (∃ x, grossAmount currency items selections = .error (.amountOutOfRange x)) ∧
        Money.bound ≤ gross) ∧
    q.amount.currency = currency ∧ q.amount.cents ≤ gross ∧
    ∃ ctx s b offRemaining netRemaining share,
      Context.create currency items selections = .ok ctx ∧
      Stages.Of s ctx itemWriteOffs writeOffs ∧
      Balance.Reached b ctx s offRemaining netRemaining ∧
      Allocation.allocate currency.code b.share b.netSelected = .ok share ∧
      (q.amount.cents = gross ↔
        (∀ id, s.offSelected.centsAt id = 0) ∧ ∀ id, share.centsAt id = 0) := by
  intro gross
  have hquantity := quantity_of_calculate h
  have hcurrency := currency_of_calculate h
  have hcases := grossAmount_cases h
  have hsum : gross = priceOf items selections := sum_prices_of_calculate h
  rw [← hsum] at hcases
  obtain ⟨ctx, hcreate, h⟩ := bind_eq_ok_iff.1 h
  obtain ⟨b, hbalance, h⟩ := bind_eq_ok_iff.1 h
  have hctx := Context.valid_of_create hcreate
  obtain ⟨s, off, net, hs, hb, -⟩ := Balance.exists_stages hbalance
  obtain ⟨share, paid, hshare, hpaid, -, -⟩ := of_ofBalance h
  -- the charge, both kinds of write-offs and the gross amount in one equation
  have hcharge := amount_add_share hctx hs hb h
  have hnet := hb.netSelectedTotal_add hs hcreate
  have hgiven := (splits_paid hctx hs hb hshare hpaid).2.1
  rw [← hsum] at hnet
  rw [(Context.of_create hcreate).1] at hshare
  refine ⟨hquantity, hcases, hcurrency, by omega, ctx, s, b, off, net, share, hcreate, hs, hb,
    hshare, ?_⟩
  rw [← Table.cents_eq_zero_iff, ← Table.cents_eq_zero_iff]
  omega

/-- Two teas, a cake and a third tea: the gross amount is 7.25 with and without write-offs, and is
charged only without. -/
theorem grossAmount_of_calculate_tea_and_cake :
    let tab : List Item :=
      [⟨"tea", Money.euro 150 (by decide), 4, by decide, by decide⟩,
        ⟨"cake", Money.euro 275 (by decide), 2, by decide, by decide⟩]
    let selections : List Selection := [⟨"tea", 2, by decide, by decide⟩,
      ⟨"cake", 1, by decide, by decide⟩, ⟨"tea", 1, by decide, by decide⟩]
    let writeOffs : List WriteOff := [⟨Money.euro 100 (by decide), .discount, none, by decide⟩]
    ∃ q m, calculate ⟨"EUR", by decide⟩ tab selections [] writeOffs = .ok q ∧
      grossAmount ⟨"EUR", by decide⟩ tab selections = .ok m ∧ m.cents = 725 ∧
      m.cents = (q.items.map fun p => p.unitPrice.cents * p.quantity).sum ∧
      q.amount.cents ≤ m.cents := by
  intro tab selections writeOffs
  obtain ⟨q, hq, -⟩ := exists_of_toOption
    (r := calculate ⟨"EUR", by decide⟩ tab selections [] writeOffs)
    (f := fun _ => ()) (v := ()) (by decide +kernel)
  obtain ⟨m, hm, hcents⟩ := exists_of_toOption
    (r := grossAmount ⟨"EUR", by decide⟩ tab selections)
    (f := Money.cents) (v := 725) (by decide +kernel)
  obtain ⟨-, hgross, -, hle, -⟩ := grossAmount_of_calculate hq
  rcases hgross with ⟨m', hm', -, hsum⟩ | ⟨⟨x, hx⟩, -⟩
  · obtain rfl : m = m' := Except.ok.inj (hm.symm.trans hm')
    exact ⟨q, m, hq, hm, hcents, hsum, hsum ▸ hle⟩
  · cases hm.symm.trans hx

end Settlement.Quote

namespace Settlement.CommandLine

/-- **What is shown.** The `quote` command shows a gross amount that is the exact sum of what the
listed items cost, and a charge of at most that. -/
theorem gross_of_quoteSession {currency : Currency} {path : String} {contents : Option ByteArray}
    {texts : List String} {gross : Money} {q : Quote}
    (h : quoteSession currency path contents texts = .ok (gross, q)) :
    gross.currency = q.amount.currency ∧ q.amount.cents ≤ gross.cents ∧
      gross.cents = (q.items.map fun p => p.unitPrice.cents * p.quantity).sum := by
  obtain ⟨tab, htab, h⟩ := bind_eq_ok_iff.1 h
  obtain ⟨selections, -, h⟩ := bind_eq_ok_iff.1 h
  obtain ⟨m, hm, h⟩ := bind_eq_ok_iff.1 h
  obtain ⟨q', hquote, h⟩ := bind_eq_ok_iff.1 h
  cases h
  -- the quote is calculated in the currency that the gross amount is in
  obtain ⟨c, hc, hq⟩ := bind_eq_ok_iff.1 hquote
  have hcode : tab.code = currency.code := Session.code_of_load htab
  obtain rfl : c = currency :=
    Money.currency_eq_of_code_eq ((Currency.ofCode_eq_ok_iff.1 hc).trans hcode)
  have hle := Quote.amount_le_priceOf hq
  rw [Quote.sum_prices_of_calculate hq]
  rcases Quote.grossAmount_cases hq with ⟨m', hm', hcur, hcents⟩ | ⟨⟨x, hx⟩, -⟩
  · obtain rfl : gross = m' := Except.ok.inj (hm.symm.trans hm')
    exact ⟨hcur.trans (Quote.currency_of_calculate hq).symm, by omega, hcents⟩
  · cases hm.symm.trans hx

end Settlement.CommandLine
