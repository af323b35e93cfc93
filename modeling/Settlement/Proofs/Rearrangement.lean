import Settlement.Proofs.AllocationOrder
import Settlement.Proofs.QuoteOutcome

/-!
# What a quote does not depend on

A quote depends on what is owed and not on how it is listed. The items of a tab may stand in any
order, a selection may mention an item once or in parts, and of write-offs only their sums count,
item by item for item write-offs and in total for the tab.

The two calculations are followed stage by stage: their tables agree, which is to say that they hold
the same values for the same keys. Values that are calculated from tables that agree agree again,
down to the distribution of single cents, which ranks items by their ids where all else is equal.
Only the paid items, listed in the order of the selection, are the same up to order.
-/

namespace Settlement

variable {c currency : Currency} {items items' : List Item}
  {selections selections' : List Selection}
  {itemWriteOffs itemWriteOffs' : List ItemWriteOff} {writeOffs writeOffs' : List WriteOff}

/-! ### Contexts -/

namespace Context

variable {ctx ctx' : Context}

/-- Contexts **agree** if they are in one currency and hold the same items and the same selected
quantities. -/
structure Agrees (ctx ctx' : Context) : Prop where
  currency : ctx.currency = ctx'.currency
  items : ctx.items.Agrees ctx'.items
  selected : ctx.selected.Agrees ctx'.selected

private theorem accepted_of_perm (hitems : items.Perm items')
    (hselections : ∀ id, quantityOf selections id = quantityOf selections' id)
    (h : Accepted currency items selections) : Accepted currency items' selections' where
  nonempty := by
    rintro rfl
    obtain ⟨s, hs⟩ := List.exists_mem_of_ne_nil _ h.nonempty
    have hpos := mem_ids_iff.1 (List.mem_map_of_mem (f := Selection.id) hs)
    rw [hselections] at hpos
    exact hpos.ne' rfl
  priced := fun item hitem => h.priced item (hitems.mem_iff.2 hitem)
  distinct := (hitems.map Item.id).nodup_iff.1 h.distinct
  remains := by
    intro id hid
    rw [mem_ids_iff, ← hselections, ← mem_ids_iff] at hid
    obtain ⟨item, hitem, hitemid, hle⟩ := h.remains id hid
    exact ⟨item, hitems.mem_iff.1 hitem, hitemid, hselections id ▸ hle⟩

/-- **Contexts** of the same items, with the same selected quantity of each. -/
theorem follows_create (hitems : items.Perm items')
    (hselections : ∀ id, quantityOf selections id = quantityOf selections' id) :
    Follows Agrees (create currency items selections) (create currency items' selections') := by
  intro ctx h
  obtain ⟨ctx', h'⟩ :=
    exists_create_iff.2 (accepted_of_perm hitems hselections (create_eq_ok_iff.1 h).1)
  obtain ⟨hcur, hselected, hfind, -⟩ := of_create h
  obtain ⟨hcur', hselected', hfind', -⟩ := of_create h'
  refine ⟨ctx', h', hcur.trans hcur'.symm, fun id => ?_, fun id => ?_⟩
  · refine Option.ext fun item => ?_
    rw [hfind, hfind', hitems.mem_iff]
  · rw [hselected, hselected', find?_consolidate, find?_consolidate]
    simp only [mem_ids_iff, hselections]

theorem Agrees.item_eq (h : ctx.Agrees ctx') (id : String) : ctx.item id = ctx'.item id := by
  rw [item, item, h.items id]

theorem Agrees.follows_grossRemaining (h : ctx.Agrees ctx') :
    Follows Table.Agrees ctx.grossRemaining ctx'.grossRemaining :=
  h.items.follows_traverse fun _ _ _ => .refl _

theorem Agrees.follows_grossSelected (h : ctx.Agrees ctx') :
    Follows Table.Agrees ctx.grossSelected ctx'.grossSelected := by
  refine h.selected.follows_traverse fun id _ _ => ?_
  rw [h.item_eq id]
  exact .refl _

end Context

/-! ### Write-offs of items -/

namespace WrittenOff

variable {table table' : Table WrittenOff} {quantities quantities' : Table ℕ}
  {gross gross' : Table Money}

/-- **Collected write-offs** with the same amount and the same quantity for each item. -/
theorem follows_collect (hcur : ∀ w ∈ itemWriteOffs', w.amount.currency = c)
    (hamounts : ∀ id, amountOf itemWriteOffs id = amountOf itemWriteOffs' id)
    (hquantities : ∀ id, quantityOf itemWriteOffs id = quantityOf itemWriteOffs' id) :
    Follows Table.Agrees (collect c itemWriteOffs) (collect c itemWriteOffs') := by
  intro table h
  have hsums := sums_of_collect h
  have hlt : ∀ id, amountOf itemWriteOffs' id < Money.bound := by
    intro id
    rw [← hamounts]
    by_cases hid : id ∈ itemWriteOffs.map ItemWriteOff.id
    · obtain ⟨w, hw⟩ := Table.exists_find?_of_mem_keys ((hsums.mem_keys id).2 hid)
      rw [← hsums.amount id w hw]
      exact w.amount.lt_bound
    · rw [amountOf, sumAt_eq_zero hid]
      decide
  obtain ⟨table', h'⟩ := exists_collect hcur hlt
  exact ⟨table', h', hsums.find?_eq (sums_of_collect h') hamounts hquantities⟩

/-- **Scopes** of the same quantities within the same prices. -/
theorem follows_allocate (htable : table.Agrees table')
    (hquantities : quantities.Agrees quantities') (hgross : gross.Agrees gross') :
    Follows Table.Agrees (allocate c table quantities (.ofMoney gross))
      (allocate c table' quantities' (.ofMoney gross')) := by
  refine hquantities.follows_traverse fun id quantity _ => ?_
  rw [Caps.require_ofMoney, Caps.require_ofMoney, hgross id]
  refine Follows.bind_same fun cap _ => ?_
  rw [forItem, forItem, htable id]
  exact .refl _

end WrittenOff

/-! ### Balances -/

/-- Differences of tables that agree. -/
theorem follows_subtractPerItem {whole whole' taken taken' : Table Money}
    (hwhole : whole.Agrees whole') (htaken : taken.Agrees taken') :
    Follows Table.Agrees (subtractPerItem whole taken) (subtractPerItem whole' taken') := by
  refine hwhole.follows_traverse fun id _ _ => ?_
  rw [htaken id]
  exact .refl _

/-- Sums of lists of amounts that add up to the same. -/
theorem Money.follows_sum {context : String} {l l' : List Money}
    (hcur : ∀ m ∈ l', m.currency = c) (h : (l.map cents).sum = (l'.map cents).sum) :
    Follows Eq (sum c context l) (sum c context l') := by
  intro m hm
  obtain ⟨-, hmcur, hcents⟩ := sum_eq_ok_iff.1 hm
  exact ⟨m, sum_eq_ok_iff.2 ⟨hcur, hmcur, hcents.trans h⟩, rfl⟩

namespace Balance

variable {ctx ctx' : Context} {b b' : Balance}

/-- Balances **agree** if they have the same share and net amounts that agree. -/
structure Agrees (b b' : Balance) : Prop where
  netSelected : b.netSelected.Agrees b'.netSelected
  share : b.share = b'.share

private theorem follows_requirePayable {net net' : Table Money} (h : net.Agrees net') :
    Follows Eq (requirePayable net.entries) (requirePayable net'.entries) := by
  intro u hu
  have hall := requirePayable_eq_ok_iff.1 hu
  exact ⟨u, requirePayable_eq_ok_iff.2 fun e he => hall e (h.entries_perm.mem_iff.2 he), rfl⟩

/-- **Balances** of contexts that agree, with the same amount and quantity written off for each item
and the same sum for the tab. -/
theorem follows_ofContext (h : ctx.Agrees ctx')
    (hcur : ∀ w ∈ itemWriteOffs', w.amount.currency = ctx'.currency)
    (hamounts : ∀ id, WrittenOff.amountOf itemWriteOffs id = WrittenOff.amountOf itemWriteOffs' id)
    (hquantities : ∀ id,
      WrittenOff.quantityOf itemWriteOffs id = WrittenOff.quantityOf itemWriteOffs' id)
    (htab : ∀ w ∈ writeOffs', w.amount.currency = ctx'.currency)
    (hsum : WriteOff.total writeOffs = WriteOff.total writeOffs') :
    Follows Agrees (ofContext ctx itemWriteOffs writeOffs)
      (ofContext ctx' itemWriteOffs' writeOffs') := by
  have htotal : ((writeOffs.map WriteOff.amount).map Money.cents).sum =
      ((writeOffs'.map WriteOff.amount).map Money.cents).sum := by
    rw [List.map_map, List.map_map]
    exact hsum
  rw [ofContext, ofContext, h.currency]
  refine (Money.follows_sum (List.forall_mem_map.2 htab) htotal).bind ?_
  rintro writeOffTotal _ rfl
  refine h.follows_grossRemaining.bind fun grossR grossR' hgrossR => ?_
  refine h.follows_grossSelected.bind fun grossS grossS' hgrossS => ?_
  refine (WrittenOff.follows_collect hcur hamounts hquantities).bind fun _ _ hwritten => ?_
  refine (WrittenOff.follows_allocate hwritten h.selected hgrossS).bind fun _ _ hoffS => ?_
  refine (follows_subtractPerItem hgrossS hoffS).bind fun netS netS' hnetS => ?_
  refine (follows_requirePayable hnetS).bind fun _ _ _ => ?_
  refine hnetS.follows_sum.bind ?_
  rintro totalS _ rfl
  split_ifs
  · exact .error _
  have hremaining : ctx.remaining.Agrees ctx'.remaining := h.items.map _
  refine (WrittenOff.follows_allocate hwritten hremaining hgrossR).bind fun _ _ hoffR => ?_
  refine (follows_subtractPerItem hgrossR hoffR).bind fun netR netR' hnetR => ?_
  refine hnetR.follows_sum.bind ?_
  rintro totalR _ rfl
  split_ifs
  · exact .error _
  exact Follows.bind_same fun share _ => .ok ⟨hnetS, rfl⟩

end Balance

/-! ### Quotes -/

namespace Quote

variable {ctx ctx' : Context} {paid paid' : Table Money}

/-- Quotes that are the **same** but for the order in which the paid items are listed. -/
structure Same (q q' : Quote) : Prop where
  amount : q.amount = q'.amount
  items : q.items.Perm q'.items

private theorem follows_paidItems (h : ctx.Agrees ctx') (hpaid : paid.Agrees paid') :
    Follows List.Perm (paidItems ctx paid ctx.selected.entries)
      (paidItems ctx' paid' ctx'.selected.entries) := by
  intro l hl
  have hpays : List.Forall₂ (PaysFor ctx' paid') ctx.selected.entries l := by
    refine (paysFor_of_paidItems hl).imp fun e p hp => ?_
    obtain ⟨hid, hquantity, hfind, item, hitem, hprice⟩ := hp
    exact ⟨hid, hquantity, hpaid e.1 ▸ hfind, item, h.items e.1 ▸ hitem, hprice⟩
  obtain ⟨l', hpays', hperm⟩ := List.perm_comp_forall₂ h.selected.entries_perm.symm hpays
  exact ⟨l', paidItems_of_paysFor hpays', hperm.symm⟩

private theorem follows_quote {amount : Money} {l l' : List PaidItem} (h : l.Perm l') :
    Follows Same (create amount l) (create amount l') := by
  intro q hq
  obtain ⟨rfl, rfl⟩ := of_create hq
  have hne : l' ≠ [] := by
    rintro rfl
    exact q.items_ne_nil h.eq_nil
  obtain ⟨q', hq'⟩ := exists_create q.amount_pos hne fun p hp =>
    q.currency_eq p (h.mem_iff.2 hp)
  obtain ⟨hamount, hitems⟩ := of_create hq'
  exact ⟨q', hq', hamount.symm, hitems.symm ▸ h⟩

/-- **Quotes** from balances that agree. -/
theorem follows_ofBalance {b b' : Balance} (h : ctx.Agrees ctx') (hb : b.Agrees b') :
    Follows Same (ofBalance ctx b) (ofBalance ctx' b') := by
  rw [ofBalance, ofBalance, h.currency, hb.share]
  refine (Allocation.follows_allocate hb.netSelected).bind fun share share' hshare => ?_
  refine (follows_subtractPerItem hb.netSelected hshare).bind fun paid paid' hpaid => ?_
  rw [assemble, assemble, h.currency]
  refine (follows_paidItems h hpaid).bind fun l l' hl => ?_
  refine hpaid.follows_sum.bind ?_
  rintro amount _ rfl
  split_ifs
  · exact .error _
  · exact follows_quote hl

private theorem follows_calculate (hitems : items.Perm items')
    (hselections : ∀ id, Context.quantityOf selections id = Context.quantityOf selections' id)
    (hcur : ∀ w ∈ itemWriteOffs', w.amount.currency = currency)
    (hamounts : ∀ id, WrittenOff.amountOf itemWriteOffs id = WrittenOff.amountOf itemWriteOffs' id)
    (hquantities : ∀ id,
      WrittenOff.quantityOf itemWriteOffs id = WrittenOff.quantityOf itemWriteOffs' id)
    (htab : ∀ w ∈ writeOffs', w.amount.currency = currency)
    (hsum : WriteOff.total writeOffs = WriteOff.total writeOffs') :
    Follows Same (calculate currency items selections itemWriteOffs writeOffs)
      (calculate currency items' selections' itemWriteOffs' writeOffs') := by
  rw [calculate, calculate]
  intro q hq
  obtain ⟨ctx, hctx, hof⟩ := bind_eq_ok_iff.1 hq
  obtain ⟨ctx', hctx', hagrees⟩ := Context.follows_create hitems hselections ctx hctx
  obtain ⟨rfl, -⟩ := Context.of_create hctx'
  have hbalance := Balance.follows_ofContext hagrees hcur hamounts hquantities htab hsum
  obtain ⟨q', hof', hsame⟩ := hbalance.bind (fun b b' hb => follows_ofBalance hagrees hb) q hof
  exact ⟨q', bind_eq_ok_iff.2 ⟨ctx', hctx', hof'⟩, hsame⟩

/-- **Rearrangement.** Two inputs in one currency are given: the same items in any order, selections
with the same quantity for each item, item write-offs with the same amount and the same quantity for
each item, and write-offs of the tab with the same sum. There is a quote for one exactly if there is
one for the other. Both charge the same amount, and the same quantity, unit price and paid amount
for each item; only the order of the paid items differs, which is that of their first mention. -/
theorem calculate_rearranged (hitems : items.Perm items')
    (hselections : ∀ id, Context.quantityOf selections id = Context.quantityOf selections' id)
    (hcur : ∀ w ∈ itemWriteOffs, w.amount.currency = currency)
    (hcur' : ∀ w ∈ itemWriteOffs', w.amount.currency = currency)
    (hamounts : ∀ id, WrittenOff.amountOf itemWriteOffs id = WrittenOff.amountOf itemWriteOffs' id)
    (hquantities : ∀ id,
      WrittenOff.quantityOf itemWriteOffs id = WrittenOff.quantityOf itemWriteOffs' id)
    (htab : ∀ w ∈ writeOffs, w.amount.currency = currency)
    (htab' : ∀ w ∈ writeOffs', w.amount.currency = currency)
    (hsum : WriteOff.total writeOffs = WriteOff.total writeOffs') :
    ((∃ q, calculate currency items selections itemWriteOffs writeOffs = .ok q) ↔
      ∃ q, calculate currency items' selections' itemWriteOffs' writeOffs' = .ok q) ∧
    ∀ q q', calculate currency items selections itemWriteOffs writeOffs = .ok q →
      calculate currency items' selections' itemWriteOffs' writeOffs' = .ok q' →
      q.amount = q'.amount ∧ q.items.Perm q'.items ∧
      (∀ p ∈ q.items, ∀ p' ∈ q'.items, p.id = p'.id →
        p.quantity = p'.quantity ∧ p.unitPrice = p'.unitPrice ∧ p.paid = p'.paid) ∧
      q.items.map PaidItem.id = (selections.map Selection.id).eraseDups ∧
      q'.items.map PaidItem.id = (selections'.map Selection.id).eraseDups := by
  have hforth := follows_calculate hitems hselections hcur' hamounts hquantities htab' hsum
  have hback := follows_calculate hitems.symm (fun id => (hselections id).symm) hcur
    (fun id => (hamounts id).symm) (fun id => (hquantities id).symm) htab hsum.symm
  refine ⟨⟨?_, ?_⟩, fun q q' hq hq' => ?_⟩
  · rintro ⟨q, hq⟩
    obtain ⟨q', hq', -⟩ := hforth q hq
    exact ⟨q', hq'⟩
  · rintro ⟨q', hq'⟩
    obtain ⟨q, hq, -⟩ := hback q' hq'
    exact ⟨q, hq⟩
  · obtain ⟨other, hother, hamount, hperm⟩ := hforth q hq
    cases hq'.symm.trans hother
    refine ⟨hamount, hperm, fun p hp p' hp' hid => ?_, ids_of_calculate hq, ids_of_calculate hq'⟩
    obtain rfl : p = p' := List.inj_on_of_nodup_map (nodup_ids hq) hp (hperm.mem_iff.2 hp') hid
    exact ⟨rfl, rfl, rfl⟩

/-- Tea that is mentioned twice, written off twice and listed first, and tea that is mentioned and
written off once and listed last, on tabs with one write-off or two. -/
theorem calculate_rearranged_tea_and_cake :
    let tea : Item := ⟨"tea", Money.euro 150 (by decide), 4, by decide, by decide⟩
    let cake : Item := ⟨"cake", Money.euro 275 (by decide), 2, by decide, by decide⟩
    let selections : List Selection := [⟨"tea", 2, by decide, by decide⟩,
      ⟨"cake", 1, by decide, by decide⟩, ⟨"tea", 1, by decide, by decide⟩]
    let selections' : List Selection :=
      [⟨"cake", 1, by decide, by decide⟩, ⟨"tea", 3, by decide, by decide⟩]
    let itemWriteOffs : List ItemWriteOff :=
      [⟨"tea", 1, Money.euro 30 (by decide), .discount, none, by decide, by decide, by decide⟩,
        ⟨"tea", 1, Money.euro 20 (by decide), .other, none, by decide, by decide, by decide⟩]
    let itemWriteOffs' : List ItemWriteOff :=
      [⟨"tea", 2, Money.euro 50 (by decide), .other, none, by decide, by decide, by decide⟩]
    let writeOffs : List WriteOff := [⟨Money.euro 100 (by decide), .discount, none, by decide⟩]
    let writeOffs' : List WriteOff := [⟨Money.euro 60 (by decide), .other, none, by decide⟩,
      ⟨Money.euro 40 (by decide), .discount, none, by decide⟩]
    ∃ q q', calculate ⟨"EUR", by decide⟩ [tea, cake] selections itemWriteOffs writeOffs = .ok q ∧
      calculate ⟨"EUR", by decide⟩ [cake, tea] selections' itemWriteOffs' writeOffs' = .ok q' ∧
      q.amount = q'.amount ∧ q.items.Perm q'.items := by
  intro tea cake selections selections' itemWriteOffs itemWriteOffs' writeOffs writeOffs'
  have hselections : ∀ id,
      Context.quantityOf selections id = Context.quantityOf selections' id := by
    intro id
    by_cases htea : "tea" = id <;> by_cases hcake : "cake" = id <;>
      simp [Context.quantityOf, selections, selections', htea, hcake]
  have hamounts : ∀ id,
      WrittenOff.amountOf itemWriteOffs id = WrittenOff.amountOf itemWriteOffs' id := by
    intro id
    by_cases htea : "tea" = id <;>
      simp [WrittenOff.amountOf, sumAt, itemWriteOffs, itemWriteOffs', htea, Money.euro]
  have hquantities : ∀ id,
      WrittenOff.quantityOf itemWriteOffs id = WrittenOff.quantityOf itemWriteOffs' id := by
    intro id
    by_cases htea : "tea" = id <;>
      simp [WrittenOff.quantityOf, sumAt, itemWriteOffs, itemWriteOffs', htea]
  have heuro : ∀ w ∈ writeOffs, w.amount.currency = ⟨"EUR", by decide⟩ := by decide
  have heuro' : ∀ w ∈ writeOffs', w.amount.currency = ⟨"EUR", by decide⟩ := by decide
  obtain ⟨hiff, hsame⟩ := calculate_rearranged (.swap cake tea []) hselections (by decide)
    (by decide) hamounts hquantities heuro heuro' (by decide)
  obtain ⟨q, hq, -⟩ := exists_of_toOption
    (r := calculate ⟨"EUR", by decide⟩ [tea, cake] selections itemWriteOffs writeOffs)
    (f := fun _ => ()) (v := ()) (by decide +kernel)
  obtain ⟨q', hq'⟩ := hiff.1 ⟨q, hq⟩
  obtain ⟨hamount, hperm, -⟩ := hsame q q' hq hq'
  exact ⟨q, q', hq, hq', hamount, hperm⟩

end Quote

end Settlement
