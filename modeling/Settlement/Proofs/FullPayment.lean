import Settlement.Proofs.Prices
import Settlement.Proofs.RoundedShares
import Settlement.Proofs.WholeWriteOffs

/-!
# Paying everything

A payer who asks for all that remains settles the tab. The selection and the tab are then the same
scope: item write-offs leave the same of both (`Stages.Of.centsAt_netSelected_eq`), and the net
amount of the selection is that of the tab. Its share in the write-offs of the tab is all of them,
as long as they are written with ten digits.

Item write-offs of units that remain are then taken whole, and the tab is worth its prices less all
that was written off.
-/

namespace Settlement

variable {currency : Currency} {items : List Item} {selections : List Selection}
  {itemWriteOffs : List ItemWriteOff} {writeOffs : List WriteOff} {ctx : Context} {s : Stages}
  {b : Balance} {off net : Table Money} {q : Quote} {item : Item}

/-! ### One scope -/

/-- What item write-offs take of all that remains of an item is taken within its price. -/
theorem Balance.Reached.exists_scope (hb : b.Reached ctx s off net)
    (hs : s.Of ctx itemWriteOffs writeOffs)
    (hcreate : Context.create currency items selections = .ok ctx) (hitem : item ∈ items) :
    ∃ gross taken, s.grossRemaining.find? item.id = some gross ∧ off.find? item.id = some taken ∧
      gross.currency = item.unitPrice.currency ∧
      gross.cents = item.unitPrice.cents * item.remaining ∧
      WrittenOff.forItem ctx.currency s.written item.id item.remaining (.given gross) =
        .ok taken := by
  have hfind := Context.find?_items hcreate hitem
  obtain ⟨gross, hgross, hcur, hcents⟩ := Context.find?_grossRemaining hs.grossRemaining hfind
  obtain ⟨gross', taken, hgross', htaken, hfor⟩ := WrittenOff.find?_allocate hb.offRemaining
    (Context.find?_remaining_eq_some_iff.2 ⟨item, hfind, rfl⟩)
  cases hgross.symm.trans hgross'
  exact ⟨gross, taken, hgross, htaken, hcur, hcents, hfor⟩

/-- Item write-offs leave the same of an item of which all is selected and of all that remains. -/
theorem Stages.Of.centsAt_netSelected_eq (hs : s.Of ctx itemWriteOffs writeOffs)
    (hb : b.Reached ctx s off net)
    (hcreate : Context.create currency items selections = .ok ctx) (hitem : item ∈ items)
    (hall : 0 < item.remaining → Context.quantityOf selections item.id = item.remaining) :
    s.netSelected.centsAt item.id = net.centsAt item.id := by
  have hselected := hs.splits_selected.centsAt item.id
  have hremaining := (hb.splits_remaining hs).centsAt item.id
  obtain ⟨gross, taken, hgross, htaken, hcur, hcents, hfor⟩ := hb.exists_scope hs hcreate hitem
  rcases Nat.eq_zero_or_pos item.remaining with hzero | hpos
  · -- nothing is selected, and nothing remains
    have hnone : Context.quantityOf selections item.id = 0 :=
      Nat.le_zero.1 (hzero ▸ Context.quantityOf_le hcreate hitem)
    rw [Context.centsAt_grossSelected hcreate hs.grossSelected hitem, hnone] at hselected
    rw [Table.centsAt_of_find? hgross, hcents, hzero] at hremaining
    omega
  · have hq := (Context.find?_selected_eq_some_iff hcreate).2 ⟨hpos, hall hpos⟩
    obtain ⟨item', gross', hitem', hgross', hcur', hcents'⟩ :=
      Context.find?_grossSelected hs.grossSelected hq
    cases hitem'.symm.trans (Context.find?_items hcreate hitem)
    obtain rfl : gross' = gross :=
      Money.ext_cents (hcur'.trans hcur.symm) (hcents'.trans hcents.symm)
    obtain ⟨gross'', taken', hgross'', htaken', hfor'⟩ :=
      WrittenOff.find?_allocate hs.offSelected hq
    cases hgross'.symm.trans hgross''
    obtain rfl : taken' = taken := Except.ok.inj (hfor'.symm.trans hfor)
    rw [Table.centsAt_of_find? hgross', Table.centsAt_of_find? htaken'] at hselected
    rw [Table.centsAt_of_find? hgross, Table.centsAt_of_find? htaken] at hremaining
    omega

/-- The net amount of a selection of all that remains is that of the tab. -/
theorem Balance.Reached.netSelectedTotal_eq (hb : b.Reached ctx s off net)
    (hs : s.Of ctx itemWriteOffs writeOffs)
    (hcreate : Context.create currency items selections = .ok ctx)
    (hall : ∀ item ∈ items,
      0 < item.remaining → Context.quantityOf selections item.id = item.remaining) :
    b.netSelectedTotal.cents = b.netRemainingTotal.cents := by
  have hctx := Context.valid_of_create hcreate
  have hselected := hs.inCurrency_netSelected hctx
  have hremaining := hb.inCurrency_net hs hctx
  have htotal := hb.netSelectedTotal
  rw [hb.netSelected] at htotal
  rw [((Money.sum_values_eq_ok_iff hselected).1 htotal).2,
    ((Money.sum_values_eq_ok_iff hremaining).1 hb.netRemainingTotal).2]
  -- both tables are summed up over the items of the tab
  have hkeys : net.keys = items.map Item.id := by
    rw [(hb.splits_remaining hs).left_keys, Table.keys_traverse hs.grossRemaining,
      Context.keys_items hcreate]
  have hsubset : s.netSelected.keys ⊆ items.map Item.id := by
    rw [hs.keys_netSelected]
    exact Context.keys_selected_subset hcreate
  rw [Table.cents_eq_sum_of_keys_subset (hkeys ▸ net.nodup_keys) hsubset,
    Table.cents_eq_sum_centsAt, hkeys, List.map_map, List.map_map]
  congr 1
  exact List.map_congr_left fun item hitem =>
    hs.centsAt_netSelected_eq hb hcreate hitem (hall item hitem)

/-! ### Whole write-offs -/

/-- No more units remain of an item than the range has cents, as each costs one cent at least. -/
private theorem remaining_lt_bound {gross : Money}
    (h : gross.cents = item.unitPrice.cents * item.remaining) : item.remaining < Money.bound := by
  have hle := Nat.le_mul_of_pos_left item.remaining item.unitPrice_pos
  have hlt := gross.lt_bound
  omega

private theorem cast_lt_of_lt_bound {n : ℕ} (h : n < Money.bound) :
    (n : ℚ) < 10 ^ (maxExponent + 1) := by
  have hbound : (Money.bound : ℚ) = 10 ^ (28 : ℤ) := by
    exact_mod_cast (show Money.bound = 10 ^ 28 by decide)
  calc (n : ℚ) < Money.bound := by exact_mod_cast h
    _ ≤ 10 ^ (maxExponent + 1) := by
        rw [hbound]
        exact zpow_le_zpow_right₀ (by norm_num) (by decide)

/-- Written-off units that remain are taken whole from an item of which something is left. -/
private theorem centsAt_off_eq (hb : b.Reached ctx s off net)
    (hs : s.Of ctx itemWriteOffs writeOffs)
    (hcreate : Context.create currency items selections = .ok ctx) (hitem : item ∈ items)
    (hquantity : WrittenOff.quantityOf itemWriteOffs item.id ≤ item.remaining)
    (hamount : WrittenOff.amountOf itemWriteOffs item.id < 10 ^ 9)
    (hleft : 0 < item.remaining → 0 < net.centsAt item.id) :
    off.centsAt item.id = WrittenOff.amountOf itemWriteOffs item.id := by
  obtain ⟨gross, taken, hgross, htaken, -, hcents, hfor⟩ := hb.exists_scope hs hcreate hitem
  have hexp := cast_lt_of_lt_bound (hquantity.trans_lt (remaining_lt_bound hcents))
  have hsums := WrittenOff.sums_of_collect hs.written
  have hcur := Context.inCurrency_grossRemaining (Context.valid_of_create hcreate)
    hs.grossRemaining item.id gross hgross
  obtain ⟨taken', hfor', htakencents⟩ :=
    WrittenOff.exists_forItem_whole hsums hcur hexp hamount hquantity
  obtain rfl : taken' = taken := Except.ok.inj (hfor'.symm.trans hfor)
  have hsplit := (hb.splits_remaining hs).centsAt item.id
  rw [Table.centsAt_of_find? hgross, Table.centsAt_of_find? htaken] at hsplit
  rw [Table.centsAt_of_find? htaken]
  rcases Nat.eq_zero_or_pos item.remaining with hzero | hpos
  · -- nothing is written off where nothing remains
    have hnone : item.id ∉ itemWriteOffs.map ItemWriteOff.id := by
      rw [mem_map_iff_sumAt_pos ItemWriteOff.quantity_pos]
      rw [hzero] at hquantity
      exact Nat.not_lt.2 hquantity
    have hamountzero : WrittenOff.amountOf itemWriteOffs item.id = 0 := sumAt_eq_zero hnone
    omega
  · have := hleft hpos
    omega

/-- Written-off units that remain are taken whole from a tab that keeps something of each item. -/
private theorem cents_off_eq (hb : b.Reached ctx s off net)
    (hs : s.Of ctx itemWriteOffs writeOffs)
    (hcreate : Context.create currency items selections = .ok ctx)
    (hknown : ∀ w ∈ itemWriteOffs, ∃ item ∈ items, item.id = w.id)
    (hwhole : ∀ item ∈ items, WrittenOff.quantityOf itemWriteOffs item.id ≤ item.remaining ∧
      WrittenOff.amountOf itemWriteOffs item.id < 10 ^ 9)
    (hleft : ∀ item ∈ items, 0 < item.remaining → 0 < net.centsAt item.id) :
    off.cents = (itemWriteOffs.map fun w => w.amount.cents).sum := by
  have hkeys : off.keys = items.map Item.id := by
    rw [(hb.splits_remaining hs).taken_keys, Table.keys_traverse hs.grossRemaining,
      Context.keys_items hcreate]
  have hmem : ∀ w ∈ itemWriteOffs, w.id ∈ items.map Item.id := by
    intro w hw
    obtain ⟨item, hitem, hid⟩ := hknown w hw
    exact List.mem_map.2 ⟨item, hitem, hid⟩
  rw [Table.cents_eq_sum_centsAt, hkeys, ← sum_sumAt (hkeys ▸ off.nodup_keys) hmem, List.map_map,
    List.map_map]
  congr 1
  exact List.map_congr_left fun item hitem => centsAt_off_eq hb hs hcreate hitem
    (hwhole item hitem).1 (hwhole item hitem).2 (hleft item hitem)

/-! ### Full payments -/

/-- **Paying everything.** A quote for all that remains of every item charges, while the write-offs
of the tab are written with ten digits, exactly what is outstanding less what item write-offs take
of all that remains and less the write-offs of the tab. If item write-offs are for items of the tab,
for no more units of an item than remain and for less than `10 ^ 9` cents of each, what they take is
all that is written off. -/
theorem Quote.calculate_full_payment
    (h : Quote.calculate currency items selections itemWriteOffs writeOffs = .ok q)
    (hall : ∀ item ∈ items,
      0 < item.remaining → Context.quantityOf selections item.id = item.remaining)
    (htotal : WriteOff.total writeOffs ≤ 9999999999) :
    (∃ ctx gross written off, Context.create currency items selections = .ok ctx ∧
      ctx.grossRemaining = .ok gross ∧
      WrittenOff.collect currency itemWriteOffs = .ok written ∧
      WrittenOff.allocate currency written ctx.remaining (.ofMoney gross) = .ok off ∧
      q.amount.cents + off.cents + WriteOff.total writeOffs = outstanding items) ∧
    ((∀ w ∈ itemWriteOffs, ∃ item ∈ items, item.id = w.id) →
      (∀ item ∈ items, WrittenOff.quantityOf itemWriteOffs item.id ≤ item.remaining ∧
        WrittenOff.amountOf itemWriteOffs item.id < 10 ^ 9) →
      q.amount.cents + (itemWriteOffs.map fun w => w.amount.cents).sum +
        WriteOff.total writeOffs = outstanding items) := by
  obtain ⟨ctx, s, b, off, net, paid, hcreate, hs, hb, hleft, -, hamount⟩ := Quote.exists_stages h
  obtain ⟨hpos, -, hshare⟩ := shareOfTotal_of_ok hb.share
  have hnet := hb.netSelectedTotal_eq hs hcreate hall
  have hgross := hb.netRemainingTotal_add hs hcreate
  -- the share of all that is left is all that is written off
  rw [hnet, hb.writeOffTotal_eq hs, shareCents_self hpos (by omega)] at hshare
  have hsettled : q.amount.cents + off.cents + WriteOff.total writeOffs = outstanding items := by
    omega
  refine ⟨?_, fun hknown hwhole => ?_⟩
  · obtain ⟨rfl, -⟩ := Context.of_create hcreate
    exact ⟨ctx, s.grossRemaining, s.written, off, hcreate, hs.grossRemaining, hs.written,
      hb.offRemaining, hsettled⟩
  · have hkept : ∀ item ∈ items, 0 < item.remaining → 0 < net.centsAt item.id := by
      intro item hitem hremaining
      rw [← hs.centsAt_netSelected_eq hb hcreate hitem (hall item hitem)]
      exact hleft item.id (Table.mem_keys_of_find?
        ((Context.find?_selected_eq_some_iff hcreate).2 ⟨hremaining, hall item hitem hremaining⟩))
    rw [← cents_off_eq hb hs hcreate hknown hwhole hkept]
    exact hsettled

/-- Four teas and two cakes, with one euro off three of the teas and one euro off the tab. -/
theorem Quote.calculate_full_payment_tea_and_cake :
    let tab : List Item :=
      [⟨"tea", Money.euro 150 (by decide), 4, by decide, by decide⟩,
        ⟨"cake", Money.euro 275 (by decide), 2, by decide, by decide⟩]
    let selections : List Selection :=
      [⟨"cake", 2, by decide, by decide⟩, ⟨"tea", 4, by decide, by decide⟩]
    let itemWriteOffs : List ItemWriteOff :=
      [⟨"tea", 3, Money.euro 100 (by decide), .discount, none, by decide, by decide, by decide⟩]
    let writeOffs : List WriteOff := [⟨Money.euro 100 (by decide), .other, none, by decide⟩]
    ∃ q, Quote.calculate ⟨"EUR", by decide⟩ tab selections itemWriteOffs writeOffs = .ok q ∧
      q.amount.cents + 100 + 100 = 1150 := by
  intro tab selections itemWriteOffs writeOffs
  obtain ⟨q, hq, -⟩ := exists_of_toOption
    (r := Quote.calculate ⟨"EUR", by decide⟩ tab selections itemWriteOffs writeOffs)
    (f := fun _ => ()) (v := ()) (by decide +kernel)
  obtain ⟨-, hwhole⟩ := Quote.calculate_full_payment hq (by decide) (by decide)
  exact ⟨q, hq, hwhole (by decide) (by decide)⟩

end Settlement
