import Settlement.Proofs.Payment

/-!
# Prices of a tab and of a selection

The stages of a quote are tables of amounts by item. Their sums are read off the items here: the
prices of all that remains add up to what is `outstanding` on a tab, those of a selection to its
`priceOf`. A quote never charges more than that price (`Quote.amount_le_priceOf`). Without
write-offs of items it charges the price less the share that the price has in the write-offs of the
tab (`Quote.amount_add_shareCents`).
-/

namespace Settlement

/-- The price of all that remains of items, in cents. -/
def outstanding (items : List Item) : ℕ :=
  (items.map fun item => item.unitPrice.cents * item.remaining).sum

/-- The price of a selection from items, in cents. -/
def priceOf (items : List Item) (selections : List Selection) : ℕ :=
  (items.map fun item => item.unitPrice.cents * Context.quantityOf selections item.id).sum

variable {currency : Currency} {items : List Item} {selections : List Selection}
  {itemWriteOffs : List ItemWriteOff} {writeOffs : List WriteOff} {ctx : Context}
  {gross off net : Table Money} {s : Stages} {b : Balance} {q : Quote}

/-- The quantity of an item that several selections ask for. -/
def asked (lists : List (List Selection)) (id : String) : ℕ :=
  (lists.map fun l => Context.quantityOf l id).sum

theorem asked_cons (l : List Selection) (lists : List (List Selection)) (id : String) :
    asked (l :: lists) id = Context.quantityOf l id + asked lists id :=
  List.sum_cons

/-- What several selections cost is what they cost together, item by item. -/
theorem sum_priceOf (items : List Item) (lists : List (List Selection)) :
    (lists.map (priceOf items)).sum =
      (items.map fun item => item.unitPrice.cents * asked lists item.id).sum := by
  induction lists with
  | nil => simp [asked]
  | cons l lists ih =>
    rw [List.map_cons, List.sum_cons, ih, priceOf, ← List.sum_map_add]
    simp only [asked_cons, Nat.mul_add]

/-- A selection of what remains costs at most what is outstanding. -/
theorem priceOf_le_outstanding
    (h : ∀ item ∈ items, Context.quantityOf selections item.id ≤ item.remaining) :
    priceOf items selections ≤ outstanding items :=
  List.sum_le_sum fun item hitem => Nat.mul_le_mul_left _ (h item hitem)

/-! ### Gross amounts -/

namespace Context

/-- A context lists the items of the tab. -/
theorem keys_items (h : create currency items selections = .ok ctx) :
    ctx.items.keys = items.map Item.id := by
  rw [Table.keys, (create_eq_ok_iff.1 h).2.2.1, List.map_map]
  rfl

theorem find?_items (h : create currency items selections = .ok ctx) {item : Item}
    (hitem : item ∈ items) : ctx.items.find? item.id = some item :=
  ((of_create h).2.2.1 item.id item).2 ⟨hitem, rfl⟩

/-- The selected quantity of an item. -/
theorem find?_selected_eq_some_iff (h : create currency items selections = .ok ctx) {id : String}
    {n : ℕ} : ctx.selected.find? id = some n ↔ 0 < n ∧ quantityOf selections id = n := by
  rw [(of_create h).2.1, find?_consolidate]
  split_ifs with hid
  · have hpos := mem_ids_iff.1 hid
    rw [Option.some.injEq]
    omega
  · have hzero : quantityOf selections id = 0 := sumAt_eq_zero hid
    rw [hzero]
    refine iff_of_false nofun ?_
    omega

/-- No more of an item is selected than remains. -/
theorem quantityOf_le (h : create currency items selections = .ok ctx) {item : Item}
    (hitem : item ∈ items) : quantityOf selections item.id ≤ item.remaining := by
  rcases Nat.eq_zero_or_pos (quantityOf selections item.id) with hzero | hpos
  · omega
  · obtain ⟨other, hother, hle⟩ := (valid_of_create h).remains item.id _
      ((find?_selected_eq_some_iff h).2 ⟨hpos, rfl⟩)
    cases hother.symm.trans (find?_items h hitem)
    exact hle

/-- The prices of all that remains add up to what is outstanding. -/
theorem cents_grossRemaining (hcreate : create currency items selections = .ok ctx)
    (h : ctx.grossRemaining = .ok gross) : gross.cents = outstanding items := by
  have hkeys : gross.keys = items.map Item.id := (Table.keys_traverse h).trans (keys_items hcreate)
  rw [Table.cents_eq_sum_centsAt, hkeys, List.map_map, outstanding]
  congr 1
  refine List.map_congr_left fun item hitem => ?_
  obtain ⟨m, hm, -, hcents⟩ := find?_grossRemaining h (find?_items hcreate hitem)
  rw [Function.comp_apply, Table.centsAt_of_find? hm, hcents]

/-- The price of what is selected of an item. -/
theorem centsAt_grossSelected (hcreate : create currency items selections = .ok ctx)
    (h : ctx.grossSelected = .ok gross) {item : Item} (hitem : item ∈ items) :
    gross.centsAt item.id = item.unitPrice.cents * quantityOf selections item.id := by
  rcases Nat.eq_zero_or_pos (quantityOf selections item.id) with hzero | hpos
  · -- an item that is not selected has no price in the table
    have hnone : gross.find? item.id = none := by
      rw [Table.find?_eq_none_iff, Table.keys_traverse h]
      intro hmem
      obtain ⟨n, hn⟩ := Table.exists_find?_of_mem_keys hmem
      obtain ⟨hn, hquantity⟩ := (find?_selected_eq_some_iff hcreate).1 hn
      omega
    rw [Table.centsAt, hnone, hzero]
    rfl
  · obtain ⟨item', m, hitem', hm, -, hcents⟩ :=
      find?_grossSelected h ((find?_selected_eq_some_iff hcreate).2 ⟨hpos, rfl⟩)
    cases hitem'.symm.trans (find?_items hcreate hitem)
    rw [Table.centsAt_of_find? hm, hcents]

/-- Selected items are items of the tab. -/
theorem keys_selected_subset (h : create currency items selections = .ok ctx) :
    ctx.selected.keys ⊆ items.map Item.id := by
  intro id hid
  obtain ⟨n, hn⟩ := Table.exists_find?_of_mem_keys hid
  obtain ⟨item, hitem, -⟩ := (valid_of_create h).remains id n hn
  rw [← keys_items h]
  exact Table.mem_keys_of_find? hitem

/-- The prices of what is selected add up to the price of the selection. -/
theorem cents_grossSelected (hcreate : create currency items selections = .ok ctx)
    (h : ctx.grossSelected = .ok gross) : gross.cents = priceOf items selections := by
  have hkeys : gross.keys ⊆ items.map Item.id := by
    rw [Table.keys_traverse h]
    exact keys_selected_subset hcreate
  rw [Table.cents_eq_sum_of_keys_subset (create_eq_ok_iff.1 hcreate).1.distinct hkeys, List.map_map,
    priceOf]
  congr 1
  exact List.map_congr_left fun item hitem => centsAt_grossSelected hcreate h hitem

end Context

/-! ### Without item write-offs -/

/-- Without write-offs of items nothing is taken of any. -/
theorem WrittenOff.cents_allocate_nil {c : Currency} {written : Table WrittenOff}
    {quantities : Table ℕ} {caps : Caps} (hwritten : collect c [] = .ok written)
    (h : allocate c written quantities caps = .ok off) : off.cents = 0 := by
  cases hwritten
  refine List.sum_eq_zero_iff.2 fun n hn => ?_
  obtain ⟨m, hm, rfl⟩ := List.mem_map.1 hn
  obtain ⟨id, hid⟩ := Table.mem_values_iff.1 hm
  obtain ⟨quantity, -, hstep⟩ := Table.exists_find?_of_traverse h hid
  obtain ⟨cap, -, hfor⟩ := bind_eq_ok_iff.1 hstep
  rw [forItem] at hfor
  split_ifs at hfor <;>
  · cases hfor
    rfl

/-! ### Net amounts -/

/-- The net total of a selection. -/
theorem Balance.Reached.netSelectedTotal_add (hb : b.Reached ctx s off net)
    (hs : s.Of ctx itemWriteOffs writeOffs)
    (hcreate : Context.create currency items selections = .ok ctx) :
    b.netSelectedTotal.cents + s.offSelected.cents = priceOf items selections := by
  have hcur := hs.inCurrency_netSelected (Context.valid_of_create hcreate)
  rw [← hb.netSelected] at hcur
  rw [← Context.cents_grossSelected hcreate hs.grossSelected, ← hs.splits_selected.cents,
    ((Money.sum_values_eq_ok_iff hcur).1 hb.netSelectedTotal).2, hb.netSelected]

/-- The net total of all that remains. -/
theorem Balance.Reached.netRemainingTotal_add (hb : b.Reached ctx s off net)
    (hs : s.Of ctx itemWriteOffs writeOffs)
    (hcreate : Context.create currency items selections = .ok ctx) :
    b.netRemainingTotal.cents + off.cents = outstanding items := by
  have hcur := hb.inCurrency_net hs (Context.valid_of_create hcreate)
  rw [← Context.cents_grossRemaining hcreate hs.grossRemaining, ← (hb.splits_remaining hs).cents,
    ((Money.sum_values_eq_ok_iff hcur).1 hb.netRemainingTotal).2]

/-- The sum of the write-offs of the tab. -/
theorem Balance.Reached.writeOffTotal_eq (hb : b.Reached ctx s off net)
    (hs : s.Of ctx itemWriteOffs writeOffs) :
    b.writeOffTotal.cents = WriteOff.total writeOffs := by
  rw [hb.writeOffTotal, (Money.sum_eq_ok_iff.1 hs.writeOffTotal).2.2, List.map_map]
  rfl

/-! ### Charges -/

namespace Quote

/-- **At most the price.** No more is charged than the price of the selection. -/
theorem amount_le_priceOf
    (h : calculate currency items selections itemWriteOffs writeOffs = .ok q) :
    q.amount.cents ≤ priceOf items selections := by
  obtain ⟨ctx, s, b, off, net, paid, hcreate, hs, hb, -, -, hamount⟩ := exists_stages h
  have := hb.netSelectedTotal_add hs hcreate
  omega

/-- **Without item write-offs** all is charged but the share of the price of the selection. -/
theorem amount_add_shareCents (h : calculate currency items selections [] writeOffs = .ok q) :
    0 < outstanding items ∧
      q.amount.cents +
          shareCents (WriteOff.total writeOffs) (priceOf items selections) (outstanding items) =
        priceOf items selections := by
  obtain ⟨ctx, s, b, off, net, paid, hcreate, hs, hb, -, -, hamount⟩ := exists_stages h
  obtain ⟨hpos, -, hshare⟩ := shareOfTotal_of_ok hb.share
  have hselected := hb.netSelectedTotal_add hs hcreate
  have hremaining := hb.netRemainingTotal_add hs hcreate
  rw [WrittenOff.cents_allocate_nil hs.written hs.offSelected, Nat.add_zero] at hselected
  rw [WrittenOff.cents_allocate_nil hs.written hb.offRemaining, Nat.add_zero] at hremaining
  rw [hb.writeOffTotal_eq hs, hselected, hremaining] at hshare
  exact ⟨hremaining ▸ hpos, by rw [← hshare, ← hselected, hamount]⟩

end Quote

end Settlement
