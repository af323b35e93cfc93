import Settlement.Proofs.Balance

/-!
# Two scopes of the same write-offs

Item write-offs are allocated twice in a quote: to what is selected, and to all that remains of the
tab. The second scope has at least as many units of each selected item. It is given at least as much
of the write-offs of the item, and it keeps at least as much of the item's price
(`Context.offSelected_le_offRemaining`), although the amount per unit is rounded and may be above the
unit price: an amount above the price takes the smaller scope whole, and one below it takes less than
its price from each further unit.
-/

namespace Settlement

variable {ctx : Context} {itemWriteOffs : List ItemWriteOff} {written : Table WrittenOff}
  {grossS grossR offR : Table Money}

namespace Context

/-- What item write-offs take of a scope with these quantities and prices. -/
def offScope (ctx : Context) (itemWriteOffs : List ItemWriteOff) (quantities : Table ℕ)
    (prices : Except Fault (Table Money)) : Except Fault (Table Money) := do
  let gross ← prices
  let written ← WrittenOff.collect ctx.currency itemWriteOffs
  WrittenOff.allocate ctx.currency written quantities (.ofMoney gross)

/-- What item write-offs take of the selection. -/
def offSelected (ctx : Context) (itemWriteOffs : List ItemWriteOff) :
    Except Fault (Table Money) :=
  ctx.offScope itemWriteOffs ctx.selected ctx.grossSelected

/-- What item write-offs take of all that remains. -/
def offRemaining (ctx : Context) (itemWriteOffs : List ItemWriteOff) :
    Except Fault (Table Money) :=
  ctx.offScope itemWriteOffs ctx.remaining ctx.grossRemaining

/-- Only the range stops the allocation to all that remains. -/
private theorem exists_offRemaining (hctx : ctx.Valid) (hsmall : ctx.Small)
    (hcur : ∀ w ∈ itemWriteOffs, w.amount.currency = ctx.currency)
    (hr : InRange (ctx.offRemaining itemWriteOffs)) :
    ∃ grossR written offR, ctx.grossRemaining = .ok grossR ∧
      WrittenOff.collect ctx.currency itemWriteOffs = .ok written ∧
      WrittenOff.allocate ctx.currency written ctx.remaining (.ofMoney grossR) = .ok offR := by
  rw [offRemaining, offScope] at hr
  obtain ⟨grossR, -, hgrossR⟩ := returns_grossRemaining hsmall hr.of_bind
  rw [bind_of_eq_ok hgrossR] at hr
  obtain ⟨written, -, hwritten⟩ := WrittenOff.returns_collect hcur hr.of_bind
  rw [bind_of_eq_ok hwritten] at hr
  have hkeys : grossR.keys = ctx.remaining.keys := by
    rw [Table.keys_traverse hgrossR, remaining, Table.keys_map]
  obtain ⟨offR, -, hoffR⟩ := WrittenOff.returns_allocate
    (WrittenOff.collected_of_collect hwritten) (inCurrency_grossRemaining hctx hgrossR) hkeys hr
  exact ⟨grossR, written, offR, hgrossR, hwritten, hoffR⟩

/-- There is an allocation to the selection if there is one to all that remains. -/
private theorem exists_offSelected (hctx : ctx.Valid) (hgrossR : ctx.grossRemaining = .ok grossR)
    (hgrossS : ctx.grossSelected = .ok grossS)
    (hwritten : WrittenOff.collect ctx.currency itemWriteOffs = .ok written)
    (hoffR : WrittenOff.allocate ctx.currency written ctx.remaining (.ofMoney grossR) = .ok offR) :
    ∃ offS, WrittenOff.allocate ctx.currency written ctx.selected (.ofMoney grossS) = .ok offS := by
  refine WrittenOff.exists_allocate (Table.keys_traverse hgrossS) fun id q cap hq hcap => ?_
  obtain ⟨item, hitem, hle⟩ := hctx.remains id q hq
  obtain ⟨item', price, hitem', hprice, -, hcents⟩ := find?_grossSelected hgrossS hq
  cases hitem.symm.trans hitem'
  cases hcap.symm.trans hprice
  obtain ⟨price', hprice', -, hcents'⟩ := find?_grossRemaining hgrossR hitem
  obtain ⟨cap', m', hcap', -, hfor⟩ := WrittenOff.find?_allocate hoffR
    (find?_remaining_eq_some_iff.2 ⟨item, hitem, rfl⟩)
  cases hprice'.symm.trans hcap'
  have hcaps : cap.cents ≤ price'.cents :=
    hcents ▸ hcents' ▸ Nat.mul_le_mul_left item.unitPrice.cents hle
  obtain ⟨m, hm, -⟩ := WrittenOff.exists_forItem_le (WrittenOff.collected_of_collect hwritten) hle
    (inCurrency_grossSelected hctx hgrossS id cap hcap) hcaps hfor
  exact ⟨m, hm⟩

end Context

/-- More is taken of all that remains of an item than of what is selected of it. -/
private theorem taken_le_taken {s : Stages} {writeOffs : List WriteOff} {id : String}
    (h : s.Of ctx itemWriteOffs writeOffs) (hctx : ctx.Valid)
    (hoff : WrittenOff.allocate ctx.currency s.written ctx.remaining (.ofMoney s.grossRemaining) =
      .ok offR) (hid : id ∈ ctx.selected.keys) :
    ∃ taken taken', s.offSelected.find? id = some taken ∧ offR.find? id = some taken' ∧
      taken.cents ≤ taken'.cents := by
  obtain ⟨q, item, price, price', taken, taken', hq, -, hle, hprice, hcents, -, hcents', htaken,
    hfor, htaken', hfor'⟩ := h.exists_scopes hctx hoff hid
  have hcaps : price.cents ≤ price'.cents :=
    hcents ▸ hcents' ▸ Nat.mul_le_mul_left item.unitPrice.cents hle
  obtain ⟨m, hm, hmle⟩ := WrittenOff.exists_forItem_le
    (WrittenOff.collected_of_collect h.written) hle
    (Context.inCurrency_grossSelected hctx h.grossSelected id price hprice) hcaps hfor'
  obtain rfl : taken = m := Except.ok.inj (hfor.symm.trans hm)
  exact ⟨taken, taken', htaken, htaken', hmle⟩

/-- **Selection and tab.** As long as what item write-offs take of a small tab stays in range, they
are allocated to the selection too. Each selected item is given no more in the selection than in the
tab, and no more is left of it there; so that no more is left of the selection than of the tab. -/
theorem Context.offSelected_le_offRemaining (hctx : ctx.Valid) (hsmall : ctx.Small)
    (hcur : ∀ w ∈ itemWriteOffs, w.amount.currency = ctx.currency)
    (hr : InRange (ctx.offRemaining itemWriteOffs)) :
    ∃ grossS grossR offS offR netS netR,
      ctx.grossSelected = .ok grossS ∧ ctx.grossRemaining = .ok grossR ∧
      ctx.offSelected itemWriteOffs = .ok offS ∧ ctx.offRemaining itemWriteOffs = .ok offR ∧
      subtractPerItem grossS offS = .ok netS ∧ subtractPerItem grossR offR = .ok netR ∧
      (∀ id ∈ ctx.selected.keys, ∃ taken taken' left left',
        offS.find? id = some taken ∧ offR.find? id = some taken' ∧
        netS.find? id = some left ∧ netR.find? id = some left' ∧
        taken.cents ≤ taken'.cents ∧ left.cents ≤ left'.cents) ∧
      netS.cents ≤ netR.cents ∧
      ∀ total', Money.sum ctx.currency Money.sumContext netR.values = .ok total' →
        ∃ total, Money.sum ctx.currency Money.sumContext netS.values = .ok total ∧
          total.cents ≤ total'.cents := by
  obtain ⟨grossR, written, offR, hgrossR, hwritten, hoffR⟩ :=
    exists_offRemaining hctx hsmall hcur hr
  obtain ⟨grossS, hgrossS⟩ := exists_grossSelected hctx hgrossR
  obtain ⟨offS, hoffS⟩ := exists_offSelected hctx hgrossR hgrossS hwritten hoffR
  have hcurS := inCurrency_grossSelected hctx hgrossS
  have hcurR := inCurrency_grossRemaining hctx hgrossR
  obtain ⟨netS, hnetS⟩ :=
    exists_subtract hcurS (WrittenOff.within_of_allocate (Table.keys_traverse hgrossS) hoffS)
  -- these are the stages of a selection from a tab without write-offs of its own
  have hs : Stages.Of ⟨.zero ctx.currency, grossR, grossS, written, offS, netS⟩ ctx itemWriteOffs
      [] := ⟨rfl, hgrossR, hgrossS, hwritten, hoffS, hnetS⟩
  have hwithin := hs.within_remaining hoffR
  obtain ⟨netR, hnetR⟩ := exists_subtract hcurR hwithin
  have hle := hs.netSelected_le hctx hsmall hoffR hnetR
  have hkeysR : netR.keys = ctx.items.keys :=
    (splits_of_subtract hwithin.keys hnetR).left_keys.trans (Table.keys_traverse hgrossR)
  refine ⟨grossS, grossR, offS, offR, netS, netR, hgrossS, hgrossR, ?_, ?_, hnetS, hnetR,
    fun id hid => ?_, hle, fun total' htotal' => ?_⟩
  · rw [offSelected, offScope, bind_of_eq_ok hgrossS, bind_of_eq_ok hwritten, hoffS]
  · rw [offRemaining, offScope, bind_of_eq_ok hgrossR, bind_of_eq_ok hwritten, hoffR]
  · obtain ⟨taken, taken', htaken, htaken', htakenle⟩ := taken_le_taken hs hctx hoffR hid
    obtain ⟨left, hleft⟩ := Table.exists_find?_of_mem_keys (hs.keys_netSelected ▸ hid)
    obtain ⟨q, hq⟩ := Table.exists_find?_of_mem_keys hid
    obtain ⟨item, hitem, -⟩ := hctx.remains id q hq
    obtain ⟨left', hleft'⟩ := Table.find?_isSome_of_keys_eq hkeysR hitem
    have hleftle := hs.centsAt_netSelected_le hctx hsmall hoffR hnetR hid
    rw [Table.centsAt_of_find? hleft, Table.centsAt_of_find? hleft'] at hleftle
    exact ⟨taken, taken', left, left', htaken, htaken', hleft, hleft', htakenle, hleftle⟩
  · have hsumS := hs.inCurrency_netSelected hctx
    have hsumR := inCurrency_of_subtract hwithin.keys hcurR hnetR
    have hcents' := ((Money.sum_values_eq_ok_iff hsumR).1 htotal').2
    obtain ⟨total, htotal⟩ := Money.exists_sum_values Money.sumContext hsumS
      ((hcents' ▸ hle).trans_lt total'.lt_bound)
    have hcents := ((Money.sum_values_eq_ok_iff hsumS).1 htotal).2
    exact ⟨total, htotal, by rw [hcents, hcents']; exact hle⟩

/-- Two teas of four are selected, of which three are written off at more than they cost: the two
take the three euro they cost, and the four take all five that are written off. -/
theorem Context.offSelected_le_offRemaining_tea :
    let tea : Item := ⟨"tea", Money.euro 150 (by decide), 4, by decide, by decide⟩
    let ctx : Context :=
      ⟨⟨"EUR", by decide⟩, ⟨[("tea", tea)], by decide⟩, ⟨[("tea", 2)], by decide⟩⟩
    let itemWriteOffs : List ItemWriteOff :=
      [⟨"tea", 3, Money.euro 500 (by decide), .discount, none, by decide, by decide, by decide⟩]
    ∃ offS offR, ctx.offSelected itemWriteOffs = .ok offS ∧
      ctx.offRemaining itemWriteOffs = .ok offR ∧ ∃ taken taken',
        offS.find? "tea" = some taken ∧ offR.find? "tea" = some taken' ∧
        taken.cents ≤ taken'.cents := by
  intro tea ctx itemWriteOffs
  have hcreate : Context.create ⟨"EUR", by decide⟩ [tea] [⟨"tea", 2, by decide, by decide⟩] =
      .ok ctx := rfl
  have hcur : ∀ w ∈ itemWriteOffs, w.amount.currency = ctx.currency := by decide
  have hrange : leavesRange (ctx.offRemaining itemWriteOffs) = false := by decide +kernel
  have hsmall : ctx.Small := by
    intro id item hitem
    obtain ⟨hmem, -⟩ := ((Context.of_create hcreate).2.2.1 id item).1 hitem
    obtain rfl := List.mem_singleton.1 hmem
    decide
  obtain ⟨_, _, offS, offR, _, _, -, -, hoffS, hoffR, -, -, hitems, -⟩ :=
    Context.offSelected_le_offRemaining (Context.valid_of_create hcreate) hsmall hcur
      (inRange_of_leavesRange hrange)
  obtain ⟨taken, taken', _, _, htaken, htaken', -, -, hle, -⟩ := hitems "tea" (by decide)
  exact ⟨offS, offR, hoffS, hoffR, taken, taken', htaken, htaken', hle⟩

end Settlement
