import Settlement.Proofs.Prices
import Settlement.Proofs.QuoteOutcome

/-!
# Quotes without write-offs

Where nothing is written off, a selection is charged its price (`Quote.amount_eq_priceOf`). There is
a quote for every selection that is accepted, of a tab whose outstanding amount is in range, and for
no other selection (`Quote.exists_calculate_iff`): all stages return, nothing is taken at any, and
something is left of each item, as no item is free.
-/

namespace Settlement

variable {currency : Currency} {items : List Item} {selections : List Selection} {ctx : Context}
  {gross : Table Money} {q : Quote}

/-! ### Gross amounts -/

namespace Context

private theorem exists_grossRemaining (hcreate : create currency items selections = .ok ctx)
    (hlt : outstanding items < Money.bound) : ∃ gross, ctx.grossRemaining = .ok gross := by
  refine Table.exists_traverse fun id item hfind => Money.exists_times ?_
  have hitem := (((of_create hcreate).2.2.1 id item).1 hfind).1
  exact (List.single_le_sum (fun _ _ => Nat.zero_le _) _ (List.mem_map_of_mem hitem)).trans_lt hlt

/-- No selected item is free. -/
private theorem centsAt_grossSelected_pos (hctx : ctx.Valid) (h : ctx.grossSelected = .ok gross)
    {id : String} (hid : id ∈ ctx.selected.keys) : 0 < gross.centsAt id := by
  obtain ⟨n, hn⟩ := Table.exists_find?_of_mem_keys hid
  obtain ⟨item, m, -, hm, -, hprice⟩ := find?_grossSelected h hn
  rw [Table.centsAt_of_find? hm, hprice]
  exact Nat.mul_pos item.unitPrice_pos (hctx.positive id n hn)

end Context

/-- Where nothing is written off, a scope keeps its prices. -/
private theorem exists_net {c : Currency} {quantities : Table ℕ} (hgross : gross.InCurrency c)
    (hkeys : gross.keys = quantities.keys) :
    ∃ off net, WrittenOff.allocate c .empty quantities (.ofMoney gross) = .ok off ∧
      subtractPerItem gross off = .ok net ∧ net.keys = gross.keys ∧ net.InCurrency c ∧
      net.cents = gross.cents ∧ ∀ id, net.centsAt id = gross.centsAt id := by
  obtain ⟨off, hoff⟩ : ∃ off,
      WrittenOff.allocate c .empty quantities (.ofMoney gross) = .ok off := by
    refine Table.exists_traverse fun id quantity hq => ⟨.zero c, ?_⟩
    obtain ⟨cap, hcap⟩ := Table.find?_isSome_of_keys_eq hkeys hq
    rw [Caps.require_ofMoney, hcap]
    change WrittenOff.forItem c .empty id quantity (.given cap) = _
    rw [WrittenOff.forItem]
    split_ifs <;> rfl
  have hwithin := WrittenOff.within_of_allocate hkeys hoff
  have hzero := WrittenOff.cents_allocate_nil rfl hoff
  obtain ⟨net, hnet⟩ := exists_subtract hgross hwithin
  have hsplits := splits_of_subtract hwithin.keys hnet
  refine ⟨off, net, hoff, hnet, hsplits.left_keys, inCurrency_of_subtract hwithin.keys hgross hnet,
    ?_, fun id => ?_⟩
  · have := hsplits.cents
    omega
  · have := hsplits.centsAt id
    have := off.centsAt_le_cents id
    omega

/-! ### Balances -/

namespace Balance

private theorem requirePayable_of_pos {net : Table Money}
    (h : ∀ id ∈ net.keys, 0 < net.centsAt id) : requirePayable net.entries = .ok () := by
  rw [requirePayable_eq_ok_iff]
  intro e he
  have hfind := Table.find?_eq_some_iff.2 he
  have hpos := h e.1 (Table.mem_keys_of_find? hfind)
  rw [Table.centsAt_of_find? hfind] at hpos
  exact Money.isZero_eq_false_iff.2 hpos

/-- Amounts whose sum is in range and not zero have a total that is not zero. -/
private theorem exists_total {net : Table Money} {c : Currency} (hnet : net.InCurrency c)
    (hpos : 0 < net.cents) (hlt : net.cents < Money.bound) :
    ∃ total, Money.sum c Money.sumContext net.values = .ok total ∧ total.isZero = false ∧
      total.currency.code = c.code ∧ 0 < total.cents := by
  obtain ⟨total, htotal⟩ := Money.exists_sum_values Money.sumContext hnet hlt
  obtain ⟨hcur, hcents⟩ := (Money.sum_values_eq_ok_iff hnet).1 htotal
  rw [← hcents] at hpos
  exact ⟨total, htotal, Money.isZero_eq_false_iff.2 hpos, congrArg _ hcur, hpos⟩

/-- Where nothing is written off, there is a balance as long as what is outstanding is in range. -/
private theorem exists_ofContext (hcreate : Context.create currency items selections = .ok ctx)
    (hlt : outstanding items < Money.bound) : ∃ b, ofContext ctx [] [] = .ok b := by
  have hctx := Context.valid_of_create hcreate
  have hle := priceOf_le_outstanding fun item hitem => Context.quantityOf_le hcreate hitem
  obtain ⟨grossR, hgrossR⟩ := Context.exists_grossRemaining hcreate hlt
  obtain ⟨grossS, hgrossS⟩ := Context.exists_grossSelected hctx hgrossR
  have hkeysS := Table.keys_traverse hgrossS
  have hkeysR : grossR.keys = ctx.remaining.keys := by
    rw [Table.keys_traverse hgrossR, Context.remaining, Table.keys_map]
  obtain ⟨offS, netS, hoffS, hnetS, hnetkeysS, hcurS, hcentsS, hatS⟩ :=
    exists_net (Context.inCurrency_grossSelected hctx hgrossS) hkeysS
  obtain ⟨offR, netR, hoffR, hnetR, -, hcurR, hcentsR, -⟩ :=
    exists_net (Context.inCurrency_grossRemaining hctx hgrossR) hkeysR
  rw [Context.cents_grossSelected hcreate hgrossS] at hcentsS
  rw [Context.cents_grossRemaining hcreate hgrossR] at hcentsR
  -- no selected item is free, so that neither total is zero
  have hpos : ∀ id ∈ netS.keys, 0 < netS.centsAt id := by
    intro id hid
    rw [hnetkeysS, hkeysS] at hid
    rw [hatS]
    exact Context.centsAt_grossSelected_pos hctx hgrossS hid
  have hprice : 0 < priceOf items selections := by
    obtain ⟨e, he⟩ := List.exists_mem_of_ne_nil _ hctx.nonempty
    have hid : e.1 ∈ netS.keys := by
      rw [hnetkeysS, hkeysS]
      exact List.mem_map_of_mem he
    rw [← hcentsS]
    exact (hpos e.1 hid).trans_le (netS.centsAt_le_cents e.1)
  obtain ⟨totalS, htotalS, hzeroS, hcodeS, -⟩ := exists_total hcurS (by omega) (by omega)
  obtain ⟨totalR, htotalR, hzeroR, hcodeR, hposR⟩ := exists_total hcurR (by omega) (by omega)
  have hshare : shareOfTotal ctx.currency.code (.zero ctx.currency) totalS totalR =
      .ok (.zero ctx.currency) := shareOfTotal_of_zero rfl hcodeS hcodeR hposR rfl
  have hnothing : Money.sum ctx.currency "session write-offs"
      (([] : List WriteOff).map WriteOff.amount) = .ok (.zero ctx.currency) := rfl
  have hwritten : WrittenOff.collect ctx.currency [] = .ok .empty := rfl
  refine ⟨⟨.zero ctx.currency, netS, totalS, totalR, .zero ctx.currency⟩, ?_⟩
  rw [ofContext, bind_of_eq_ok hnothing, bind_of_eq_ok hgrossR, bind_of_eq_ok hgrossS,
    bind_of_eq_ok hwritten, bind_of_eq_ok hoffS, bind_of_eq_ok hnetS,
    bind_of_eq_ok (requirePayable_of_pos hpos), bind_of_eq_ok htotalS, hzeroS,
    if_neg Bool.false_ne_true, bind_of_eq_ok hoffR, bind_of_eq_ok hnetR, bind_of_eq_ok htotalR,
    hzeroR, if_neg Bool.false_ne_true, bind_of_eq_ok hshare]

end Balance

/-! ### Quotes -/

namespace Quote

/-- **Prices.** Where nothing is written off, a selection is charged its price. -/
theorem amount_eq_priceOf (h : calculate currency items selections [] [] = .ok q) :
    q.amount.cents = priceOf items selections := by
  obtain ⟨-, hamount⟩ := amount_add_shareCents h
  rwa [WriteOff.total_nil, shareCents_eq_zero (.inl rfl), Nat.add_zero] at hamount

private theorem exists_ofBalance {b : Balance} (hctx : ctx.Valid)
    (hbalance : Balance.ofContext ctx [] [] = .ok b) : ∃ q, ofBalance ctx b = .ok q := by
  obtain ⟨s, off, net, hs, hb, hnone⟩ := Balance.exists_stages hbalance
  have hnet : b.netSelected.InCurrency b.share.currency := by
    rw [hb.netSelected, currency_share hs hb]
    exact hs.inCurrency_netSelected hctx
  have hzero : b.share.cents = 0 := by
    rw [(shareOfTotal_of_ok hb.share).2.2, hb.writeOffTotal_eq hs]
    exact shareCents_eq_zero (.inl rfl) _
  obtain ⟨share, hshare, hnothing⟩ : ∃ share,
      Allocation.allocate ctx.currency.code b.share b.netSelected = .ok share ∧
        share.cents = 0 := by
    have hallocate := Allocation.allocate_of_zero hnet hzero
    have hsum := (Allocation.within_of_allocate hnet hallocate).2
    rw [currency_share hs hb] at hallocate hsum
    exact ⟨_, hallocate, hsum.trans hzero⟩
  obtain ⟨paid, -, -, ⟨id, hfirst, -⟩ | ⟨-, hquote⟩⟩ := ofBalance_of_allocate hctx hs hb hshare
  · -- nothing is taken of an item, so that none is taken whole
    have htaken := List.find?_some hfirst
    have hpos := (hs.netSelected_pos hctx hnone).1 id (List.mem_of_find?_eq_some hfirst)
    have hle := share.centsAt_le_cents id
    rw [decide_eq_true_iff, hb.netSelected] at htaken
    omega
  · exact hquote

/-- **Quotes without write-offs.** There is a quote for the selections for which a context is
created, as long as what is outstanding is in range. -/
theorem exists_calculate_iff :
    (∃ q, calculate currency items selections [] [] = .ok q) ↔
      (∃ ctx, Context.create currency items selections = .ok ctx) ∧
        outstanding items < Money.bound := by
  constructor
  · rintro ⟨q, h⟩
    obtain ⟨ctx, s, b, off, net, paid, hcreate, hs, hb, -⟩ := exists_stages h
    have hremaining := hb.netRemainingTotal_add hs hcreate
    rw [WrittenOff.cents_allocate_nil hs.written hb.offRemaining, Nat.add_zero] at hremaining
    exact ⟨⟨ctx, hcreate⟩, hremaining ▸ b.netRemainingTotal.lt_bound⟩
  · rintro ⟨⟨ctx, hcreate⟩, hlt⟩
    obtain ⟨b, hbalance⟩ := Balance.exists_ofContext hcreate hlt
    obtain ⟨q, hq⟩ := exists_ofBalance (Context.valid_of_create hcreate) hbalance
    exact ⟨q, bind_eq_ok_iff.2 ⟨ctx, hcreate, bind_eq_ok_iff.2 ⟨b, hbalance, hq⟩⟩⟩

end Quote

end Settlement
