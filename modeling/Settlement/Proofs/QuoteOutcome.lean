import Settlement.Proofs.Payment

/-!
# How a quote ends

Write-offs may leave nothing to pay of a selected item, or exceed what there is to pay. There is no
other way to be refused for a valid selection on a small tab whose amounts stay in range:
`Quote.calculate_outcome` says which of the causes ends a calculation, in which order they are
looked for, and that there is a quote when none applies.

All other refusals are unreachable. Nothing that is divided by is zero, as the selection keeps no
more of its price than the tab does; no cap or amount is missing, as all tables have the keys of the
selection; and paid items and quotes are made of values that pass their checks.
-/

namespace Settlement.Quote

open Table (Within Splits)

variable {ctx : Context} {paid : Table Money} {amount : Money} {items : List PaidItem}
  {itemWriteOffs : List ItemWriteOff} {writeOffs : List WriteOff} {s : Stages} {b : Balance}
  {off net : Table Money}

/-! ### Paying -/

/-- Amounts that can be **paid** for a selection: each is at most the price of what is selected, a
price that is itself an amount of money. -/
def Payable (ctx : Context) (paid : Table Money) (e : String × ℕ) : Prop :=
  Text.isBlankText e.1 = false ∧ 0 < e.2 ∧ ∃ item m, ctx.items.find? e.1 = some item ∧
    paid.find? e.1 = some m ∧ item.unitPrice.currency = m.currency ∧
    m.cents ≤ item.unitPrice.cents * e.2 ∧ item.unitPrice.cents * e.2 < Money.bound

/-- **Paying.** A payment is refused for the first item of which nothing is left, and for no other
cause. -/
theorem paidItems_cases {l : List (String × ℕ)} (h : ∀ e ∈ l, Payable ctx paid e) :
    (∃ id, (l.map Prod.fst).find? (fun id => paid.centsAt id = 0) = some id ∧
        paidItems ctx paid l = .error (.zeroPayableItem id)) ∨
      ((l.map Prod.fst).find? (fun id => paid.centsAt id = 0) = none ∧
        ∃ items, paidItems ctx paid l = .ok items) := by
  induction l with
  | nil => exact .inr ⟨rfl, [], rfl⟩
  | cons e l ih =>
    obtain ⟨id, quantity⟩ := e
    obtain ⟨hid, hquantity, item, m, hitem, hm, hcur, hle, hlt⟩ := h _ List.mem_cons_self
    rw [paidItems, hm, List.map_cons, List.find?_cons, Table.centsAt_of_find? hm]
    rcases Nat.eq_zero_or_pos m.cents with hzero | hpos
    · refine .inl ⟨id, by simp [hzero], ?_⟩
      simp only [(Money.isZero_iff m).2 hzero, if_true]
    · -- the item is paid, and the others decide
      have hnz := Money.isZero_eq_false_iff.2 hpos
      obtain ⟨p, hp⟩ := PaidItem.exists_ofValues hid hquantity hcur hpos hle hlt
      rw [decide_eq_false hpos.ne']
      rcases ih fun e he => h e (List.mem_cons_of_mem _ he) with
        ⟨first, hfirst, hfault⟩ | ⟨hnone, rest, hrest⟩
      · refine .inl ⟨first, hfirst, ?_⟩
        simp only [hnz, bind, Except.bind, Context.item_eq_ok_iff.2 hitem, hp, hfault]
        rfl
      · refine .inr ⟨hnone, p :: rest, ?_⟩
        simp only [hnz, bind, Except.bind, Context.item_eq_ok_iff.2 hitem, hp, hrest]
        rfl

/-- Items that pay something in the currency of an amount make a quote of it. -/
theorem exists_create (hpos : 0 < amount.cents) (hne : items ≠ [])
    (hcur : ∀ p ∈ items, p.paid.currency = amount.currency) :
    ∃ q, create amount items = .ok q := by
  rw [create, dif_pos hpos, dif_pos hne]
  split
  · rename_i p hp
    have hmem := List.mem_of_find?_eq_some hp
    have hne := List.find?_some hp
    simp [hcur p hmem] at hne
  · exact ⟨_, rfl⟩

/-- What is left after both kinds of write-offs can be paid. -/
private theorem payable_of_splits {share : Table Money} (hctx : ctx.Valid)
    (hs : s.Of ctx itemWriteOffs writeOffs) (hsplits : Splits s.netSelected share paid)
    (hcur : paid.InCurrency ctx.currency) : ∀ e ∈ ctx.selected.entries, Payable ctx paid e := by
  intro e he
  have hq := Table.find?_eq_some_iff.2 he
  have hid := Table.mem_keys_of_find? hq
  obtain ⟨item, hitem, -⟩ := hctx.remains e.1 e.2 hq
  obtain ⟨item', v, hitem', hv, -, hprice⟩ := Context.find?_grossSelected hs.grossSelected hq
  cases hitem.symm.trans hitem'
  have hkeys : paid.keys = ctx.selected.keys := hsplits.left_keys.trans hs.keys_netSelected
  obtain ⟨m, hm⟩ := Table.exists_find?_of_mem_keys (hkeys ▸ hid)
  have hfirst := hs.splits_selected.centsAt e.1
  have hsecond := hsplits.centsAt e.1
  rw [Table.centsAt_of_find? hv] at hfirst
  rw [Table.centsAt_of_find? hm] at hsecond
  have hlt := v.lt_bound
  refine ⟨hctx.notBlank e.1 hid, hctx.positive e.1 e.2 hq, item, m, hitem, hm, ?_, ?_, ?_⟩
  · rw [hctx.priced e.1 item hitem, hcur e.1 m hm]
  · omega
  · omega

/-- Items that pay something make a quote of their sum. -/
private theorem exists_assemble (hctx : ctx.Valid) (hcur : paid.InCurrency ctx.currency)
    (hitems : paidItems ctx paid ctx.selected.entries = .ok items)
    (hpos : ∀ id ∈ ctx.selected.keys, 0 < paid.centsAt id) (hlt : paid.cents < Money.bound) :
    ∃ q, assemble ctx paid = .ok q := by
  have hpays := paysFor_of_paidItems hitems
  rcases Money.sum_values_cases Money.sumContext hcur with ⟨amount, hamount⟩ | ⟨-, hbound⟩
  swap
  · omega
  obtain ⟨hamountcur, hcents⟩ := (Money.sum_values_eq_ok_iff hcur).1 hamount
  -- a selection is not empty, so that the amount is not zero either
  obtain ⟨e, he⟩ := List.exists_mem_of_ne_nil _ hctx.nonempty
  have hamountpos : 0 < amount.cents := by
    have hpart := hpos e.1 (List.mem_map_of_mem he)
    have hle := paid.centsAt_le_cents e.1
    omega
  have hne : items ≠ [] := by
    rintro rfl
    exact hctx.nonempty (List.forall₂_nil_right_iff.1 hpays)
  have hsame : ∀ p ∈ items, p.paid.currency = amount.currency := by
    intro p hp
    obtain ⟨e, -, -, -, hfind, -⟩ := exists_entry hpays hp
    exact (hcur e.1 p.paid hfind).trans hamountcur.symm
  obtain ⟨q, hq⟩ := exists_create hamountpos hne hsame
  refine ⟨q, ?_⟩
  rw [assemble, bind_of_eq_ok hitems, bind_of_eq_ok hamount,
    Money.isZero_eq_false_iff.2 hamountpos, if_neg Bool.false_ne_true, hq]

/-- **Assembling.** What is left is paid, unless nothing is left of an item. -/
private theorem assemble_cases {share : Table Money} (hctx : ctx.Valid)
    (hs : s.Of ctx itemWriteOffs writeOffs) (hsplits : Splits s.netSelected share paid)
    (hcur : paid.InCurrency ctx.currency) (hlt : s.netSelected.cents < Money.bound) :
    (∃ id, firstTaken? ctx.selected.keys s.netSelected share = some id ∧
        assemble ctx paid = .error (.zeroPayableItem id)) ∨
      (firstTaken? ctx.selected.keys s.netSelected share = none ∧
        ∃ q, assemble ctx paid = .ok q) := by
  have hpred : (fun id => decide (share.centsAt id = s.netSelected.centsAt id)) =
      fun id => decide (paid.centsAt id = 0) := by
    funext id
    have hsplit := hsplits.centsAt id
    rw [decide_eq_decide]
    omega
  rw [firstTaken?, hpred]
  rcases paidItems_cases (payable_of_splits hctx hs hsplits hcur) with
    ⟨id, hfirst, hfault⟩ | ⟨hnone, items, hitems⟩
  · refine .inl ⟨id, hfirst, ?_⟩
    rw [assemble, hfault]
    rfl
  · have hpos : ∀ id ∈ ctx.selected.keys, 0 < paid.centsAt id := by
      intro id hid
      have hnz := List.find?_eq_none.1 hnone id hid
      rw [decide_eq_true_iff] at hnz
      exact Nat.pos_of_ne_zero hnz
    have hle := hsplits.cents
    exact .inr ⟨hnone, exists_assemble hctx hcur hitems hpos (by omega)⟩

/-! ### The outcome -/

/-- A share that is given out leaves something to pay, but perhaps not of each item. -/
theorem ofBalance_of_allocate (hctx : ctx.Valid) (hs : s.Of ctx itemWriteOffs writeOffs)
    (hb : b.Reached ctx s off net) {share : Table Money}
    (hshare : Allocation.allocate ctx.currency.code b.share b.netSelected = .ok share) :
    ∃ paid, subtractPerItem b.netSelected share = .ok paid ∧ paid.keys = ctx.selected.keys ∧
      ((∃ id, firstTaken? ctx.selected.keys b.netSelected share = some id ∧
          ofBalance ctx b = .error (.zeroPayableItem id)) ∨
        (firstTaken? ctx.selected.keys b.netSelected share = none ∧
          ∃ q, ofBalance ctx b = .ok q)) := by
  have hnet : b.netSelected.InCurrency ctx.currency := by
    rw [hb.netSelected]
    exact hs.inCurrency_netSelected hctx
  have hcaps : b.netSelected.InCurrency b.share.currency := currency_share hs hb ▸ hnet
  have hwithin : Within ctx.currency b.netSelected share := by
    have hallocate := hshare
    rw [← currency_share hs hb] at hallocate ⊢
    exact (Allocation.within_of_allocate hcaps hallocate).1
  have hlt : s.netSelected.cents < Money.bound := by
    rw [← hb.netSelected, ← ((Money.sum_values_eq_ok_iff hnet).1 hb.netSelectedTotal).2]
    exact b.netSelectedTotal.lt_bound
  obtain ⟨paid, hpaid⟩ := exists_subtract hnet hwithin
  have hsplits := splits_of_subtract hwithin.keys hpaid
  have hcur := inCurrency_of_subtract hwithin.keys hnet hpaid
  rw [ofBalance, bind_of_eq_ok hshare, bind_of_eq_ok hpaid]
  rw [hb.netSelected] at hsplits hpaid ⊢
  exact ⟨paid, hpaid, hsplits.left_keys.trans hs.keys_netSelected,
    assemble_cases hctx hs hsplits hcur hlt⟩

/-- **Ends of a quote.** A reached balance has more to write off than to pay, or something is left
to pay, but perhaps not of each item. -/
theorem ofBalance_cases (hctx : ctx.Valid) (hs : s.Of ctx itemWriteOffs writeOffs)
    (hb : b.Reached ctx s off net)
    (hnone : firstTaken? ctx.selected.keys s.grossSelected s.offSelected = none)
    (hr : InRange (ofBalance ctx b)) :
    (b.netSelectedTotal.cents < b.share.cents ∧ ∃ ids, ofBalance ctx b = .error (.noHeadroom ids)) ∨
      (b.share.cents ≤ b.netSelectedTotal.cents ∧
        ∃ share paid, Allocation.allocate ctx.currency.code b.share b.netSelected = .ok share ∧
          subtractPerItem b.netSelected share = .ok paid ∧ paid.keys = ctx.selected.keys ∧
          ((∃ id, firstTaken? ctx.selected.keys b.netSelected share = some id ∧
              ofBalance ctx b = .error (.zeroPayableItem id)) ∨
            (firstTaken? ctx.selected.keys b.netSelected share = none ∧
              ∃ q, ofBalance ctx b = .ok q))) := by
  have hnet : b.netSelected.InCurrency ctx.currency := by
    rw [hb.netSelected]
    exact hs.inCurrency_netSelected hctx
  have hpos := (hs.netSelected_pos hctx hnone).2
  rw [← hb.netSelected] at hpos
  have htotal := ((Money.sum_values_eq_ok_iff hnet).1 hb.netSelectedTotal).2
  have hcases := Allocation.allocate_cases (currency_share hs hb ▸ hnet)
  rw [currency_share hs hb] at hcases
  rcases hcases with ⟨share, hshare, hwithin, hsum⟩ | ⟨-, hzero, -⟩ | ⟨ids, hfault, -, hless⟩ |
    ⟨⟨x, hx⟩, -⟩
  · right
    have hle := hwithin.cents_le
    obtain ⟨paid, hpaid, hkeys, hends⟩ := ofBalance_of_allocate hctx hs hb hshare
    exact ⟨by omega, share, paid, hshare, hpaid, hkeys, hends⟩
  · -- something is left of the selection, so that its caps are not all zero
    omega
  · left
    refine ⟨by omega, ids, ?_⟩
    rw [ofBalance, hfault]
    rfl
  · rw [ofBalance] at hr
    exact absurd hx (hr.of_bind x)

variable {currency : Currency} {tab : List Item} {selections : List Selection}

/-- **Outcome of a quote.** For a valid selection, with write-offs in the currency of the tab, fewer
than `10 ^ 18` units of each item and amounts in range, the first of these causes ends it: item
write-offs take the whole price of a selected item, the first one is named; the share in the
write-offs of the tab is more than there is to pay; the share takes all that is left of a selected
item, the first one is named. Without a cause there is a quote. The table that is paid from has the
keys of the selection, and no other fault is ever raised. -/
theorem calculate_outcome (itemWriteOffs : List ItemWriteOff) (writeOffs : List WriteOff)
    (hcreate : Context.create currency tab selections = .ok ctx)
    (hsmall : ∀ item ∈ tab, item.remaining < 10 ^ 18)
    (hitems : ∀ w ∈ itemWriteOffs, w.amount.currency = currency)
    (htab : ∀ w ∈ writeOffs, w.amount.currency = currency)
    (hr : InRange (calculate currency tab selections itemWriteOffs writeOffs)) :
    (∃ s, Stages.Of s ctx itemWriteOffs writeOffs ∧
      match firstTaken? (selections.map Selection.id).eraseDups s.grossSelected s.offSelected with
      | some id =>
        calculate currency tab selections itemWriteOffs writeOffs = .error (.zeroPayableItem id)
      | none => ∃ b off net, Balance.Reached b ctx s off net ∧
        if b.netSelectedTotal.cents < b.share.cents then
          ∃ f, calculate currency tab selections itemWriteOffs writeOffs = .error f ∧
            f.category = .allocation
        else
          ∃ share paid, Allocation.allocate currency.code b.share b.netSelected = .ok share ∧
            subtractPerItem b.netSelected share = .ok paid ∧
            paid.keys = (selections.map Selection.id).eraseDups ∧
            match firstTaken? (selections.map Selection.id).eraseDups b.netSelected share with
            | some id =>
              calculate currency tab selections itemWriteOffs writeOffs =
                .error (.zeroPayableItem id)
            | none =>
              ∃ q, calculate currency tab selections itemWriteOffs writeOffs = .ok q) ∧
    ∀ f, calculate currency tab selections itemWriteOffs writeOffs = .error f →
      (∃ id, f = .zeroPayableItem id) ∨ ∃ ids, f = .noHeadroom ids := by
  have hctx := Context.valid_of_create hcreate
  obtain ⟨rfl, hselected, hfind, -⟩ := Context.of_create hcreate
  have hkeys : (selections.map Selection.id).eraseDups = ctx.selected.keys := by
    rw [hselected, Context.keys_consolidate]
  have hctxsmall : ctx.Small := fun id item hitem => hsmall item ((hfind id item).1 hitem).1
  have hcalculate : calculate ctx.currency tab selections itemWriteOffs writeOffs =
      (do ofBalance ctx (← Balance.ofContext ctx itemWriteOffs writeOffs)) :=
    bind_of_eq_ok hcreate _
  rw [hcalculate] at hr ⊢
  rw [hkeys]
  obtain ⟨s, hs, ⟨id, hfirst, hfault⟩ | ⟨hnone, off, net, b, hbalance, hb⟩⟩ :=
    Balance.ofContext_cases hctx hctxsmall hitems htab hr.of_bind
  · -- item write-offs take the whole price of an item
    rw [hfault]
    refine ⟨⟨s, hs, ?_⟩, ?_⟩
    · rw [hfirst]
      rfl
    · rintro f ⟨rfl⟩
      exact .inl ⟨id, rfl⟩
  · rw [bind_of_eq_ok hbalance] at hr ⊢
    rcases ofBalance_cases hctx hs hb hnone hr with ⟨hless, ids, hfault⟩ |
      ⟨hle, share, paid, hshare, hpaid, hpaidkeys, hends⟩
    · -- there is more to write off than to pay
      refine ⟨⟨s, hs, ?_⟩, ?_⟩
      · rw [hnone]
        refine ⟨b, off, net, hb, ?_⟩
        rw [if_pos hless]
        exact ⟨_, hfault, rfl⟩
      · intro f hf
        cases hfault.symm.trans hf
        exact .inr ⟨ids, rfl⟩
    · refine ⟨⟨s, hs, ?_⟩, ?_⟩
      · rw [hnone]
        refine ⟨b, off, net, hb, ?_⟩
        rw [if_neg (not_lt.2 hle)]
        refine ⟨share, paid, hshare, hpaid, hpaidkeys, ?_⟩
        rcases hends with ⟨id, hfirst, hfault⟩ | ⟨hpayable, hquote⟩
        · rw [hfirst]
          exact hfault
        · rw [hpayable]
          exact hquote
      · intro f hf
        rcases hends with ⟨id, -, hfault⟩ | ⟨-, q, hq⟩
        · cases hfault.symm.trans hf
          exact .inl ⟨id, rfl⟩
        · cases hq.symm.trans hf

/-- Two teas of one euro fifty, on a tab with five euro to write off. -/
theorem calculate_outcome_excessive_write_off :
    let tab : List Item := [⟨"tea", Money.euro 150 (by decide), 2, by decide, by decide⟩]
    let selections : List Selection := [⟨"tea", 2, by decide, by decide⟩]
    let writeOffs : List WriteOff := [⟨Money.euro 500 (by decide), .other, none, by decide⟩]
    ∃ f, calculate ⟨"EUR", by decide⟩ tab selections [] writeOffs = .error f ∧
      ((∃ id, f = .zeroPayableItem id) ∨ ∃ ids, f = .noHeadroom ids) := by
  intro tab selections writeOffs
  have hrange : leavesRange (calculate ⟨"EUR", by decide⟩ tab selections [] writeOffs) = false := by
    decide +kernel
  have hfails : (calculate ⟨"EUR", by decide⟩ tab selections [] writeOffs).isOk = false := by
    decide +kernel
  have hcreates : (Context.create ⟨"EUR", by decide⟩ tab selections).isOk = true := by
    decide +kernel
  cases hcreate : Context.create ⟨"EUR", by decide⟩ tab selections with
  | error f =>
    rw [hcreate] at hcreates
    cases hcreates
  | ok ctx =>
    obtain ⟨-, hfaults⟩ := calculate_outcome [] writeOffs hcreate (by decide) (by decide)
      (by decide) (inRange_of_leavesRange hrange)
    cases hf : calculate ⟨"EUR", by decide⟩ tab selections [] writeOffs with
    | error f => exact ⟨f, rfl, hfaults f hf⟩
    | ok q =>
      rw [hf] at hfails
      cases hfails

end Settlement.Quote
