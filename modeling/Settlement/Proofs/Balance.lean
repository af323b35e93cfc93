import Mathlib.Data.List.Find
import Settlement.Proofs.Apportionment
import Settlement.Proofs.Selection
import Settlement.Proofs.WriteOffs
import Settlement.Quote.Calculation

/-!
# The stages of a balance

A quote is calculated through tables of amounts. `Stages` names them: prices, what item write-offs
take, and what is left, once for the selection and once for all that remains. Each difference splits
its table without a cent lost (`Table.Splits`), and what is left of the selection is never more than
what is left of the tab (`Stages.netSelected_le`), so that a selection with something to pay has a
share in the write-offs of the tab.

`Balance.ofContext_cases` says how the calculation of a balance ends.
-/

namespace Settlement

open Table (Within Splits)

variable {ctx : Context} {c : Currency} {whole taken left : Table Money} {id : String}

/-! ### Differences -/

private theorem find?_subtractPerItem (hkeys : taken.keys = whole.keys)
    (h : subtractPerItem whole taken = .ok left) {v : Money} (hv : whole.find? id = some v) :
    ∃ r m, taken.find? id = some r ∧ left.find? id = some m ∧ v.minus r = .ok m := by
  obtain ⟨r, hr⟩ := Table.find?_isSome_of_keys_eq hkeys hv
  obtain ⟨m, hm, h⟩ := Table.find?_traverse h hv
  rw [hr] at h
  exact ⟨r, m, hr, hm, h⟩

/-- **Differences.** A difference splits its table. -/
theorem splits_of_subtract (hkeys : taken.keys = whole.keys)
    (h : subtractPerItem whole taken = .ok left) : Splits whole taken left where
  taken_keys := hkeys
  left_keys := Table.keys_traverse h
  centsAt := by
    intro id
    cases hv : whole.find? id with
    | none =>
      have hid := Table.find?_eq_none_iff.1 hv
      have hleft : left.keys = whole.keys := Table.keys_traverse h
      rw [Table.centsAt, Table.centsAt, Table.centsAt, hv,
        Table.find?_eq_none_iff.2 (hleft ▸ hid), Table.find?_eq_none_iff.2 (hkeys ▸ hid)]
      rfl
    | some v =>
      obtain ⟨r, m, hr, hm, hminus⟩ := find?_subtractPerItem hkeys h hv
      rw [Table.centsAt_of_find? hv, Table.centsAt_of_find? hr, Table.centsAt_of_find? hm]
      exact (Money.minus_eq_ok_iff.1 hminus).2.2.2

/-- A difference stays in its currency. -/
theorem inCurrency_of_subtract (hkeys : taken.keys = whole.keys) (hwhole : whole.InCurrency c)
    (h : subtractPerItem whole taken = .ok left) : left.InCurrency c := by
  intro id m hm
  obtain ⟨v, hv⟩ := Table.find?_isSome_of_keys_eq (Table.keys_traverse h).symm hm
  obtain ⟨r, m', -, hm', hminus⟩ := find?_subtractPerItem hkeys h hv
  cases hm.symm.trans hm'
  exact (Money.minus_eq_ok_iff.1 hminus).2.2.1.trans (hwhole id v hv)

/-- What is within a table can be taken from it. -/
theorem exists_subtract (hwhole : whole.InCurrency c) (h : Within c whole taken) :
    ∃ left, subtractPerItem whole taken = .ok left := by
  refine Table.exists_traverse fun id v hv => ?_
  obtain ⟨r, hr⟩ := Table.find?_isSome_of_keys_eq h.keys hv
  have hle := h.le_cap id
  rw [Table.centsAt_of_find? hr, Table.centsAt_of_find? hv] at hle
  rw [hr]
  exact Money.exists_minus ((hwhole id v hv).trans (h.currency id r hr).symm) hle

/-! ### Prices -/

namespace Context

variable {gross : Table Money} {quantity : ℕ}

/-- The price of a selected item. -/
theorem find?_grossSelected (h : ctx.grossSelected = .ok gross)
    (hq : ctx.selected.find? id = some quantity) :
    ∃ item m, ctx.items.find? id = some item ∧ gross.find? id = some m ∧
      m.currency = item.unitPrice.currency ∧ m.cents = item.unitPrice.cents * quantity := by
  obtain ⟨m, hm, h⟩ := Table.find?_traverse h hq
  obtain ⟨item, hitem, h⟩ := bind_eq_ok_iff.1 h
  obtain ⟨hcur, hcents⟩ := Money.times_eq_ok_iff.1 h
  exact ⟨item, m, item_eq_ok_iff.1 hitem, hm, hcur, hcents⟩

/-- The price of what remains of an item. -/
theorem find?_grossRemaining (h : ctx.grossRemaining = .ok gross) {item : Item}
    (hitem : ctx.items.find? id = some item) :
    ∃ m, gross.find? id = some m ∧ m.currency = item.unitPrice.currency ∧
      m.cents = item.unitPrice.cents * item.remaining := by
  obtain ⟨m, hm, h⟩ := Table.find?_traverse h hitem
  obtain ⟨hcur, hcents⟩ := Money.times_eq_ok_iff.1 h
  exact ⟨m, hm, hcur, hcents⟩

theorem inCurrency_grossSelected (hctx : ctx.Valid) (h : ctx.grossSelected = .ok gross) :
    gross.InCurrency ctx.currency := by
  intro id m hm
  obtain ⟨q, hq⟩ := Table.find?_isSome_of_keys_eq (Table.keys_traverse h).symm hm
  obtain ⟨item, m', hitem, hm', hcur, -⟩ := find?_grossSelected h hq
  cases hm.symm.trans hm'
  exact hcur.trans (hctx.priced id item hitem)

theorem inCurrency_grossRemaining (hctx : ctx.Valid) (h : ctx.grossRemaining = .ok gross) :
    gross.InCurrency ctx.currency := by
  intro id m hm
  obtain ⟨item, hitem, -⟩ := Table.exists_find?_of_traverse h hm
  obtain ⟨m', hm', hcur, -⟩ := find?_grossRemaining h hitem
  cases hm.symm.trans hm'
  exact hcur.trans (hctx.priced id item hitem)

/-- A selection costs at most what remains, so that it has a price if that has one. -/
theorem exists_grossSelected (hctx : ctx.Valid) (h : ctx.grossRemaining = .ok gross) :
    ∃ gross', ctx.grossSelected = .ok gross' := by
  refine Table.exists_traverse fun id q hq => ?_
  obtain ⟨item, hitem, hle⟩ := hctx.remains id q hq
  obtain ⟨m, -, -, hcents⟩ := find?_grossRemaining h hitem
  have hprice := Nat.mul_le_mul_left item.unitPrice.cents hle
  rw [bind_of_eq_ok (item_eq_ok_iff.2 hitem)]
  exact Money.exists_times ((hcents ▸ hprice).trans_lt m.lt_bound)

end Context

/-! ### Stages -/

/-- The tables through which the net amounts of a selection are calculated. -/
structure Stages where
  writeOffTotal : Money
  grossRemaining : Table Money
  grossSelected : Table Money
  written : Table WrittenOff
  offSelected : Table Money
  netSelected : Table Money

/-- The stages **of** a selection are what the program calculates them to be. -/
structure Stages.Of (s : Stages) (ctx : Context) (itemWriteOffs : List ItemWriteOff)
    (writeOffs : List WriteOff) : Prop where
  writeOffTotal : Money.sum ctx.currency "session write-offs" (writeOffs.map WriteOff.amount) =
    .ok s.writeOffTotal
  grossRemaining : ctx.grossRemaining = .ok s.grossRemaining
  grossSelected : ctx.grossSelected = .ok s.grossSelected
  written : WrittenOff.collect ctx.currency itemWriteOffs = .ok s.written
  offSelected : WrittenOff.allocate ctx.currency s.written ctx.selected
    (.ofMoney s.grossSelected) = .ok s.offSelected
  netSelected : subtractPerItem s.grossSelected s.offSelected = .ok s.netSelected

/-- A balance that is **reached** from the stages of a selection: what item write-offs take of all
that remains, what is left, and the share of the selection in the write-offs of the tab. -/
structure Balance.Reached (b : Balance) (ctx : Context) (s : Stages)
    (off net : Table Money) : Prop where
  writeOffTotal : b.writeOffTotal = s.writeOffTotal
  netSelected : b.netSelected = s.netSelected
  netSelectedTotal : Money.sum ctx.currency Money.sumContext b.netSelected.values =
    .ok b.netSelectedTotal
  offRemaining : WrittenOff.allocate ctx.currency s.written ctx.remaining
    (.ofMoney s.grossRemaining) = .ok off
  netRemaining : subtractPerItem s.grossRemaining off = .ok net
  netRemainingTotal : Money.sum ctx.currency Money.sumContext net.values =
    .ok b.netRemainingTotal
  share : shareOfTotal ctx.currency.code b.writeOffTotal b.netSelectedTotal b.netRemainingTotal =
    .ok b.share

/-- The first of the ids whose whole amount is taken. -/
def firstTaken? (ids : List String) (whole taken : Table Money) : Option String :=
  ids.find? fun id => taken.centsAt id = whole.centsAt id

variable {s : Stages} {itemWriteOffs : List ItemWriteOff} {writeOffs : List WriteOff}
  {b : Balance} {offRemaining netRemaining : Table Money}

namespace Balance

private theorem requirePayable_eq (l : List (String × Money)) :
    requirePayable l =
      match l.find? fun e => e.2.isZero with
      | some e => .error (.zeroPayableItem e.1)
      | none => .ok () := by
  induction l with
  | nil => rfl
  | cons e l ih =>
    rw [requirePayable, List.find?_cons]
    cases e.2.isZero with
    | true => rfl
    | false => exact ih

/-- A selection is payable if something is left of each item. -/
theorem requirePayable_eq_ok_iff {l : List (String × Money)} {u : Unit} :
    requirePayable l = .ok u ↔ ∀ e ∈ l, e.2.isZero = false := by
  rw [requirePayable_eq]
  cases hfirst : l.find? fun e => e.2.isZero with
  | some e =>
    have hzero : e.2.isZero = true := by simpa using List.find?_some hfirst
    refine iff_of_false nofun fun h => ?_
    exact Bool.false_ne_true ((h e (List.mem_of_find?_eq_some hfirst)).symm.trans hzero)
  | none =>
    refine iff_of_true rfl fun e he => ?_
    exact Bool.eq_false_of_not_eq_true (List.find?_eq_none.1 hfirst e he)

/-- The first key for which nothing is left is the first one that is taken whole. -/
private theorem find?_isZero (h : Splits whole taken left) :
    (left.entries.find? fun e => e.2.isZero).map Prod.fst = firstTaken? left.keys whole taken := by
  rw [firstTaken?, Table.keys, List.find?_map]
  congr 1
  refine List.find?_congr fun e he => ?_
  have hsplit := h.centsAt e.1
  rw [Table.centsAt_of_find? (Table.find?_eq_some_iff.2 he)] at hsplit
  rw [Bool.eq_iff_iff, Money.isZero_iff, Function.comp_apply, decide_eq_true_iff]
  omega

/-- **Payability.** A selection is refused for the first item of which nothing is left. -/
theorem requirePayable_of_splits (h : Splits whole taken left) :
    requirePayable left.entries =
      match firstTaken? left.keys whole taken with
      | some id => .error (.zeroPayableItem id)
      | none => .ok () := by
  rw [requirePayable_eq, ← find?_isZero h]
  cases left.entries.find? fun e => e.2.isZero <;> rfl

/-- A balance that is calculated is reached through stages that leave something of each item. -/
theorem exists_stages (h : ofContext ctx itemWriteOffs writeOffs = .ok b) :
    ∃ s off net, Stages.Of s ctx itemWriteOffs writeOffs ∧ b.Reached ctx s off net ∧
      firstTaken? ctx.selected.keys s.grossSelected s.offSelected = none := by
  rw [ofContext] at h
  obtain ⟨writeOffTotal, htotal, h⟩ := bind_eq_ok_iff.1 h
  obtain ⟨grossRemaining, hgrossR, h⟩ := bind_eq_ok_iff.1 h
  obtain ⟨grossSelected, hgrossS, h⟩ := bind_eq_ok_iff.1 h
  obtain ⟨written, hwritten, h⟩ := bind_eq_ok_iff.1 h
  obtain ⟨offSelected, hoffS, h⟩ := bind_eq_ok_iff.1 h
  obtain ⟨netSelected, hnetS, h⟩ := bind_eq_ok_iff.1 h
  obtain ⟨_, hpayable, h⟩ := bind_eq_ok_iff.1 h
  obtain ⟨netSelectedTotal, hnetST, h⟩ := bind_eq_ok_iff.1 h
  split_ifs at h
  obtain ⟨off, hoff, h⟩ := bind_eq_ok_iff.1 h
  obtain ⟨net, hnet, h⟩ := bind_eq_ok_iff.1 h
  obtain ⟨netRemainingTotal, hnetRT, h⟩ := bind_eq_ok_iff.1 h
  split_ifs at h
  obtain ⟨share, hshare, h⟩ := bind_eq_ok_iff.1 h
  cases h
  -- all steps returned, and so did the check that something is left of each item
  have hkeys := Table.keys_traverse hgrossS
  have hsplits := splits_of_subtract (WrittenOff.within_of_allocate hkeys hoffS).keys hnetS
  refine ⟨⟨writeOffTotal, grossRemaining, grossSelected, written, offSelected, netSelected⟩, off,
    net, ⟨htotal, hgrossR, hgrossS, hwritten, hoffS, hnetS⟩,
    ⟨rfl, rfl, hnetST, hoff, hnet, hnetRT, hshare⟩, ?_⟩
  rw [requirePayable_of_splits hsplits, hsplits.left_keys, hkeys] at hpayable
  cases hfirst : firstTaken? ctx.selected.keys grossSelected offSelected with
  | none => rfl
  | some id =>
    rw [hfirst] at hpayable
    cases hpayable

end Balance

namespace Stages

variable {off net : Table Money}

theorem Of.within_selected (h : s.Of ctx itemWriteOffs writeOffs) :
    Within ctx.currency s.grossSelected s.offSelected :=
  WrittenOff.within_of_allocate (Table.keys_traverse h.grossSelected) h.offSelected

/-- The prices of a selection split into what item write-offs take and what is left. -/
theorem Of.splits_selected (h : s.Of ctx itemWriteOffs writeOffs) :
    Splits s.grossSelected s.offSelected s.netSelected :=
  splits_of_subtract h.within_selected.keys h.netSelected

theorem Of.keys_netSelected (h : s.Of ctx itemWriteOffs writeOffs) :
    s.netSelected.keys = ctx.selected.keys :=
  h.splits_selected.left_keys.trans (Table.keys_traverse h.grossSelected)

theorem Of.inCurrency_netSelected (h : s.Of ctx itemWriteOffs writeOffs) (hctx : ctx.Valid) :
    s.netSelected.InCurrency ctx.currency :=
  inCurrency_of_subtract h.within_selected.keys
    (Context.inCurrency_grossSelected hctx h.grossSelected) h.netSelected

theorem Of.keys_grossRemaining (h : s.Of ctx itemWriteOffs writeOffs) :
    s.grossRemaining.keys = ctx.remaining.keys := by
  rw [Table.keys_traverse h.grossRemaining, Context.remaining, Table.keys_map]

theorem Of.within_remaining (h : s.Of ctx itemWriteOffs writeOffs)
    (hoff : WrittenOff.allocate ctx.currency s.written ctx.remaining
      (.ofMoney s.grossRemaining) = .ok off) : Within ctx.currency s.grossRemaining off :=
  WrittenOff.within_of_allocate h.keys_grossRemaining hoff

end Stages

/-- The prices of all that remains split into what item write-offs take and what is left. -/
theorem Balance.Reached.splits_remaining {off net : Table Money}
    (hb : b.Reached ctx s off net) (h : s.Of ctx itemWriteOffs writeOffs) :
    Splits s.grossRemaining off net :=
  splits_of_subtract (h.within_remaining hb.offRemaining).keys hb.netRemaining

theorem Balance.Reached.inCurrency_net {off net : Table Money} (hb : b.Reached ctx s off net)
    (h : s.Of ctx itemWriteOffs writeOffs) (hctx : ctx.Valid) : net.InCurrency ctx.currency :=
  inCurrency_of_subtract (h.within_remaining hb.offRemaining).keys
    (Context.inCurrency_grossRemaining hctx h.grossRemaining) hb.netRemaining

/-! ### The selection within the tab -/

variable {off net : Table Money}

/-- What is left of an amount after item write-offs of a scope. -/
private theorem centsAt_left {price quantity : ℕ} {table : Table WrittenOff} {v m : Money}
    (htable : WrittenOff.Collected c table) (hpos : 0 < quantity) (hquantity : quantity < 10 ^ 18)
    (hsplits : Splits whole taken left) (hv : whole.find? id = some v)
    (hprice : v.cents = price * quantity) (hm : taken.find? id = some m)
    (hfor : WrittenOff.forItem c table id quantity (.given v) = .ok m) :
    left.centsAt id =
      price * quantity - WrittenOff.offCents table id quantity (price * quantity) := by
  have hsplit := hsplits.centsAt id
  rw [Table.centsAt_of_find? hv, Table.centsAt_of_find? hm,
    WrittenOff.cents_of_forItem htable hpos hquantity hfor, hprice] at hsplit
  omega

/-- A selected item is priced and written off twice, for its selected quantity and for all that
remains of it. -/
theorem Stages.Of.exists_scopes (h : s.Of ctx itemWriteOffs writeOffs) (hctx : ctx.Valid)
    (hoff : WrittenOff.allocate ctx.currency s.written ctx.remaining
      (.ofMoney s.grossRemaining) = .ok off) (hid : id ∈ ctx.selected.keys) :
    ∃ q item price price' taken taken', ctx.selected.find? id = some q ∧
      ctx.items.find? id = some item ∧ q ≤ item.remaining ∧
      s.grossSelected.find? id = some price ∧ price.cents = item.unitPrice.cents * q ∧
      s.grossRemaining.find? id = some price' ∧
      price'.cents = item.unitPrice.cents * item.remaining ∧
      s.offSelected.find? id = some taken ∧
      WrittenOff.forItem ctx.currency s.written id q (.given price) = .ok taken ∧
      off.find? id = some taken' ∧
      WrittenOff.forItem ctx.currency s.written id item.remaining (.given price') = .ok taken' := by
  obtain ⟨q, hq⟩ := Table.exists_find?_of_mem_keys hid
  obtain ⟨item, hitem, hle⟩ := hctx.remains id q hq
  -- the selected quantity
  obtain ⟨item', price, hitem', hprice, -, hcents⟩ := Context.find?_grossSelected h.grossSelected hq
  cases hitem.symm.trans hitem'
  obtain ⟨cap, taken, hcap, htaken, hfor⟩ := WrittenOff.find?_allocate h.offSelected hq
  cases hprice.symm.trans hcap
  -- all that remains
  obtain ⟨price', hprice', -, hcents'⟩ := Context.find?_grossRemaining h.grossRemaining hitem
  obtain ⟨cap', taken', hcap', htaken', hfor'⟩ := WrittenOff.find?_allocate hoff
    (Context.find?_remaining_eq_some_iff.2 ⟨item, hitem, rfl⟩)
  cases hprice'.symm.trans hcap'
  exact ⟨q, item, price, price', taken, taken', hq, hitem, hle, hprice, hcents, hprice', hcents',
    htaken, hfor, htaken', hfor'⟩

/-- **Selection and tab, item by item.** No more is left of what is selected of an item than of all
that remains of it. -/
theorem Stages.Of.centsAt_netSelected_le (h : s.Of ctx itemWriteOffs writeOffs) (hctx : ctx.Valid)
    (hsmall : ctx.Small)
    (hoff : WrittenOff.allocate ctx.currency s.written ctx.remaining
      (.ofMoney s.grossRemaining) = .ok off)
    (hnet : subtractPerItem s.grossRemaining off = .ok net) (hid : id ∈ ctx.selected.keys) :
    s.netSelected.centsAt id ≤ net.centsAt id := by
  obtain ⟨q, item, price, price', taken, taken', hq, hitem, hle, hprice, hcents, hprice', hcents',
    htaken, hfor, htaken', hfor'⟩ := h.exists_scopes hctx hoff hid
  have hwritten := WrittenOff.collected_of_collect h.written
  have hremaining : Splits s.grossRemaining off net :=
    splits_of_subtract (h.within_remaining hoff).keys hnet
  have hpos := hctx.positive id q hq
  have hlt := hsmall id item hitem
  rw [centsAt_left hwritten hpos (hle.trans_lt hlt) h.splits_selected hprice hcents htaken hfor,
    centsAt_left hwritten (hpos.trans_le hle) hlt hremaining hprice' hcents' htaken' hfor']
  exact WrittenOff.net_offCents_le s.written id item.unitPrice.cents hle

/-- **Selection and tab.** No more is left of the selection than of the tab. -/
theorem Stages.Of.netSelected_le (h : s.Of ctx itemWriteOffs writeOffs) (hctx : ctx.Valid)
    (hsmall : ctx.Small)
    (hoff : WrittenOff.allocate ctx.currency s.written ctx.remaining
      (.ofMoney s.grossRemaining) = .ok off)
    (hnet : subtractPerItem s.grossRemaining off = .ok net) :
    s.netSelected.cents ≤ net.cents := by
  have hitems : net.keys = ctx.items.keys := by
    rw [(splits_of_subtract (h.within_remaining hoff).keys hnet).left_keys,
      Table.keys_traverse h.grossRemaining]
  refine Table.cents_le_cents (fun id hid => ?_) fun id hid => ?_
  · obtain ⟨q, hq⟩ := Table.exists_find?_of_mem_keys (h.keys_netSelected ▸ hid)
    obtain ⟨item, hitem, -⟩ := hctx.remains id q hq
    rw [hitems]
    exact Table.mem_keys_of_find? hitem
  · exact h.centsAt_netSelected_le hctx hsmall hoff hnet (h.keys_netSelected ▸ hid)

/-- Something is left of a selection of which no item is taken whole. -/
theorem Stages.Of.netSelected_pos (h : s.Of ctx itemWriteOffs writeOffs) (hctx : ctx.Valid)
    (hnone : firstTaken? ctx.selected.keys s.grossSelected s.offSelected = none) :
    (∀ id ∈ ctx.selected.keys, 0 < s.netSelected.centsAt id) ∧ 0 < s.netSelected.cents := by
  have hsplits := h.splits_selected
  have hpos : ∀ id ∈ ctx.selected.keys, 0 < s.netSelected.centsAt id := by
    intro id hid
    have hleft := List.find?_eq_none.1 hnone id hid
    rw [decide_eq_true_iff] at hleft
    have hsplit := hsplits.centsAt id
    omega
  refine ⟨hpos, ?_⟩
  obtain ⟨⟨id, q⟩, hmem⟩ := List.exists_mem_of_ne_nil _ hctx.nonempty
  have hid := Table.mem_keys_of_find? (Table.find?_eq_some_iff.2 hmem)
  exact (hpos id hid).trans_le (s.netSelected.centsAt_le_cents id)

/-! ### How a balance ends -/

/-- Only the range stops the prices of all that remains of a small tab. -/
theorem returns_grossRemaining (hsmall : ctx.Small) :
    Returns ctx.grossRemaining fun gross => ctx.grossRemaining = .ok gross :=
  Table.returns_traverse fun id item hitem =>
    (Money.returns_times (k := 18) (by norm_num) (hsmall id item hitem).le).mono fun _ _ => trivial

private theorem returns_grossSelected (hctx : ctx.Valid) (hsmall : ctx.Small) :
    Returns ctx.grossSelected fun gross => ctx.grossSelected = .ok gross := by
  refine Table.returns_traverse fun id q hq => ?_
  obtain ⟨item, hitem, -⟩ := hctx.remains id q hq
  rw [bind_of_eq_ok (Context.item_eq_ok_iff.2 hitem)]
  exact (Money.returns_times (k := 18) (by norm_num) (hsmall.selected_lt hctx hq).le).mono
    fun _ _ => trivial

/-- The calculation of a balance from where something is left of each selected item. -/
private def shareStages (ctx : Context) (s : Stages) : Except Fault Balance := do
  let netSelectedTotal ← Money.sum ctx.currency Money.sumContext s.netSelected.values
  if netSelectedTotal.isZero then .error .zeroNetSelected
  else
    let offRemaining ←
      WrittenOff.allocate ctx.currency s.written ctx.remaining (.ofMoney s.grossRemaining)
    let netRemaining ← subtractPerItem s.grossRemaining offRemaining
    let netRemainingTotal ← Money.sum ctx.currency Money.sumContext netRemaining.values
    if netRemainingTotal.isZero then .error .zeroNetRemaining
    else
      let share ←
        shareOfTotal ctx.currency.code s.writeOffTotal netSelectedTotal netRemainingTotal
      .ok ⟨s.writeOffTotal, s.netSelected, netSelectedTotal, netRemainingTotal, share⟩

/-- Only the range stops the stages of a selection. -/
private theorem exists_selected (hctx : ctx.Valid) (hsmall : ctx.Small)
    (hitems : ∀ w ∈ itemWriteOffs, w.amount.currency = ctx.currency)
    (htab : ∀ w ∈ writeOffs, w.amount.currency = ctx.currency)
    (hr : InRange (Balance.ofContext ctx itemWriteOffs writeOffs)) :
    ∃ s : Stages, s.Of ctx itemWriteOffs writeOffs ∧
      Balance.ofContext ctx itemWriteOffs writeOffs = (do
        Balance.requirePayable s.netSelected.entries
        shareStages ctx s) := by
  -- each stage returns because the calculation as a whole stays in range
  rw [Balance.ofContext] at hr ⊢
  have hall : ∀ m ∈ writeOffs.map WriteOff.amount, m.currency = ctx.currency :=
    List.forall_mem_map.2 htab
  obtain ⟨writeOffTotal, -, htotal⟩ := Money.returns_sum hall hr.of_bind
  rw [bind_of_eq_ok htotal] at hr ⊢
  obtain ⟨grossRemaining, -, hgrossR⟩ := returns_grossRemaining hsmall hr.of_bind
  rw [bind_of_eq_ok hgrossR] at hr ⊢
  obtain ⟨grossSelected, -, hgrossS⟩ := returns_grossSelected hctx hsmall hr.of_bind
  rw [bind_of_eq_ok hgrossS] at hr ⊢
  obtain ⟨written, -, hwritten⟩ := WrittenOff.returns_collect hitems hr.of_bind
  rw [bind_of_eq_ok hwritten] at hr ⊢
  have hcollected := WrittenOff.collected_of_collect hwritten
  have hcurrency := Context.inCurrency_grossSelected hctx hgrossS
  have hkeys := Table.keys_traverse hgrossS
  obtain ⟨offSelected, -, hoffS⟩ :=
    WrittenOff.returns_allocate hcollected hcurrency hkeys hr.of_bind
  rw [bind_of_eq_ok hoffS] at hr ⊢
  obtain ⟨netSelected, hnetS⟩ :=
    exists_subtract hcurrency (WrittenOff.within_of_allocate hkeys hoffS)
  rw [bind_of_eq_ok hnetS] at hr ⊢
  exact ⟨⟨writeOffTotal, grossRemaining, grossSelected, written, offSelected, netSelected⟩,
    ⟨htotal, hgrossR, hgrossS, hwritten, hoffS, hnetS⟩, rfl⟩

/-- Only the range stops the share of a selection of which something is left of each item: nothing
more is left of it than of the tab, so that neither of the two is zero. -/
private theorem returns_shareStages (hctx : ctx.Valid) (hsmall : ctx.Small)
    (hs : s.Of ctx itemWriteOffs writeOffs)
    (hnone : firstTaken? ctx.selected.keys s.grossSelected s.offSelected = none) :
    InRange (shareStages ctx s) →
      ∃ off net b, shareStages ctx s = .ok b ∧ b.Reached ctx s off net := by
  intro hr
  rw [shareStages] at hr ⊢
  have hcurS := hs.inCurrency_netSelected hctx
  obtain ⟨totalS, -, htotalS⟩ := Money.returns_sum_values hcurS hr.of_bind
  rw [bind_of_eq_ok htotalS] at hr ⊢
  obtain ⟨htotalScur, htotalScents⟩ := (Money.sum_values_eq_ok_iff hcurS).1 htotalS
  have hpos := (hs.netSelected_pos hctx hnone).2
  rw [Money.isZero_eq_false_iff.2 (htotalScents ▸ hpos), if_neg Bool.false_ne_true] at hr ⊢
  have hcurR := Context.inCurrency_grossRemaining hctx hs.grossRemaining
  have hwritten := WrittenOff.collected_of_collect hs.written
  obtain ⟨off, -, hoff⟩ :=
    WrittenOff.returns_allocate hwritten hcurR hs.keys_grossRemaining hr.of_bind
  rw [bind_of_eq_ok hoff] at hr ⊢
  obtain ⟨net, hnet⟩ := exists_subtract hcurR (hs.within_remaining hoff)
  rw [bind_of_eq_ok hnet] at hr ⊢
  have hcurnet := inCurrency_of_subtract (hs.within_remaining hoff).keys hcurR hnet
  obtain ⟨totalR, -, htotalR⟩ := Money.returns_sum_values hcurnet hr.of_bind
  rw [bind_of_eq_ok htotalR] at hr ⊢
  obtain ⟨htotalRcur, htotalRcents⟩ := (Money.sum_values_eq_ok_iff hcurnet).1 htotalR
  -- the tab keeps at least what the selection keeps
  have hle := hs.netSelected_le hctx hsmall hoff hnet
  have htotalRpos : 0 < totalR.cents := htotalRcents ▸ hpos.trans_le hle
  rw [Money.isZero_eq_false_iff.2 htotalRpos, if_neg Bool.false_ne_true] at hr ⊢
  have htotal := Money.sum_eq_ok_iff.1 hs.writeOffTotal
  obtain ⟨share, -, hshare⟩ := returns_shareOfTotal (congrArg _ htotal.2.1)
    (congrArg _ htotalScur) (congrArg _ htotalRcur) htotalRpos hr.of_bind
  rw [bind_of_eq_ok hshare]
  exact ⟨off, net, _, rfl, ⟨rfl, rfl, htotalS, hoff, hnet, htotalR, hshare⟩⟩

/-- **Ends of a balance.** A balance that stays in range is refused for the first item that item
write-offs take whole, and otherwise is reached. -/
theorem Balance.ofContext_cases (hctx : ctx.Valid) (hsmall : ctx.Small)
    (hitems : ∀ w ∈ itemWriteOffs, w.amount.currency = ctx.currency)
    (htab : ∀ w ∈ writeOffs, w.amount.currency = ctx.currency)
    (hr : InRange (Balance.ofContext ctx itemWriteOffs writeOffs)) :
    ∃ s, s.Of ctx itemWriteOffs writeOffs ∧
      ((∃ id, firstTaken? ctx.selected.keys s.grossSelected s.offSelected = some id ∧
          Balance.ofContext ctx itemWriteOffs writeOffs = .error (.zeroPayableItem id)) ∨
        (firstTaken? ctx.selected.keys s.grossSelected s.offSelected = none ∧
          ∃ off net b, Balance.ofContext ctx itemWriteOffs writeOffs = .ok b ∧
            b.Reached ctx s off net)) := by
  obtain ⟨s, hs, heq⟩ := exists_selected hctx hsmall hitems htab hr
  refine ⟨s, hs, ?_⟩
  rw [heq] at hr ⊢
  rw [requirePayable_of_splits hs.splits_selected, hs.keys_netSelected] at hr ⊢
  cases hfirst : firstTaken? ctx.selected.keys s.grossSelected s.offSelected with
  | some id => exact .inl ⟨id, rfl, rfl⟩
  | none =>
    rw [hfirst] at hr
    exact .inr ⟨rfl, returns_shareStages hctx hsmall hs hfirst hr⟩

end Settlement
