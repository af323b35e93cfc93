import Settlement.Proofs.Prices

/-!
# Larger write-offs

The write-offs of a tab enter a quote through their sum alone, and late: the net amounts of the
selection and of the tab are the same whatever the sum is (`Stages.Of.eq_with_total`,
`Balance.Reached.totals_eq`). So two quotes that differ only there are compared by their shares, and
a share grows with its total. How the share is spread over the items plays no part in the sum, so
that it does not matter that the part of a single item may shrink: the item that is first to get a
cent that a small share leaves over is also the first to lose one where the parts of a larger share
are rounded up too often.
-/

namespace Settlement

variable {ctx : Context} {itemWriteOffs : List ItemWriteOff} {writeOffs writeOffs' : List WriteOff}
  {s s' : Stages} {b b' : Balance} {off off' net net' : Table Money}

/-! ### What the write-offs of a tab leave alone -/

/-- The stages of a selection differ at most in the sum of the write-offs of the tab. -/
theorem Stages.Of.eq_with_total (hs : s.Of ctx itemWriteOffs writeOffs)
    (hs' : s'.Of ctx itemWriteOffs writeOffs') :
    s' = { s with writeOffTotal := s'.writeOffTotal } := by
  obtain ⟨total, grossR, grossS, written, offS, netS⟩ := s
  obtain ⟨total', grossR', grossS', written', offS', netS'⟩ := s'
  obtain rfl : grossR = grossR' := Except.ok.inj (hs.grossRemaining.symm.trans hs'.grossRemaining)
  obtain rfl : grossS = grossS' := Except.ok.inj (hs.grossSelected.symm.trans hs'.grossSelected)
  obtain rfl : written = written' := Except.ok.inj (hs.written.symm.trans hs'.written)
  obtain rfl : offS = offS' := Except.ok.inj (hs.offSelected.symm.trans hs'.offSelected)
  obtain rfl : netS = netS' := Except.ok.inj (hs.netSelected.symm.trans hs'.netSelected)
  rfl

/-- The net totals of the selection and of the tab do not depend on the write-offs of the tab. -/
theorem Balance.Reached.totals_eq (hs : s.Of ctx itemWriteOffs writeOffs)
    (hs' : s'.Of ctx itemWriteOffs writeOffs') (hb : b.Reached ctx s off net)
    (hb' : b'.Reached ctx s' off' net') :
    b'.netSelectedTotal = b.netSelectedTotal ∧ b'.netRemainingTotal = b.netRemainingTotal := by
  have hstages := hs.eq_with_total hs'
  rw [hstages] at hb'
  have hselected : b'.netSelected = b.netSelected := hb'.netSelected.trans hb.netSelected.symm
  obtain rfl : off = off' := Except.ok.inj (hb.offRemaining.symm.trans hb'.offRemaining)
  obtain rfl : net = net' := Except.ok.inj (hb.netRemaining.symm.trans hb'.netRemaining)
  refine ⟨Except.ok.inj (hb'.netSelectedTotal.symm.trans ?_),
    Except.ok.inj (hb'.netRemainingTotal.symm.trans hb.netRemainingTotal)⟩
  rw [hselected]
  exact hb.netSelectedTotal

/-! ### Two quotes -/

namespace Quote

variable {currency : Currency} {items : List Item} {selections : List Selection} {q q' : Quote}

/-- **Larger write-offs.** Two quotes of the same items, selections and item write-offs are charged
in one currency, and the one with the larger sum of write-offs of the tab is not charged more,
whatever the size of the amounts. -/
theorem calculate_antitone (hle : WriteOff.total writeOffs ≤ WriteOff.total writeOffs')
    (hq : calculate currency items selections itemWriteOffs writeOffs = .ok q)
    (hq' : calculate currency items selections itemWriteOffs writeOffs' = .ok q') :
    q'.amount.currency = q.amount.currency ∧ q'.amount.cents ≤ q.amount.cents := by
  refine ⟨(currency_of_calculate hq').trans (currency_of_calculate hq).symm, ?_⟩
  obtain ⟨ctx, s, b, off, net, -, hcreate, hs, hb, -, -, hamount⟩ := exists_stages hq
  obtain ⟨ctx', s', b', off', net', -, hcreate', hs', hb', -, -, hamount'⟩ := exists_stages hq'
  obtain rfl : ctx = ctx' := Except.ok.inj (hcreate.symm.trans hcreate')
  obtain ⟨hselected, hremaining⟩ := hb.totals_eq hs hs' hb'
  have hshare : b.share.cents ≤ b'.share.cents := by
    rw [(shareOfTotal_of_ok hb.share).2.2, (shareOfTotal_of_ok hb'.share).2.2, hselected,
      hremaining, hb.writeOffTotal_eq hs, hb'.writeOffTotal_eq hs']
    exact shareCents_mono hle _ _
  rw [hselected] at hamount'
  omega

/-- One beer of three, with fifty cents and with one euro to write off. -/
theorem calculate_antitone_beer :
    let tab : List Item := [⟨"beer", Money.euro 150 (by decide), 3, by decide, by decide⟩]
    let selections : List Selection := [⟨"beer", 1, by decide, by decide⟩]
    let less : List WriteOff := [⟨Money.euro 50 (by decide), .discount, none, by decide⟩]
    let more : List WriteOff := less ++ [⟨Money.euro 50 (by decide), .other, none, by decide⟩]
    ∃ q q', calculate ⟨"EUR", by decide⟩ tab selections [] less = .ok q ∧
      calculate ⟨"EUR", by decide⟩ tab selections [] more = .ok q' ∧
      q.amount.cents = 133 ∧ q'.amount.cents = 117 ∧ q'.amount.cents ≤ q.amount.cents := by
  intro tab selections less more
  obtain ⟨q, hq, hamount⟩ := exists_of_toOption
    (r := calculate ⟨"EUR", by decide⟩ tab selections [] less)
    (f := fun q => q.amount.cents) (v := 133) (by decide +kernel)
  obtain ⟨q', hq', hamount'⟩ := exists_of_toOption
    (r := calculate ⟨"EUR", by decide⟩ tab selections [] more)
    (f := fun q => q.amount.cents) (v := 117) (by decide +kernel)
  exact ⟨q, q', hq, hq', hamount, hamount', (calculate_antitone (by decide) hq hq').2⟩

end Quote

end Settlement
