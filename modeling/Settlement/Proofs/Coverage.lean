import Settlement.Proofs.QuoteOutcome

/-!
# When a tab that is written off is charged

Write-offs cover a tab if they sum up to at least what is left of it after item write-offs. Nothing
should then be left to charge, and nothing is as long as the net amount of the selection has at most
ten significant digits: its share in the write-offs is not less than itself (`le_shareCents`).

The share is a quotient of ten digits, so that beyond them it may fall short of the net amount. A
covered tab is then charged the difference. `Quote.calculate_of_covered` says exactly when.
-/

namespace Settlement.Quote

open Table (Within Splits)

variable {ctx : Context} {itemWriteOffs : List ItemWriteOff} {writeOffs : List WriteOff}
  {s : Stages} {b : Balance} {off net : Table Money} {q : Quote}

variable {currency : Currency} {tab : List Item} {selections : List Selection}

/-- **Covered tabs.** Let the write-offs of a tab sum up to at least what is left of it. Its
selection is charged what its share leaves of its net amount; there is a charge, while amounts stay
in range, exactly if the share falls short of the net amount and takes no selected item whole. If
the net amount is written with at most ten significant digits, there is none. -/
theorem calculate_of_covered (itemWriteOffs : List ItemWriteOff) (writeOffs : List WriteOff)
    (hcreate : Context.create currency tab selections = .ok ctx)
    (hbalance : Balance.ofContext ctx itemWriteOffs writeOffs = .ok b)
    (hcovered : b.netRemainingTotal.cents ≤ b.writeOffTotal.cents) :
    (∀ q, calculate currency tab selections itemWriteOffs writeOffs = .ok q →
      q.amount.cents +
          shareCents b.writeOffTotal.cents b.netSelectedTotal.cents b.netRemainingTotal.cents =
        b.netSelectedTotal.cents) ∧
    (InRange (calculate currency tab selections itemWriteOffs writeOffs) →
      ((∃ q, calculate currency tab selections itemWriteOffs writeOffs = .ok q) ↔
        shareCents b.writeOffTotal.cents b.netSelectedTotal.cents b.netRemainingTotal.cents <
            b.netSelectedTotal.cents ∧
          ∀ share, Allocation.allocate currency.code b.share b.netSelected = .ok share →
            firstTaken? (selections.map Selection.id).eraseDups b.netSelected share = none)) ∧
    ∀ m k, m ≤ 10 ^ 10 → b.netSelectedTotal.cents = m * 10 ^ k →
      ∀ q, calculate currency tab selections itemWriteOffs writeOffs ≠ .ok q := by
  have hctx := Context.valid_of_create hcreate
  obtain ⟨rfl, hselected, -⟩ := Context.of_create hcreate
  obtain ⟨s, off, net, hs, hb, hnone⟩ := Balance.exists_stages hbalance
  have hkeys : (selections.map Selection.id).eraseDups = ctx.selected.keys := by
    rw [hselected, Context.keys_consolidate]
  have hcalculate : calculate ctx.currency tab selections itemWriteOffs writeOffs =
      ofBalance ctx b :=
    (bind_of_eq_ok hcreate _).trans (bind_of_eq_ok hbalance _)
  obtain ⟨hpositive, -, hshare⟩ := shareOfTotal_of_ok hb.share
  rw [hcalculate, hkeys, ← hshare]
  refine ⟨fun q hq => amount_add_share hctx hs hb hq, fun hr => ⟨?_, ?_⟩, ?_⟩
  · rintro ⟨q, hq⟩
    have hamount := amount_add_share hctx hs hb hq
    have hpos := q.amount_pos
    refine ⟨by omega, fun share hallocate => ?_⟩
    rcases ofBalance_cases hctx hs hb hnone hr with ⟨-, ids, hfault⟩ |
      ⟨-, share', paid, hallocate', -, -, ⟨id, -, hfault⟩ | ⟨hpayable, -⟩⟩
    · cases hq.symm.trans hfault
    · cases hq.symm.trans hfault
    · cases hallocate.symm.trans hallocate'
      exact hpayable
  · rintro ⟨hless, hall⟩
    rcases ofBalance_cases hctx hs hb hnone hr with ⟨hexceeds, -⟩ |
      ⟨-, share, paid, hallocate, -, -, ⟨id, hfirst, -⟩ | ⟨-, hquote⟩⟩
    · omega
    · cases hfirst.symm.trans (hall share hallocate)
    · exact hquote
  · -- the share covers a net amount of ten digits, and a quote of nothing does not exist
    intro m k hm hdigits q hq
    have hamount := amount_add_share hctx hs hb hq
    have hpos := q.amount_pos
    have hle := le_shareCents hpositive hcovered hm hdigits
    omega

/-- A beer for one euro fifty, with one euro fifty to write off, is not charged. -/
theorem calculate_of_covered_beer :
    let tab : List Item := [⟨"beer", Money.euro 150 (by decide), 1, by decide, by decide⟩]
    let selections : List Selection := [⟨"beer", 1, by decide, by decide⟩]
    let writeOffs : List WriteOff := [⟨Money.euro 150 (by decide), .other, none, by decide⟩]
    ∀ q, calculate ⟨"EUR", by decide⟩ tab selections [] writeOffs ≠ .ok q := by
  intro tab selections writeOffs
  obtain ⟨b, hb, htotals⟩ := exists_of_toOption
    (r := do Balance.ofContext (← Context.create ⟨"EUR", by decide⟩ tab selections) [] writeOffs)
    (f := fun b => (b.writeOffTotal.cents, b.netSelectedTotal.cents, b.netRemainingTotal.cents))
    (v := (150, 150, 150)) (by decide +kernel)
  obtain ⟨ctx, hcreate, hbalance⟩ := bind_eq_ok_iff.1 hb
  simp only [Prod.mk.injEq] at htotals
  obtain ⟨hwriteOff, hselected, hremaining⟩ := htotals
  obtain ⟨-, -, hnone⟩ := calculate_of_covered [] writeOffs hcreate hbalance (by omega)
  exact hnone 150 0 (by decide) (by omega)

/-- A coin for 123456789.91 euro, with that amount to write off, is charged one cent: eleven digits
are rounded to ten. -/
theorem covered_coin_charged :
    let tab : List Item := [⟨"coin", Money.euro 12345678991 (by decide), 1, by decide, by decide⟩]
    let selections : List Selection := [⟨"coin", 1, by decide, by decide⟩]
    let writeOffs : List WriteOff :=
      [⟨Money.euro 12345678991 (by decide), .other, none, by decide⟩]
    ∃ ctx b q, Context.create ⟨"EUR", by decide⟩ tab selections = .ok ctx ∧
      Balance.ofContext ctx [] writeOffs = .ok b ∧
      b.netRemainingTotal.cents ≤ b.writeOffTotal.cents ∧
      calculate ⟨"EUR", by decide⟩ tab selections [] writeOffs = .ok q ∧ q.amount.cents = 1 := by
  intro tab selections writeOffs
  obtain ⟨b, hb, htotals⟩ := exists_of_toOption
    (r := do Balance.ofContext (← Context.create ⟨"EUR", by decide⟩ tab selections) [] writeOffs)
    (f := fun b => decide (b.netRemainingTotal.cents ≤ b.writeOffTotal.cents))
    (v := true) (by decide +kernel)
  obtain ⟨q, hq, hamount⟩ := exists_of_toOption
    (r := calculate ⟨"EUR", by decide⟩ tab selections [] writeOffs)
    (f := fun q => q.amount.cents) (v := 1) (by decide +kernel)
  obtain ⟨ctx, hcreate, hbalance⟩ := bind_eq_ok_iff.1 hb
  exact ⟨ctx, b, q, hcreate, hbalance, of_decide_eq_true htotals, hq, hamount⟩

end Settlement.Quote
