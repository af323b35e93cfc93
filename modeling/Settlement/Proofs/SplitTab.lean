import Settlement.Proofs.Prices
import Settlement.Proofs.RoundedShares

/-!
# Splitting a tab

Several payers ask for quotes of one and the same tab, and their selections make up all that
remains. The prices of the selections then add up to what is outstanding exactly, but each payer's
share in the write-offs of the tab is rounded on its own. As no share of a tab below `10 ^ 10` cents
is off by more than 0.56 cents, the quotes add up to what the tab is worth but for 0.56 cents for
each payer.
-/

namespace Settlement.Quote

variable {currency : Currency} {items : List Item} {selections : List Selection}
  {writeOffs : List WriteOff} {q : Quote} {lists : List (List Selection)} {quotes : List Quote}

/-- A payer is charged the price of the selection less its exact share, but for 0.56 cents. -/
private theorem abs_amount_sub_le (hsmall : outstanding items < 10 ^ 10)
    (h : calculate currency items selections [] writeOffs = .ok q) :
    |(q.amount.cents : ℚ) -
        priceOf items selections * (1 - WriteOff.total writeOffs / outstanding items)| ≤
      56 / 100 := by
  obtain ⟨hpos, hamount⟩ := amount_add_shareCents h
  obtain ⟨ctx, hcreate, -⟩ := bind_eq_ok_iff.1 h
  have hle := priceOf_le_outstanding fun item hitem => Context.quantityOf_le hcreate hitem
  set share := shareCents (WriteOff.total writeOffs) (priceOf items selections) (outstanding items)
    with hshare
  have herr : |(share : ℚ) - WriteOff.total writeOffs * priceOf items selections /
      outstanding items| ≤ 56 / 100 := abs_shareCents_sub_le hpos (by omega)
  have hcast : (q.amount.cents : ℚ) = priceOf items selections - share := by
    rw [← hamount]
    push_cast
    ring
  rw [abs_sub_comm] at herr
  calc _ = |(WriteOff.total writeOffs * priceOf items selections / outstanding items : ℚ) -
        share| := by
        rw [hcast]
        congr 1
        ring
    _ ≤ 56 / 100 := herr

/-- Several payers are charged the prices of their selections less the exact shares of these, but
for 0.56 cents each. -/
private theorem abs_sum_amounts_sub_le (hsmall : outstanding items < 10 ^ 10)
    (h : List.Forall₂ (fun l q => calculate currency items l [] writeOffs = .ok q) lists quotes) :
    |((quotes.map fun q => q.amount.cents).sum : ℚ) -
        (lists.map (priceOf items)).sum * (1 - WriteOff.total writeOffs / outstanding items)| ≤
      56 / 100 * lists.length := by
  induction h with
  | nil => simp
  | @cons l q lists quotes hq _ ih =>
    have hfirst := abs_le.1 (abs_amount_sub_le hsmall hq)
    have hrest := abs_le.1 ih
    simp only [List.map_cons, List.sum_cons, List.length_cons, Nat.cast_add, Nat.cast_one]
    rw [abs_le]
    constructor <;> linarith

/-- **Splitting a tab.** Let no item be written off, and let what is outstanding on a tab be written
with ten digits. If selections make up all that remains and there is a quote of the tab for each of
them, the quotes add up to what is outstanding less the write-offs of the tab, but for 0.56 cents
for each payer. -/
theorem abs_sum_amounts_of_split (hne : lists ≠ []) (hsmall : outstanding items ≤ 9999999999)
    (hsplit : ∀ item ∈ items, asked lists item.id = item.remaining)
    (hquotes : List.Forall₂ (fun l q => calculate currency items l [] writeOffs = .ok q)
      lists quotes) :
    |((quotes.map fun q => q.amount.cents).sum : ℚ) -
        (outstanding items - WriteOff.total writeOffs)| ≤
      56 / 100 * lists.length := by
  have hpos : 0 < outstanding items := by
    cases hquotes with
    | nil => exact absurd rfl hne
    | cons hq _ => exact (amount_add_shareCents hq).1
  have hprices : (lists.map (priceOf items)).sum = outstanding items := by
    rw [sum_priceOf, outstanding]
    congr 1
    exact List.map_congr_left fun item hitem => by rw [hsplit item hitem]
  have hsum := abs_sum_amounts_sub_le (by omega) hquotes
  rw [hprices, mul_sub, mul_one, mul_div_cancel₀ _ (by exact_mod_cast hpos.ne')] at hsum
  exact hsum

/-- Three teas for one euro each, with one euro to write off: three payers pay 67 cents each. -/
theorem abs_sum_amounts_of_split_three_teas :
    let tab : List Item := [⟨"tea", Money.euro 100 (by decide), 3, by decide, by decide⟩]
    let selections : List Selection := [⟨"tea", 1, by decide, by decide⟩]
    let writeOffs : List WriteOff := [⟨Money.euro 100 (by decide), .discount, none, by decide⟩]
    ∃ q, calculate ⟨"EUR", by decide⟩ tab selections [] writeOffs = .ok q ∧ q.amount.cents = 67 ∧
      |(([q, q, q].map fun q => q.amount.cents).sum : ℚ) -
        (outstanding tab - WriteOff.total writeOffs)| ≤ 56 / 100 * 3 := by
  intro tab selections writeOffs
  obtain ⟨q, hq, hamount⟩ := exists_of_toOption
    (r := calculate ⟨"EUR", by decide⟩ tab selections [] writeOffs)
    (f := fun q => q.amount.cents) (v := 67) (by decide +kernel)
  have hquotes : List.Forall₂ (fun l q => calculate ⟨"EUR", by decide⟩ tab l [] writeOffs = .ok q)
      [selections, selections, selections] [q, q, q] :=
    .cons hq (.cons hq (.cons hq .nil))
  have hsum := abs_sum_amounts_of_split (by simp) (by decide) (by decide) hquotes
  exact ⟨q, hq, hamount, hsum⟩

end Settlement.Quote
