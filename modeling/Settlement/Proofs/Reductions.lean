import Settlement.CommandLine.Run
import Settlement.Proofs.Blanks
import Settlement.Proofs.RoundedShares
import Settlement.Proofs.UncheckedValues

/-!
# Reductions

A discount takes a part of a base: a percentage of it, or a flat amount. Whatever its kind, a
reduction that is returned is above nothing and at most the base (`Discount.reduction_eq_ok_iff`),
so that the base covers it and the difference can be shown.

A percentage is computed as the share that it is of a hundred (`Discount.rawReduction_percent`),
with ten digits for the quotient and then to cents. For a base that is itself written with ten
digits that share is never above the base, all of it at a hundred percent, and nothing exactly if
the percentage comes to less than half a cent. It is what a single rounding yields while the
percentage comes to less than 10000.00; beyond, the ten digits may reach a half cent that the
percentage itself misses.
-/

namespace Settlement.Discount

variable {d : Discount} {base r : Money} {hundredths : ℕ}

/-! ### Percentages as shares -/

/-- What a percentage, in hundredths, takes of a base without roundings. -/
def exactReduction (hundredths : ℕ) (base : Money) : ℚ :=
  base.amount.value * (hundredths / 100) / 100

/-- The same in cents, as the share of a hundred percent. -/
theorem exactReduction_mul_hundred (hundredths : ℕ) (base : Money) :
    exactReduction hundredths base * 100 = base.cents * hundredths / (10000 : ℕ) := by
  rw [exactReduction, Money.value_amount]
  push_cast
  ring

/-- **Percentages.** What a percentage takes of a base is the share that the percentage is of a
hundred, made money. -/
theorem rawReduction_percent (hpos : 0 < hundredths) (hle : hundredths ≤ 10000) (base : Money) :
    ∃ x, rawReduction (.percent hundredths hpos hle) base = Money.ofDecimal base.currency x ∧
      x.negative = false ∧ x.magnitude = proportionOf base.cents hundredths 10000 := by
  have hpercent : (Decimal.ofHundredths hundredths).magnitude = hundredths / 100 := by
    rw [Decimal.magnitude_ofHundredths, Int.natAbs_natCast]
  have hsmall : (Decimal.ofHundredths hundredths).magnitude ≤ 10 ^ (26 : ℤ) := by
    have hcast : (hundredths : ℚ) ≤ 10000 := by exact_mod_cast hle
    rw [hpercent]
    norm_num
    linarith
  have hhundred : 1 / 100 ≤ (Decimal.ofNat 100).magnitude := by
    rw [Decimal.magnitude_ofNat]
    norm_num
  obtain ⟨x, hx, hneg, hmag⟩ := exists_proportion_of_le base.magnitude_amount_le hsmall hhundred
  refine ⟨x, by rw [rawReduction, hx]; rfl, ?_, ?_⟩
  · simp [hneg, Decimal.ofHundredths, Decimal.ofNat]
  · rw [hmag, hpercent, Money.magnitude_amount, Decimal.magnitude_ofNat, proportionOf]
    norm_num

theorem rawReduction_percent_eq_ok_iff {hpos : 0 < hundredths} {hle : hundredths ≤ 10000} :
    rawReduction (.percent hundredths hpos hle) base = .ok r ↔
      r.currency = base.currency ∧ r.cents = shareCents base.cents hundredths 10000 := by
  obtain ⟨x, hx, hneg, hmag⟩ := rawReduction_percent hpos hle base
  rw [hx, Money.ofDecimal_eq_ok_iff, hmag, shareCents, hneg]
  simp

/-- What a discount takes of a base is in the currency of the base. -/
theorem currency_rawReduction (h : rawReduction d.size base = .ok r) :
    r.currency = base.currency := by
  obtain ⟨size, reason, note⟩ := d
  cases size with
  | percent hundredths hpos hle => exact (rawReduction_percent_eq_ok_iff.1 h).1
  | flat amount hpos =>
    rw [rawReduction] at h
    split_ifs at h with hcur
    cases h
    exact hcur

/-! ### Reductions of any kind -/

/-- **Reductions.** A reduction is what the discount takes of the base, if that is more than nothing
and at most the base. -/
theorem reduction_eq_ok_iff :
    d.reduction base = .ok r ↔
      rawReduction d.size base = .ok r ∧ 0 < r.cents ∧ r.cents ≤ base.cents := by
  rw [reduction]
  by_cases hbase : base.cents = 0
  · rw [if_pos (base.isZero_iff.2 hbase)]
    refine ⟨nofun, ?_⟩
    rintro ⟨-, hpos, hle⟩
    omega
  rw [if_neg (mt base.isZero_iff.1 hbase), bind_eq_ok_iff]
  constructor
  · rintro ⟨m, hm, h⟩
    split_ifs at h with hzero habove
    cases h
    exact ⟨hm, Nat.pos_of_ne_zero (mt r.isZero_iff.2 hzero), not_lt.1 habove⟩
  · rintro ⟨hraw, hpos, hle⟩
    refine ⟨r, hraw, ?_⟩
    rw [if_neg (mt r.isZero_iff.1 hpos.ne'), if_neg (not_lt.2 hle)]

/-- **The rest.** The base covers a reduction, and both together are the base again. -/
theorem exists_net (h : d.reduction base = .ok r) :
    r.currency = base.currency ∧ 0 < r.cents ∧ r.cents ≤ base.cents ∧
      ∃ net, base.minus r = .ok net ∧ r.cents + net.cents = base.cents := by
  obtain ⟨hraw, hpos, hle⟩ := reduction_eq_ok_iff.1 h
  have hcur := currency_rawReduction hraw
  obtain ⟨net, hnet⟩ := Money.exists_minus hcur.symm hle
  obtain ⟨-, -, -, hsum⟩ := Money.minus_eq_ok_iff.1 hnet
  exact ⟨hcur, hpos, hle, net, hnet, by omega⟩

/-- **Discounts as write-offs.** A write-off of the tab takes what the discount does. -/
theorem toWriteOff_eq_ok_iff {w : WriteOff} :
    d.toWriteOff base = .ok w ↔ d.reduction base = .ok w.amount ∧ w.reason = d.reason ∧
      Note.Keeps ((d.note.map Value.text).getD .null) w.note := by
  simp only [toWriteOff, bind_eq_ok_iff, WriteOff.ofValues_eq_ok_iff, Note.normalize_eq_ok_iff]
  constructor
  · rintro ⟨r, hr, rfl, hreason, hnote⟩
    exact ⟨hr, hreason, hnote⟩
  · rintro ⟨hr, hreason, hnote⟩
    exact ⟨_, hr, rfl, hreason, hnote⟩

/-- A write-off of a quantity of an item takes what the discount does, too. -/
theorem toItemWriteOff_eq_ok_iff {w : ItemWriteOff} {id : String} {n : ℤ} :
    d.toItemWriteOff (.text id) (.whole n) base = .ok w ↔
      w.id = id ∧ w.quantity = n ∧ d.reduction base = .ok w.amount ∧ w.reason = d.reason ∧
        Note.Keeps ((d.note.map Value.text).getD .null) w.note := by
  have hscope : ∀ u, requireScope (.text id) (.whole n) = .ok u ↔ 0 < n := by
    intro u
    rw [requireScope]
    split_ifs with h <;> simp [h]
  simp only [toItemWriteOff, bind_eq_ok_iff, hscope, ItemWriteOff.ofValues_eq_ok_iff,
    Note.normalize_eq_ok_iff]
  constructor
  · rintro ⟨-, -, r, hr, hid, hquantity, rfl, hreason, hnote⟩
    exact ⟨hid, hquantity, hr, hreason, hnote⟩
  · rintro ⟨hid, hquantity, hr, hreason, hnote⟩
    have hpos := w.quantity_pos
    exact ⟨(), by omega, _, hr, hid, hquantity, rfl, hreason, hnote⟩

/-- What the `discount` command resolves is a discount of the base that it shows. -/
theorem exists_discount_of_resolveDiscount {currency : Currency} {text : String}
    {size : String ⊕ String} {reason : Reason} {note : Option String} {w : WriteOff}
    (h : CommandLine.resolveDiscount currency text size reason note = .ok (base, w)) :
    ∃ d : Discount, d.toWriteOff base = .ok w := by
  obtain ⟨x, -, h⟩ := bind_eq_ok_iff.1 h
  obtain ⟨shown, -, h⟩ := bind_eq_ok_iff.1 h
  -- either kind of discount is resolved against the base in the same way
  have hresolved : ∀ d : Discount,
      (d.toWriteOff shown >>= fun w => .ok (shown, w)) = Except.ok (base, w) →
        d.toWriteOff base = .ok w := by
    intro d hd
    obtain ⟨w', hw, hd⟩ := bind_eq_ok_iff.1 hd
    cases hd
    exact hw
  cases size with
  | inl percent =>
    obtain ⟨y, -, h⟩ := bind_eq_ok_iff.1 h
    obtain ⟨d, -, h⟩ := bind_eq_ok_iff.1 h
    exact ⟨d, hresolved d h⟩
  | inr amount =>
    obtain ⟨y, -, h⟩ := bind_eq_ok_iff.1 h
    obtain ⟨m, -, h⟩ := bind_eq_ok_iff.1 h
    obtain ⟨d, -, h⟩ := bind_eq_ok_iff.1 h
    exact ⟨d, hresolved d h⟩

/-! ### Bases with ten digits -/

/-- A discount **takes a percentage**, in hundredths, if that is its size. -/
def TakesPercent (d : Discount) (hundredths : ℕ) : Prop :=
  ∃ hpos hle, d.size = .percent hundredths hpos hle

theorem TakesPercent.le (h : d.TakesPercent hundredths) : hundredths ≤ 10000 := by
  obtain ⟨-, hle, -⟩ := h
  exact hle

theorem rawReduction_eq_ok_iff (h : d.TakesPercent hundredths) :
    rawReduction d.size base = .ok r ↔
      r.currency = base.currency ∧ r.cents = shareCents base.cents hundredths 10000 := by
  obtain ⟨hpos, hle, hsize⟩ := h
  rw [hsize]
  exact rawReduction_percent_eq_ok_iff

/-- The reduction by a percentage is never above a base with ten digits, so that it can only be
nothing. -/
theorem reduction_percent_cases (h : d.TakesPercent hundredths) (hpos : 0 < base.cents)
    (hbase : base.cents < 10 ^ 10) :
    (shareCents base.cents hundredths 10000 = 0 ∧ d.reduction base = .error (.zeroReduction base)) ∨
      ∃ r, d.reduction base = .ok r ∧ r.currency = base.currency ∧
        r.cents = shareCents base.cents hundredths 10000 := by
  have hshare : shareCents base.cents hundredths 10000 ≤ base.cents := by
    rw [shareCents_comm]
    exact shareCents_le (by decide) h.le hbase
  obtain ⟨r, hcur, hcents⟩ : ∃ r : Money, r.currency = base.currency ∧
      r.cents = shareCents base.cents hundredths 10000 :=
    ⟨⟨base.currency, _, hshare.trans_lt base.lt_bound⟩, rfl, rfl⟩
  have hraw : rawReduction d.size base = .ok r := (rawReduction_eq_ok_iff h).2 ⟨hcur, hcents⟩
  rcases Nat.eq_zero_or_pos r.cents with hr | hr
  · refine .inl ⟨hcents ▸ hr, ?_⟩
    rw [reduction, if_neg (mt base.isZero_iff.1 hpos.ne'), bind_of_eq_ok hraw,
      if_pos (r.isZero_iff.2 hr)]
  · exact .inr ⟨r, reduction_eq_ok_iff.2 ⟨hraw, hr, hcents.trans_le hshare⟩, hcur, hcents⟩

/-- Ten digits and a percentage have a product that is not rounded. -/
private theorem product_le (hle : hundredths ≤ 10000) (hbase : base.cents < 10 ^ 10) :
    base.cents * hundredths ≤ 10 ^ 28 :=
  (Nat.mul_le_mul hbase.le hle).trans (by norm_num)

/-- **Ten digits.** A percentage of a base is rounded to ten digits and then to cents. -/
theorem shareCents_percent_eq (hle : hundredths ≤ 10000) (hbase : base.cents < 10 ^ 10) :
    shareCents base.cents hundredths 10000 =
      Rounding.halfUp.nearest (Precision.working.nearest (exactReduction hundredths base) * 100) := by
  rw [shareCents_eq (product_le hle hbase), ← exactReduction_mul_hundred,
    mul_div_cancel_right₀ _ (by norm_num)]

/-- **Below 10000.00.** Ten digits hold the quotient of a percentage that comes to at most 10000.00,
so that it is rounded once. -/
theorem shareCents_percent_eq_nearest (hle : hundredths ≤ 10000) (hbase : base.cents < 10 ^ 10)
    (h : exactReduction hundredths base ≤ 10000) :
    shareCents base.cents hundredths 10000 =
      Rounding.halfUp.nearest (exactReduction hundredths base * 100) := by
  have hexact := exactReduction_mul_hundred hundredths base
  rw [hexact]
  refine shareCents_eq_nearest_of_represents (product_le hle hbase)
    ⟨base.cents * hundredths, -6, ?_, by decide, ?_⟩
  · have hcast : (base.cents * hundredths : ℚ) ≤ 10 ^ 10 := by
      push_cast at hexact
      linarith
    exact_mod_cast hcast
  · push_cast
    norm_num
    ring

/-- **Half a cent.** A percentage takes nothing of a base exactly if it comes to less than half a
cent. -/
theorem shareCents_percent_eq_zero_iff (hle : hundredths ≤ 10000) (hbase : base.cents < 10 ^ 10) :
    shareCents base.cents hundredths 10000 = 0 ↔ exactReduction hundredths base < 5 / 1000 := by
  have hexact := exactReduction_mul_hundred hundredths base
  constructor
  · intro hzero
    by_contra hlarge
    have hreach : ((0 : ℕ) + 1 / 2 : ℚ) ≤ base.cents * hundredths / (10000 : ℕ) := by
      rw [← hexact]
      norm_num
      linarith
    have hone := succ_le_shareCents (product_le hle hbase) (by norm_num) hreach
    omega
  · intro hsmall
    rw [shareCents_percent_eq_nearest hle hbase (by linarith), Rounding.nearest, Nat.floor_eq_zero]
    linarith

/-! ### Accuracy -/

/-- **Accuracy of reductions.** Of a base with ten digits a percentage takes nothing, and is refused
for it, exactly if it comes to less than half a cent. Else it is rounded to ten digits and then to
cents: that is all of the base at a hundred percent, what a single rounding yields if it comes to
less than 10000.00, and that or one cent more up to 1000000.00. A larger percentage of a larger base
is not less. Any reduction leaves a rest of its base, which is what the `discount` command
prints. -/
theorem reduction_accuracy (d : Discount) (base : Money) :
    (∀ hundredths, d.TakesPercent hundredths → 0 < base.cents → base.cents < 10 ^ 10 →
      let exact := exactReduction hundredths base
      ((∃ f, f.category = .invalidReduction ∧ d.reduction base = .error f) ↔ exact < 5 / 1000) ∧
      (5 / 1000 ≤ exact → ∃ r, d.reduction base = .ok r ∧
        r.cents = Rounding.halfUp.nearest (Precision.working.nearest exact * 100) ∧
        (hundredths = 10000 → r = base) ∧
        (exact < 10000 → r.cents = ⌊exact * 100 + 1 / 2⌋₊) ∧
        (exact < 1000000 →
          r.cents = ⌊exact * 100 + 1 / 2⌋₊ ∨ r.cents = ⌊exact * 100 + 1 / 2⌋₊ + 1))) ∧
    (∀ (d' : Discount) (base' r r' : Money) (hundredths hundredths' : ℕ),
      d.TakesPercent hundredths → d'.TakesPercent hundredths' → hundredths ≤ hundredths' →
      base.cents ≤ base'.cents → d.reduction base = .ok r → d'.reduction base' = .ok r' →
      r.cents ≤ r'.cents) ∧
    (∀ r, d.reduction base = .ok r →
      r.currency = base.currency ∧ 0 < r.cents ∧ r.cents ≤ base.cents ∧
        ∃ net, base.minus r = .ok net ∧ r.cents + net.cents = base.cents) ∧
    ∀ currency text size reason note base w,
      CommandLine.resolveDiscount currency text size reason note = .ok (base, w) →
        ∃ net out, base.minus w.amount = .ok net ∧ w.amount.cents + net.cents = base.cents ∧
          CommandLine.discountReport base w = .ok out := by
  refine ⟨?_, ?_, fun r => exists_net, ?_⟩
  · intro hundredths hpercent hpos hbase exact
    have hzero := shareCents_percent_eq_zero_iff hpercent.le hbase
    have hexact := exactReduction_mul_hundred hundredths base
    rcases reduction_percent_cases hpercent hpos hbase with ⟨hnone, herror⟩ | ⟨r, hr, hcur, hcents⟩
    · have hsmall : exact < 5 / 1000 := hzero.1 hnone
      exact ⟨⟨fun _ => hsmall, fun _ => ⟨_, rfl, herror⟩⟩, fun hge => absurd hsmall (not_lt.2 hge)⟩
    · refine ⟨⟨?_, fun hsmall => ?_⟩, fun _ =>
        ⟨r, hr, hcents.trans (shareCents_percent_eq hpercent.le hbase), ?_, ?_, ?_⟩⟩
      · rintro ⟨f, -, hf⟩
        cases hf.symm.trans hr
      · have hrpos := (reduction_eq_ok_iff.1 hr).2.1
        exact absurd (hcents.trans (hzero.2 hsmall)) hrpos.ne'
      · rintro rfl
        rw [shareCents_self (by decide) hbase] at hcents
        exact Money.ext_cents hcur hcents
      · intro hlt
        exact hcents.trans (shareCents_percent_eq_nearest hpercent.le hbase hlt.le)
      · intro hlt
        have hcases := shareCents_eq_nearest_or_succ (w := 10000) (product_le hpercent.le hbase)
          (by rw [← hexact]; linarith)
        rwa [← hexact, ← hcents] at hcases
  · intro d' base' r r' hundredths hundredths' hpercent hpercent' hle hbase hr hr'
    obtain ⟨-, hcents⟩ := (rawReduction_eq_ok_iff hpercent).1 (reduction_eq_ok_iff.1 hr).1
    obtain ⟨-, hcents'⟩ := (rawReduction_eq_ok_iff hpercent').1 (reduction_eq_ok_iff.1 hr').1
    calc r.cents = shareCents base.cents hundredths 10000 := hcents
      _ ≤ shareCents base'.cents hundredths 10000 := shareCents_mono hbase ..
      _ = shareCents hundredths base'.cents 10000 := shareCents_comm ..
      _ ≤ shareCents hundredths' base'.cents 10000 := shareCents_mono hle ..
      _ = r'.cents := by rw [shareCents_comm, hcents']
  · intro currency text size reason note base w h
    obtain ⟨d, hw⟩ := exists_discount_of_resolveDiscount h
    obtain ⟨-, -, -, net, hnet, hsum⟩ := exists_net (toWriteOff_eq_ok_iff.1 hw).1
    exact ⟨net, _, hnet, hsum, bind_of_eq_ok hnet _⟩

/-- Twelve and a half percent of 39.99 come to 4.99875, are 5.00, and leave 34.99. -/
theorem reduction_accuracy_eighth :
    let d : Discount := ⟨.percent 1250 (by decide) (by decide), .discount, none⟩
    let base : Money := .euro 3999 (by decide)
    d.TakesPercent 1250 ∧ 0 < base.cents ∧ base.cents < 10 ^ 10 ∧
      5 / 1000 ≤ exactReduction 1250 base ∧ exactReduction 1250 base < 10000 ∧
      ∃ r net, d.reduction base = .ok r ∧ r.cents = 500 ∧ base.minus r = .ok net ∧
        net.cents = 3499 := by
  intro d base
  have hpercent : d.TakesPercent 1250 := ⟨_, _, rfl⟩
  have hexact : exactReduction 1250 base = 499875 / 100000 := by
    rw [exactReduction, Money.value_amount]
    norm_num [base, Money.euro]
  have hge : 5 / 1000 ≤ exactReduction 1250 base := by norm_num [hexact]
  have hlt : exactReduction 1250 base < 10000 := by norm_num [hexact]
  obtain ⟨hten, -, hrest, -⟩ := reduction_accuracy d base
  obtain ⟨r, hr, -, -, hnearest, -⟩ := (hten 1250 hpercent (by decide) (by decide)).2 hge
  have hcents : r.cents = 500 := by
    rw [hnearest hlt, hexact]
    norm_num
  obtain ⟨-, -, -, net, hnet, hsum⟩ := hrest r hr
  have hbase : base.cents = 3999 := rfl
  exact ⟨hpercent, by decide, by decide, hge, hlt, r, net, hr, hcents, hnet, by omega⟩

/-- Five hundredths of a percent of 20000009.99 come to 10000.004995: ten digits reach the half cent
that this misses, and the reduction is one cent above 10000.00. -/
theorem reduction_above_nearest :
    let d : Discount := ⟨.percent 5 (by decide) (by decide), .discount, none⟩
    let base : Money := .euro 2000000999 (by decide)
    ∃ r, d.reduction base = .ok r ∧ exactReduction 5 base < 1000000 ∧
      ⌊exactReduction 5 base * 100 + 1 / 2⌋₊ = 1000000 ∧ r.cents = 1000001 := by
  intro d base
  obtain ⟨r, hr, hcents⟩ := exists_of_toOption (r := d.reduction base) (f := Money.cents)
    (v := 1000001) (by decide +kernel)
  have hexact : exactReduction 5 base = 10000004995 / 1000000 := by
    rw [exactReduction, Money.value_amount]
    norm_num [base, Money.euro]
  refine ⟨r, hr, by norm_num [hexact], ?_, hcents⟩
  rw [hexact, Nat.floor_eq_iff (by norm_num)]
  norm_num

end Settlement.Discount
