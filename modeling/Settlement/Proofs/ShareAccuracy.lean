import Settlement.Proofs.RoundedShares

/-!
# What a share is worth

The share `total · part / whole` as an amount of money, between what it is without roundings and the
amounts that it comes from. `shareOfTotal_accuracy` says how far the three roundings take it, and
that they round once in effect while the product of total and part is below `100 000`: a quotient of
such amounts cannot come so close to half a cent that ten digits reach it. `shareOfTotal_bounds`
says that amounts of ten digits bound their shares as they bound the fractions.
-/

namespace Settlement

variable {total part whole : Money}

/-- The share `total · part / whole` without roundings. -/
def exactShare (total part whole : Money) : ℚ :=
  total.amount.value * part.amount.value / whole.amount.value

private theorem exactShare_mul_hundred (total part whole : Money) :
    exactShare total part whole * 100 = (total.cents * part.cents / whole.cents : ℚ) := by
  rw [exactShare, Money.value_amount, Money.value_amount, Money.value_amount]
  field_simp

/-- There is a share if its number of cents is bounded below the bound of money. -/
private theorem exists_shareOfTotal {n : ℕ} (hpart : part.currency = total.currency)
    (hcur : whole.currency = total.currency) (hpos : 0 < whole.cents)
    (hle : shareCents total.cents part.cents whole.cents ≤ n) (hn : n < Money.bound) :
    ∃ m, shareOfTotal total.currency.code total part whole = .ok m ∧ m.currency = total.currency ∧
      m.cents = shareCents total.cents part.cents whole.cents :=
  ⟨⟨total.currency, shareCents total.cents part.cents whole.cents, hle.trans_lt hn⟩,
    (shareOfTotal_eq_ok_iff hpart hcur hpos).2 ⟨rfl, rfl⟩, rfl, rfl⟩

/-! ### Distance from the exact share -/

/-- A share that would be below `10 ^ 8` is in range, as it is off by less than a cent. -/
private theorem exists_share_near (hpart : part.currency = total.currency)
    (hcur : whole.currency = total.currency) (hpos : 0 < whole.cents)
    (hlt : exactShare total part whole < 10 ^ 8) :
    ∃ m, shareOfTotal total.currency.code total part whole = .ok m ∧ m.currency = total.currency ∧
      |m.amount.value - exactShare total part whole| < 56 / 10000 := by
  have hexact := exactShare_mul_hundred total part whole
  have herr : |(shareCents total.cents part.cents whole.cents : ℚ) -
      total.cents * part.cents / whole.cents| < 56 / 100 :=
    abs_shareCents_sub_lt hpos (by linarith)
  rw [← hexact] at herr
  obtain ⟨hlower, hupper⟩ := abs_lt.1 herr
  have hle : (shareCents total.cents part.cents whole.cents : ℚ) ≤ (10 ^ 11 : ℕ) := by
    push_cast
    linarith
  obtain ⟨m, hm, hmcur, hcents⟩ :=
    exists_shareOfTotal hpart hcur hpos (Nat.cast_le.1 hle) (by decide)
  refine ⟨m, hm, hmcur, ?_⟩
  rw [Money.value_amount, hcents, abs_lt]
  constructor <;> linarith

/-- A share of amounts with a small product is in range, as it is at most the product. -/
private theorem exists_share_rounded_once (hpart : part.currency = total.currency)
    (hcur : whole.currency = total.currency) (hpos : 0 < whole.cents)
    (hlt : total.amount.value * part.amount.value < 100000) :
    ∃ m, shareOfTotal total.currency.code total part whole = .ok m ∧ m.currency = total.currency ∧
      m.cents = ⌊exactShare total part whole * 100 + 1 / 2⌋₊ := by
  have hproduct : total.cents * part.cents < 10 ^ 9 := by
    rw [Money.value_amount, Money.value_amount] at hlt
    have hcast : (total.cents * part.cents : ℚ) < 10 ^ 9 := by linarith
    exact_mod_cast hcast
  have hnearest : shareCents total.cents part.cents whole.cents =
      Rounding.halfUp.nearest (total.cents * part.cents / whole.cents) :=
    shareCents_eq_nearest hpos whole.lt_bound.le hproduct
  have hle : shareCents total.cents part.cents whole.cents ≤ total.cents * part.cents := by
    rw [hnearest]
    refine Rounding.halfUp.nearest_le_of_le (by positivity) ?_
    push_cast
    exact div_le_self (by positivity) (by exact_mod_cast hpos)
  obtain ⟨m, hm, hmcur, hcents⟩ :=
    exists_shareOfTotal hpart hcur hpos hle (hproduct.trans (by decide))
  refine ⟨m, hm, hmcur, ?_⟩
  rw [hcents, hnearest, exactShare_mul_hundred, Rounding.nearest]

/-- **Accuracy.** A share that is below `10 ^ 8` without roundings is returned, off by less than
0.0056. If the product of total and part is below `100 000`, it is the exact share rounded to cents,
half up, as if there were no other rounding. -/
theorem shareOfTotal_accuracy (total part whole : Money) (hpart : part.currency = total.currency)
    (hcur : whole.currency = total.currency) (hpos : 0 < whole.cents) :
    (exactShare total part whole < 10 ^ 8 →
      ∃ m, shareOfTotal total.currency.code total part whole = .ok m ∧
        m.currency = total.currency ∧
        |m.amount.value - exactShare total part whole| < 56 / 10000) ∧
    (total.amount.value * part.amount.value < 100000 →
      ∃ m, shareOfTotal total.currency.code total part whole = .ok m ∧
        m.currency = total.currency ∧
        m.cents = ⌊exactShare total part whole * 100 + 1 / 2⌋₊) :=
  ⟨exists_share_near hpart hcur hpos, exists_share_rounded_once hpart hcur hpos⟩

/-- A third of ten euro is 3.33 euro, a third of a cent away. -/
theorem shareOfTotal_accuracy_third :
    let total := Money.euro 1000 (by decide)
    let part := Money.euro 100 (by decide)
    let whole := Money.euro 300 (by decide)
    ∃ m, shareOfTotal total.currency.code total part whole = .ok m ∧ m.cents = 333 ∧
      |m.amount.value - 10 / 3| < 56 / 10000 := by
  intro total part whole
  have hexact : exactShare total part whole = 10 / 3 := by
    rw [exactShare, Money.value_amount, Money.value_amount, Money.value_amount]
    norm_num [total, part, whole, Money.euro]
  have hproduct : total.amount.value * part.amount.value < 100000 := by
    rw [Money.value_amount, Money.value_amount]
    norm_num [total, part, Money.euro]
  obtain ⟨hnear, honce⟩ := shareOfTotal_accuracy total part whole rfl rfl (by decide)
  obtain ⟨m, hm, -, herr⟩ := hnear (by rw [hexact]; norm_num)
  obtain ⟨m', hm', -, hcents⟩ := honce hproduct
  obtain rfl : m = m' := Except.ok.inj (hm.symm.trans hm')
  refine ⟨m, hm, ?_, hexact ▸ herr⟩
  rw [hcents, hexact]
  norm_num [Nat.floor_eq_iff]

/-- The bound on the product is of the right size: a little above it, ten digits of a share below a
cent and a half are a cent and a half, and two cents. -/
example : (shareOfTotal "EUR" (Money.euro 1 (by decide)) (Money.euro 1500000001 (by decide))
    (Money.euro 1000000001 (by decide))).toOption.map Money.cents = some 2 := by
  decide +kernel

/-! ### Caps -/

/-- **Caps.** Where the total is at most the whole, the share of a part of ten digits is at most the
part, and where it is at least the whole, at least the part. The share of a part of the whole is at
most the total, if that has ten digits. -/
theorem shareOfTotal_bounds (total part whole : Money) (hpart : part.currency = total.currency)
    (hcur : whole.currency = total.currency) (hpos : 0 < whole.cents) :
    (part.cents ≤ 9999999999 →
      (total.cents ≤ whole.cents →
        ∃ m, shareOfTotal total.currency.code total part whole = .ok m ∧ m.cents ≤ part.cents) ∧
      (whole.cents ≤ total.cents →
        ∀ m, shareOfTotal total.currency.code total part whole = .ok m → part.cents ≤ m.cents) ∧
      (total.cents = whole.cents →
        shareOfTotal total.currency.code total part whole = .ok part)) ∧
    (total.cents ≤ 9999999999 →
      (part.cents ≤ whole.cents →
        ∃ m, shareOfTotal total.currency.code total part whole = .ok m ∧ m.cents ≤ total.cents) ∧
      (part.cents = whole.cents →
        shareOfTotal total.currency.code total part whole = .ok total)) := by
  refine ⟨fun hsmall => ⟨fun hle => ?_, fun hge m hm => ?_, fun heq => ?_⟩,
    fun hsmall => ⟨fun hle => ?_, fun heq => ?_⟩⟩
  · have hshare := shareCents_le hpos hle (show part.cents < 10 ^ 10 by omega)
    obtain ⟨m, hm, -, hcents⟩ := exists_shareOfTotal hpart hcur hpos hshare part.lt_bound
    exact ⟨m, hm, hcents ▸ hshare⟩
  · rw [(shareOfTotal_of_ok hm).2.2]
    exact le_shareCents hpos hge (k := 0) (show part.cents ≤ 10 ^ 10 by omega) (by omega)
  · rw [shareOfTotal_eq_ok_iff hpart hcur hpos, heq, shareCents_comm]
    exact ⟨hpart, (shareCents_self hpos (by omega)).symm⟩
  · have hshare := shareCents_le hpos hle (show total.cents < 10 ^ 10 by omega)
    rw [shareCents_comm] at hshare
    obtain ⟨m, hm, -, hcents⟩ := exists_shareOfTotal hpart hcur hpos hshare total.lt_bound
    exact ⟨m, hm, hcents ▸ hshare⟩
  · rw [shareOfTotal_eq_ok_iff hpart hcur hpos, heq]
    exact ⟨rfl, (shareCents_self hpos (by omega)).symm⟩

/-- A cake for two euro fifty keeps its share of ten euro below its price, and has it whole when the
ten euro are all that there is. -/
theorem shareOfTotal_bounds_cake :
    let tenEuro := Money.euro 1000 (by decide)
    let cake := Money.euro 250 (by decide)
    let tab := Money.euro 1200 (by decide)
    (∃ m, shareOfTotal tenEuro.currency.code tenEuro cake tab = .ok m ∧ m.cents ≤ 250) ∧
      shareOfTotal tenEuro.currency.code tenEuro cake tenEuro = .ok cake := by
  intro tenEuro cake tab
  obtain ⟨hpart, -⟩ := shareOfTotal_bounds tenEuro cake tab rfl rfl (by decide)
  obtain ⟨hall, -⟩ := shareOfTotal_bounds tenEuro cake tenEuro rfl rfl (by decide)
  exact ⟨(hpart (by decide)).1 (by decide), (hall (by decide)).2.2 rfl⟩

/-- Of eleven digits the last is lost. -/
example : (shareOfTotal "EUR" (Money.euro 12345678991 (by decide))
    (Money.euro 12345678991 (by decide)) (Money.euro 12345678991 (by decide))).toOption.map
      Money.cents = some 12345678990 := by
  decide +kernel

end Settlement
