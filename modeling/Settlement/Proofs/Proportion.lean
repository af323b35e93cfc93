import Settlement.Allocation.Share
import Settlement.Proofs.Amounts

/-!
# Proportional shares, as numbers

A proportional share is `total · part / whole`, rounded to twenty-eight digits after the product, to
ten after the quotient and then to cents: `proportionOf` is the quotient and `shareCents` the
number of cents. `exists_proportion` and `shareOfTotal_of_ok` say that the program computes them.

How far three roundings can move a share is bounded on both sides. A share of a whole stays below
the bound of money if the total is well below it (`shareCents_lt_bound`). And the share of a part
that is written with ten significant digits is never below the part when the total covers the whole
(`le_shareCents`).
-/

namespace Settlement

/-! ### The quotient and its cents -/

/-- The quotient `total · part / whole` at working precision, of amounts in cents. -/
def proportionOf (total part whole : ℕ) : ℚ :=
  Precision.working.nearest
    (Precision.exact.nearest (total / 100 * (part / 100)) / (whole / 100))

/-- The share of `total` that `part` is of `whole`, in cents. -/
def shareCents (total part whole : ℕ) : ℕ :=
  Rounding.halfUp.nearest (proportionOf total part whole * 100)

variable {total part whole : Money} {code : String} {m : Money}

/-- **Proportions.** Numerals that are neither too large nor, as a whole, too small have a
proportion, and it is the exact one up to two roundings. -/
theorem exists_proportion_of_le {x y z : Decimal} (hx : x.magnitude ≤ 10 ^ (26 : ℤ))
    (hy : y.magnitude ≤ 10 ^ (26 : ℤ)) (hz : 1 / 100 ≤ z.magnitude) :
    ∃ q, proportion x y z = .ok q ∧ q.negative = ((x.negative != y.negative) != z.negative) ∧
      q.magnitude = Precision.working.nearest
        (Precision.exact.nearest (x.magnitude * y.magnitude) / z.magnitude) := by
  have hprod : x.magnitude * y.magnitude ≤ 10 ^ (52 : ℤ) :=
    calc x.magnitude * y.magnitude ≤ 10 ^ (26 : ℤ) * 10 ^ (26 : ℤ) :=
          mul_le_mul hx hy y.magnitude_nonneg (by positivity)
      _ = 10 ^ (52 : ℤ) := by norm_num
  obtain ⟨w, hw, hwneg, hwmag⟩ := Precision.exists_multiply (p := .exact) (by decide)
    (hprod.trans (zpow_le_zpow_right₀ (by norm_num) (by decide)))
  have hwle : w.magnitude ≤ 10 ^ (52 : ℤ) := by
    rw [hwmag]
    exact Precision.nearest_le_zpow (by decide)
      (mul_nonneg x.magnitude_nonneg y.magnitude_nonneg) (by decide) hprod
  have hquot : w.magnitude / z.magnitude ≤ 10 ^ maxExponent :=
    calc w.magnitude / z.magnitude ≤ 10 ^ (52 : ℤ) / (1 / 100) :=
          div_le_div₀ (by positivity) hwle (by norm_num) hz
      _ = 10 ^ (54 : ℤ) := by norm_num
      _ ≤ 10 ^ maxExponent := zpow_le_zpow_right₀ (by norm_num) (by decide)
  have hzpos : 0 < z.coefficient := Decimal.magnitude_pos_iff.1 (lt_of_lt_of_le (by norm_num) hz)
  obtain ⟨q, hq, hqneg, hqmag⟩ :=
    Precision.exists_divide (p := .working) (by decide) (x := w) (y := z) hzpos hquot
  refine ⟨q, ?_, by rw [hqneg, hwneg], by rw [hqmag, hwmag]⟩
  rw [proportion, hw]
  change (Precision.working.divide w z).mapError Fault.trap = _
  rw [hq]
  rfl

/-- Three amounts have a proportion unless the whole is zero. -/
theorem exists_proportion (total part : Money) (hwhole : 0 < whole.cents) :
    ∃ x, proportion total.amount part.amount whole.amount = .ok x ∧ x.negative = false ∧
      x.magnitude = proportionOf total.cents part.cents whole.cents := by
  have hcents : 1 / 100 ≤ whole.amount.magnitude := by
    rw [Money.magnitude_amount]
    refine div_le_div_of_nonneg_right ?_ (by norm_num)
    exact_mod_cast hwhole
  obtain ⟨x, hx, hneg, hmag⟩ :=
    exists_proportion_of_le total.magnitude_amount_le part.magnitude_amount_le hcents
  refine ⟨x, hx, by simpa using hneg, ?_⟩
  rw [hmag, Money.magnitude_amount, Money.magnitude_amount, Money.magnitude_amount]
  rfl

/-- A share of nothing is nothing, and so is the share of a part that is nothing. -/
theorem shareCents_eq_zero {t p : ℕ} (h : t = 0 ∨ p = 0) (w : ℕ) : shareCents t p w = 0 := by
  have hprod : (t / 100 * (p / 100) : ℚ) = 0 := by
    rcases h with rfl | rfl <;> simp
  simp [shareCents, proportionOf, hprod]

/-- Total and part may change places. -/
theorem shareCents_comm (t p w : ℕ) : shareCents t p w = shareCents p t w := by
  rw [shareCents, shareCents, proportionOf, proportionOf, mul_comm (t / 100 : ℚ)]

/-- **Monotonicity.** A larger total does not have a smaller share, as none of the three roundings
changes an order. -/
theorem shareCents_mono {t t' : ℕ} (h : t ≤ t') (p w : ℕ) :
    shareCents t p w ≤ shareCents t' p w := by
  have hproduct : Precision.exact.nearest (t / 100 * (p / 100)) ≤
      Precision.exact.nearest (t' / 100 * (p / 100)) := by
    have htotal : (t : ℚ) ≤ t' := by exact_mod_cast h
    exact Precision.nearest_mono (by decide) (by positivity) (by gcongr)
  have hquotient : proportionOf t p w ≤ proportionOf t' p w :=
    Precision.nearest_mono (by decide) (div_nonneg (Precision.nearest_nonneg ..) (by positivity))
      (div_le_div_of_nonneg_right hproduct (by positivity))
  exact Rounding.halfUp.nearest_mono (mul_nonneg (Precision.nearest_nonneg ..) (by norm_num))
    (by linarith)

/-- The share that is computed is the one that `shareCents` counts, of a whole that is not zero. -/
theorem shareOfTotal_of_ok (h : shareOfTotal code total part whole = .ok m) :
    0 < whole.cents ∧ m.currency = total.currency ∧
      m.cents = shareCents total.cents part.cents whole.cents := by
  rw [shareOfTotal] at h
  simp only [bind_eq_ok_iff, Money.requireCurrency_eq_ok_iff, exists_const] at h
  obtain ⟨-, -, -, h⟩ := h
  split_ifs at h with hwhole hzero
  · -- a total or a part of nothing
    cases h
    rw [Bool.or_eq_true, Money.isZero_iff, Money.isZero_iff] at hzero
    have hpos := Money.isZero_eq_false_iff.1 (Bool.eq_false_of_not_eq_true hwhole)
    exact ⟨hpos, rfl, (shareCents_eq_zero hzero _).symm⟩
  · have hpos := Money.isZero_eq_false_iff.1 (Bool.eq_false_of_not_eq_true hwhole)
    obtain ⟨x, hx, h⟩ := bind_eq_ok_iff.1 h
    obtain ⟨x', hx', -, hmag⟩ := exists_proportion total part hpos
    obtain rfl : x = x' := Except.ok.inj (hx.symm.trans hx')
    exact ⟨hpos, Money.currency_ofDecimal h, by rw [Money.cents_ofDecimal h, hmag, shareCents]⟩

/-- Of amounts in one currency and a whole that is not zero, a share is the proportion made money, or
nothing where the total or the part is nothing. -/
private theorem exists_shareOfTotal_eq (htotal : total.currency.code = code)
    (hpart : part.currency.code = code) (hcode : whole.currency.code = code)
    (hwhole : 0 < whole.cents) :
    ∃ x, x.negative = false ∧
      x.magnitude = proportionOf total.cents part.cents whole.cents ∧
      shareOfTotal code total part whole =
        if total.isZero || part.isZero then .ok (.zero total.currency)
        else Money.ofDecimal total.currency x := by
  obtain ⟨x, hx, hneg, hmag⟩ := exists_proportion total part hwhole
  refine ⟨x, hneg, hmag, ?_⟩
  rw [shareOfTotal, Money.requireCurrency, Money.requireCurrency, Money.requireCurrency,
    if_pos htotal, if_pos hpart, if_pos hcode, Money.isZero_eq_false_iff.2 hwhole, hx]
  rfl

/-- **Shares.** Amounts of one currency have a share of a whole that is not zero if its number of
cents is in range. -/
theorem shareOfTotal_eq_ok_iff (hpart : part.currency = total.currency)
    (hcur : whole.currency = total.currency) (hwhole : 0 < whole.cents) :
    shareOfTotal total.currency.code total part whole = .ok m ↔
      m.currency = total.currency ∧ m.cents = shareCents total.cents part.cents whole.cents := by
  constructor
  · intro h
    exact (shareOfTotal_of_ok h).2
  · rintro ⟨hmcur, hcents⟩
    obtain ⟨x, hneg, hmag, heq⟩ :=
      exists_shareOfTotal_eq rfl (congrArg _ hpart) (congrArg _ hcur) hwhole
    have hround : Rounding.halfUp.nearest (x.magnitude * 100) = m.cents := by
      rw [hmag, hcents, shareCents]
    obtain ⟨m', hm'⟩ := Money.exists_ofDecimal (c := total.currency) hneg (hround ▸ m.lt_bound)
    obtain rfl : m' = m := Money.ext_cents ((Money.currency_ofDecimal hm').trans hmcur.symm)
      ((Money.cents_ofDecimal hm').trans hround)
    rw [heq]
    split_ifs with hzero
    · -- a total or a part of nothing
      rw [Bool.or_eq_true, Money.isZero_iff, Money.isZero_iff] at hzero
      exact congrArg _ (Money.ext_cents hmcur.symm (hcents.trans (shareCents_eq_zero hzero _)).symm)
    · exact hm'

/-- Only the range stops a share of a whole that is not zero, all in one currency. -/
theorem returns_shareOfTotal (htotal : total.currency.code = code)
    (hpart : part.currency.code = code) (hcode : whole.currency.code = code)
    (hwhole : 0 < whole.cents) :
    Returns (shareOfTotal code total part whole) fun m =>
      shareOfTotal code total part whole = .ok m := by
  refine Returns.eq_ok ?_
  obtain ⟨x, hneg, -, heq⟩ := exists_shareOfTotal_eq htotal hpart hcode hwhole
  rw [heq]
  split_ifs
  · exact .ok trivial
  · exact (Money.returns_ofDecimal hneg).mono fun _ _ => trivial

/-- The share in a total of nothing is nothing. -/
theorem shareOfTotal_of_zero (htotal : total.currency.code = code)
    (hpart : part.currency.code = code) (hcode : whole.currency.code = code)
    (hwhole : 0 < whole.cents) (hzero : total.cents = 0) :
    shareOfTotal code total part whole = .ok (.zero total.currency) := by
  obtain ⟨x, -, -, heq⟩ := exists_shareOfTotal_eq htotal hpart hcode hwhole
  rw [heq, (Money.isZero_iff total).2 hzero, Bool.true_or, if_pos rfl]

/-! ### Bounds -/

/-- A product of amounts errs by a part of `10 ^ -27` at most. -/
theorem abs_product_sub_le {t p : ℕ} (ht : 0 < t) (hp : 0 < p) :
    |Precision.exact.nearest (t / 100 * (p / 100)) - t / 100 * (p / 100)| ≤
      t / 100 * (p / 100) * 10 ^ (-27 : ℤ) / 2 := by
  refine Precision.exact.abs_nearest_sub_le_mul ?_
  have hone : (1 : ℚ) ≤ t * p := by exact_mod_cast Nat.mul_pos ht hp
  calc (10 : ℚ) ^ (-maxExponent) ≤ 10 ^ (-4 : ℤ) := zpow_le_zpow_right₀ (by norm_num) (by decide)
    _ = 1 / 10000 := by norm_num
    _ ≤ t * p / 10000 := div_le_div_of_nonneg_right hone (by norm_num)
    _ = t / 100 * (p / 100) := by ring

/-- The share of a whole is hardly more than the total before it is rounded to ten digits. -/
private theorem quotient_le {t p w : ℕ} (hw : 0 < w) (hpw : p ≤ w) (ht : t ≤ 9 * 10 ^ 27) :
    Precision.exact.nearest (t / 100 * (p / 100)) / (w / 100) ≤ 95 * 10 ^ (24 : ℤ) := by
  rcases Nat.eq_zero_or_pos (t * p) with hzero | hpos
  · have hprod : (t / 100 * (p / 100) : ℚ) = 0 := by
      rcases Nat.mul_eq_zero.1 hzero with h | h <;> simp [h]
    rw [hprod, Precision.nearest_zero, zero_div]
    positivity
  have hw' : (0 : ℚ) < w := by exact_mod_cast hw
  have ht' : (t / 100 : ℚ) ≤ 9 * 10 ^ 25 := by
    have h : (t : ℚ) ≤ 9 * 10 ^ 27 := by exact_mod_cast ht
    linarith
  have hpw' : (p / 100 : ℚ) ≤ w / 100 := by
    have h : (p : ℚ) ≤ w := by exact_mod_cast hpw
    linarith
  have herr := (abs_le.1 (abs_product_sub_le (Nat.pos_of_mul_pos_right hpos)
    (Nat.pos_of_mul_pos_left hpos))).2
  have hprod : (t / 100 * (p / 100) : ℚ) ≤ 9 * 10 ^ 25 * (w / 100) :=
    mul_le_mul ht' hpw' (by positivity) (by norm_num)
  rw [div_le_iff₀ (by positivity)]
  norm_num at herr hprod ⊢
  linarith

/-- **Upper bound.** The share that a part has of a whole stays in range if the total is at most
nine tenths of the bound. -/
theorem shareCents_lt_bound {t p w : ℕ} (hw : 0 < w) (hpw : p ≤ w) (ht : t ≤ 9 * 10 ^ 27) :
    shareCents t p w < Money.bound := by
  have hrep : Precision.working.Represents (95 * 10 ^ (24 : ℤ)) :=
    ⟨95, 24, by decide, by decide, rfl⟩
  have hquot : proportionOf t p w ≤ 95 * 10 ^ (24 : ℤ) :=
    Precision.nearest_le (by decide) (div_nonneg (Precision.nearest_nonneg ..) (by positivity)) hrep
      (quotient_le hw hpw ht)
  have hcents : shareCents t p w ≤ 95 * 10 ^ 26 := by
    refine Rounding.halfUp.nearest_le_of_le
      (mul_nonneg (Precision.nearest_nonneg ..) (by norm_num)) ?_
    calc proportionOf t p w * 100 ≤ 95 * 10 ^ (24 : ℤ) * 100 := by linarith
      _ = ((95 * 10 ^ 26 : ℕ) : ℚ) := by norm_num
  exact hcents.trans_lt (by decide)

/-- **Lower bound.** When the total covers the whole, a part with ten significant digits is covered
by its share. The product errs by less than what a quotient of ten digits makes up for. -/
theorem le_shareCents {t p w m k : ℕ} (hw : 0 < w) (hwt : w ≤ t) (hm : m ≤ 10 ^ 10)
    (hp : p = m * 10 ^ k) : p ≤ shareCents t p w := by
  rcases Nat.eq_zero_or_pos p with hzero | hpos
  · omega
  have hw' : (0 : ℚ) < w := by exact_mod_cast hw
  have hproduct : (w / 100 * (p / 100) : ℚ) * (1 - 10 ^ (-27 : ℤ) / 2) ≤
      Precision.exact.nearest (t / 100 * (p / 100)) := by
    have herr := (abs_le.1 (abs_product_sub_le hw hpos)).1
    have hmono : Precision.exact.nearest (w / 100 * (p / 100)) ≤
        Precision.exact.nearest (t / 100 * (p / 100)) := by
      have hwt' : (w : ℚ) ≤ t := by exact_mod_cast hwt
      exact Precision.nearest_mono (by decide) (by positivity) (by gcongr)
    linarith
  -- the quotient may miss the part by the error of the product
  set y : ℚ := Precision.exact.nearest (t / 100 * (p / 100)) / (w / 100) with hy
  have hquot : (p / 100 : ℚ) * (1 - 10 ^ (-27 : ℤ) / 2) ≤ y := by
    rw [hy, le_div_iff₀ (by positivity)]
    linarith
  have hp' : (0 : ℚ) < p / 100 := by positivity
  have hypos : 0 < y := by
    refine lt_of_lt_of_le (mul_pos hp' ?_) hquot
    norm_num
  have hslack : (p / 100 : ℚ) ≤ y * (1 + 10 ^ (-((Precision.working.digits : ℕ) : ℤ)) / 2) := by
    have hdigits : (10 : ℚ) ^ (-((Precision.working.digits : ℕ) : ℤ)) = 1 / 10 ^ 10 := by
      norm_num [Precision.working]
    have h27 : (10 : ℚ) ^ (-27 : ℤ) = 1 / 10 ^ 27 := by norm_num
    rw [h27] at hquot
    rw [hdigits]
    linarith
  -- what it misses is less than half a unit of its tenth digit, and the part has no more digits
  have hrep : Precision.working.Represents (p / 100) := by
    refine ⟨m, (k : ℤ) - 2, hm, ?_, ?_⟩
    · have hleast : Precision.working.leastExponent ≤ -2 := by decide
      omega
    · rw [hp, zpow_sub₀ (by norm_num), zpow_natCast]
      push_cast
      ring
  have hworking : (p / 100 : ℚ) ≤ proportionOf t p w :=
    Precision.le_nearest_of_le_mul (by decide) hypos hrep hslack
  exact Rounding.halfUp.le_nearest_of_le (by linarith)

end Settlement
