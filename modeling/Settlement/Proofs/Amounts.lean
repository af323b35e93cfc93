import Settlement.Allocation.Cap
import Settlement.Proofs.Magnitude
import Settlement.Proofs.Tables

/-!
# What operations on money yield

Each operation on money is described by its cents. Those that return exactly where amounts stay
below `Money.bound` have an equivalence (`plus_eq_ok_iff`, `sum_eq_ok_iff`), and next to it the fact
that nothing but the range stops them (`returns_plus`, `returns_sum`). A decimal amounts to its
nearest number of cents (`cents_ofDecimal`, `exists_ofDecimal`).
-/

namespace Settlement

/-- The code of a currency is read as that currency. -/
theorem Currency.ofCode_code (c : Currency) : ofCode c.code = .ok c := by
  rw [ofCode, dif_pos c.valid]

theorem Currency.ofCode_eq_ok_iff {code : String} {c : Currency} :
    ofCode code = .ok c ↔ c.code = code := by
  constructor
  · intro h
    rw [ofCode] at h
    split_ifs at h
    cases h
    rfl
  · rintro rfl
    exact ofCode_code c

/-- A currency is read off its code, and off no other value. -/
theorem Currency.ofValue_eq_ok_iff {v : Value} {c : Currency} :
    ofValue v = .ok c ↔ v = .text c.code := by
  cases v with
  | text code => rw [ofValue, ofCode_eq_ok_iff, Value.text.injEq, eq_comm]
  | _ => simp [ofValue]

/-- Any other value is refused as a currency code. -/
theorem Currency.ofValue_eq_error_iff {v : Value} {f : Fault} :
    ofValue v = .error f ↔ (∀ c : Currency, v ≠ .text c.code) ∧ f = .currencyCode v := by
  have hrefused : (∃ e, ofValue v = .error e) ↔ ∀ c : Currency, v ≠ .text c.code := by
    simp only [exists_error_iff, ofValue_eq_ok_iff, not_exists, ne_eq]
  rw [← hrefused]
  have hcode : ∀ e, ofValue v = .error e → e = .currencyCode v := by
    intro e h
    cases v with
    | text code =>
      rw [ofValue, ofCode] at h
      split_ifs at h
      cases h
      rfl
    | _ =>
      cases h
      rfl
  constructor
  · exact fun h => ⟨⟨f, h⟩, hcode f h⟩
  · rintro ⟨⟨e, he⟩, rfl⟩
    rw [he, hcode e he]

/-! ### Amounts as numerals -/

/-- A number of hundredths is what its name says. -/
theorem Decimal.magnitude_ofHundredths (n : ℤ) : (ofHundredths n).magnitude = n.natAbs / 100 := by
  rw [magnitude, ofHundredths, zpow_neg]
  norm_num [div_eq_mul_inv]

namespace Money

@[simp] theorem negative_amount (m : Money) : m.amount.negative = false := by
  simp [amount, Decimal.ofHundredths]

@[simp] theorem coefficient_amount (m : Money) : m.amount.coefficient = m.cents := by
  simp [amount, Decimal.ofHundredths]

/-- An amount counts its cents in hundredths. -/
theorem magnitude_amount (m : Money) : m.amount.magnitude = m.cents / 100 :=
  Decimal.magnitude_ofHundredths m.cents

theorem value_amount (m : Money) : m.amount.value = m.cents / 100 := by
  rw [Decimal.value, negative_amount, if_neg Bool.false_ne_true, magnitude_amount]

theorem magnitude_amount_le (m : Money) : m.amount.magnitude ≤ 10 ^ (26 : ℤ) := by
  have h : (m.cents : ℚ) ≤ 10 ^ 28 := by exact_mod_cast m.lt_bound.le
  rw [magnitude_amount, div_le_iff₀ (by norm_num)]
  exact h.trans (by norm_num)

/-- Numbers below a power of ten in range are in range. -/
theorem cast_le_zpow_maxExponent {n k : ℕ} (h : n ≤ pow10 k) (hk : (k : ℤ) ≤ maxExponent) :
    (n : ℚ) ≤ 10 ^ maxExponent :=
  calc (n : ℚ) ≤ (pow10 k : ℕ) := by exact_mod_cast h
    _ = 10 ^ (k : ℤ) := by rw [cast_pow10, zpow_natCast]
    _ ≤ 10 ^ maxExponent := zpow_le_zpow_right₀ (by norm_num) hk

end Money

namespace Decimal

/-- The numeral in hundredths, as the quotient that is rounded. -/
private theorem magnitude_mul_hundred (x : Decimal) :
    x.magnitude * 100 = (x.coefficient * pow10 (x.exponent + 2).toNat : ℕ) /
      (pow10 (-(x.exponent + 2)).toNat : ℕ) := by
  have hexp : (10 : ℚ) ^ x.exponent * 100 = 10 ^ (x.exponent + 2) := by
    rw [zpow_add₀ (by norm_num)]
    norm_num
  have hsplit : (10 : ℚ) ^ (x.exponent + 2) =
      10 ^ (x.exponent + 2).toNat / 10 ^ (-(x.exponent + 2)).toNat := by
    rw [← zpow_natCast, ← zpow_natCast, ← zpow_sub₀ (by norm_num)]
    congr 1
    omega
  rw [magnitude, mul_assoc, hexp, hsplit]
  push_cast
  rw [cast_pow10, cast_pow10, mul_div_assoc]

/-- **Hundredths.** The number of hundredths is the nearest one, if it has few enough digits. -/
theorem hundredths?_eq (digits : ℕ) (x : Decimal) :
    x.hundredths? digits =
      if Rounding.halfUp.nearest (x.magnitude * 100) < 10 ^ digits then
        some (Rounding.halfUp.nearest (x.magnitude * 100))
      else none := by
  rw [hundredths?]
  rcases Nat.eq_zero_or_pos x.coefficient with hzero | hpos
  · have hmag : x.magnitude * 100 = 0 := by simp [magnitude, hzero]
    rw [if_pos (by simp [isZero, hzero]), hmag, Rounding.nearest_zero, if_pos (by positivity)]
  rw [if_neg (by simp [isZero, hpos.ne'])]
  have hlow := zpow_leading_le hpos
  have hhigh := lt_zpow_leading x
  by_cases hlarge : (digits : ℤ) ≤ x.leading + 2
  · -- the leading digit alone takes too many digits
    have hpow : ((10 ^ digits : ℕ) : ℚ) ≤ x.magnitude * 100 :=
      calc ((10 ^ digits : ℕ) : ℚ) = (10 : ℚ) ^ (digits : ℤ) := by push_cast; rw [zpow_natCast]
        _ ≤ 10 ^ (x.leading + 2) := zpow_le_zpow_right₀ (by norm_num) hlarge
        _ = 10 ^ x.leading * 100 := by rw [zpow_add₀ (by norm_num)]; norm_num
        _ ≤ x.magnitude * 100 := by linarith
    rw [if_pos hlarge, if_neg (Rounding.halfUp.le_nearest_of_le hpow).not_gt]
  rw [if_neg hlarge]
  by_cases hsmall : x.leading < -3
  · -- far below a hundredth there is nothing to round up
    have htiny : x.magnitude * 100 < 1 / 2 :=
      calc x.magnitude * 100 < 10 ^ (x.leading + 1) * 100 := by linarith
        _ ≤ 10 ^ (-3 : ℤ) * 100 := by
            have hpow : (10 : ℚ) ^ (x.leading + 1) ≤ 10 ^ (-3 : ℤ) :=
              zpow_le_zpow_right₀ (by norm_num) (by omega)
            linarith
        _ < 1 / 2 := by norm_num
    have hround := Rounding.halfUp.nearest_sub_half_le (x := x.magnitude * 100)
      (mul_nonneg x.magnitude_nonneg (by norm_num))
    have hzero : (Rounding.halfUp.nearest (x.magnitude * 100) : ℚ) < 1 := by linarith
    have hnone : Rounding.halfUp.nearest (x.magnitude * 100) = 0 :=
      Nat.lt_one_iff.1 (by exact_mod_cast hzero)
    rw [if_pos hsmall, hnone, if_pos (by positivity)]
  · rw [if_neg hsmall, Rounding.quotient_eq_nearest _ _ (pow10_pos _), ← magnitude_mul_hundred]
    rfl

end Decimal

namespace Money

variable {a b m : Money} {c : Currency} {x : Decimal} {n : ℕ} {l : List Money} {context : String}

private theorem bound_eq : bound = 10 ^ digits := rfl

theorem isZero_eq_false_iff : m.isZero = false ↔ 0 < m.cents := by
  rw [← Bool.not_eq_true, isZero_iff, Nat.pos_iff_ne_zero]

/-- **Decimals, backwards.** Money from a decimal is its nearest number of cents. -/
theorem cents_ofDecimal (h : ofDecimal c x = .ok m) :
    m.cents = Rounding.halfUp.nearest (x.magnitude * 100) := by
  rw [ofDecimal] at h
  split at h
  · cases h
  · rename_i n hn
    split at h
    · cases h
    · cases h
      rw [Decimal.hundredths?_eq] at hn
      split_ifs at hn
      exact (Option.some.inj hn).symm

/-- **Decimals.** A decimal is the money of its nearest number of cents; one below zero must be
rounded to nothing. -/
theorem ofDecimal_eq_ok_iff :
    ofDecimal c x = .ok m ↔ m.currency = c ∧
      m.cents = Rounding.halfUp.nearest (x.magnitude * 100) ∧
      (x.negative = true → m.cents = 0) := by
  constructor
  · intro h
    refine ⟨currency_ofDecimal h, cents_ofDecimal h, fun hneg => ?_⟩
    rw [ofDecimal] at h
    split at h
    · cases h
    · split_ifs at h with hzero
      cases h
      simpa [hneg] using hzero
  · rintro ⟨rfl, hcents, hneg⟩
    have hlt := m.lt_bound
    have hround := Decimal.hundredths?_eq digits x
    rw [← hcents, if_pos (bound_eq ▸ hlt)] at hround
    rw [ofDecimal]
    split
    · rename_i hnone
      cases hnone.symm.trans hround
    · rename_i n hn
      obtain rfl : n = m.cents := Option.some.inj (hn.symm.trans hround)
      have hkept : ¬ (x.negative && m.cents != 0) = true := by
        intro hboth
        rw [Bool.and_eq_true] at hboth
        simp [hneg hboth.1] at hboth
      rw [if_neg hkept]

/-- Money is the money of its amount. -/
theorem ofDecimal_amount (m : Money) : ofDecimal m.currency m.amount = .ok m := by
  refine ofDecimal_eq_ok_iff.2 ⟨rfl, ?_, by simp⟩
  rw [magnitude_amount, div_mul_cancel₀ _ (by norm_num), Rounding.nearest_natCast]

/-- **Decimals, forwards.** A decimal that is not negative amounts to its nearest number of cents,
if that is in range. -/
theorem exists_ofDecimal (hx : x.negative = false)
    (h : Rounding.halfUp.nearest (x.magnitude * 100) < bound) : ∃ m, ofDecimal c x = .ok m :=
  ⟨⟨c, _, h⟩, ofDecimal_eq_ok_iff.2 ⟨rfl, rfl, fun hneg => absurd (hx.symm.trans hneg) (by decide)⟩⟩

/-- A decimal beyond the bound is out of range. -/
theorem ofDecimal_eq_error (h : bound ≤ Rounding.halfUp.nearest (x.magnitude * 100)) :
    ofDecimal c x = .error (.amountOutOfRange x) := by
  have hround := Decimal.hundredths?_eq digits x
  rw [if_neg (bound_eq ▸ not_lt.2 h)] at hround
  rw [ofDecimal]
  split
  · rfl
  · rename_i hsome
    cases hsome.symm.trans hround

/-- A decimal that is not negative is money, or it is out of range. -/
theorem ofDecimal_cases (c : Currency) (hx : x.negative = false) :
    (∃ m, ofDecimal c x = .ok m) ∨ (∃ y, ofDecimal c x = .error (.amountOutOfRange y)) ∧
      bound ≤ Rounding.halfUp.nearest (x.magnitude * 100) := by
  rcases lt_or_ge (Rounding.halfUp.nearest (x.magnitude * 100)) bound with hlt | hge
  · exact .inl (exists_ofDecimal hx hlt)
  · exact .inr ⟨⟨x, ofDecimal_eq_error hge⟩, hge⟩

/-- Only the range stops a decimal that is not negative from being money. -/
theorem returns_ofDecimal (hx : x.negative = false) :
    Returns (ofDecimal c x) fun m => ofDecimal c x = .ok m := by
  intro hr
  rcases ofDecimal_cases c hx with ⟨m, hm⟩ | ⟨⟨y, hy⟩, -⟩
  · exact ⟨m, hm, hm⟩
  · exact absurd hy (hr y)

/-! ### Sums, differences and multiples -/

theorem requireCurrency_eq_ok_iff {code : String} {u : Unit} :
    m.requireCurrency code context = .ok u ↔ m.currency.code = code := by
  rw [requireCurrency]
  split_ifs with h <;> simp [h]

private theorem requireSameCurrency_eq_ok_iff {u : Unit} :
    requireSameCurrency a b = .ok u ↔ a.currency = b.currency := by
  rw [requireSameCurrency]
  split_ifs with h <;> simp [h]

/-- Two amounts of one currency pass. -/
theorem requireSameCurrency_bind {β : Type} (hcur : a.currency = b.currency)
    (f : Unit → Except Fault β) : (requireSameCurrency a b >>= f) = f () := by
  rw [requireSameCurrency, if_pos hcur]
  rfl

/-- Numbers of cents within the range of exponents are refused only for being out of the range of
money. -/
theorem returns_ofCents (h : (n : ℚ) ≤ 10 ^ maxExponent) :
    Returns (ofCents c n) fun m => m.currency = c ∧ m.cents = n := by
  intro hr
  by_cases hlt : n < bound
  · exact ⟨⟨c, n, hlt⟩, ofCents_of_lt hlt, rfl, rfl⟩
  · have hmag : (Decimal.ofHundredths n).magnitude ≤ 10 ^ maxExponent :=
      calc (Decimal.ofHundredths n).magnitude = n / 100 := Decimal.magnitude_ofHundredths n
        _ ≤ n := div_le_self (Nat.cast_nonneg n) (by norm_num)
        _ ≤ 10 ^ maxExponent := h
    obtain ⟨y, hy, -⟩ := Precision.exists_fit (p := .exact) (by decide) hmag
    refine absurd ?_ (hr y)
    rw [ofCents, dif_neg hlt, hy]

theorem plus_eq_ok_iff :
    a.plus b = .ok m ↔
      a.currency = b.currency ∧ m.currency = a.currency ∧ m.cents = a.cents + b.cents := by
  rw [plus, bind_eq_ok_iff]
  simp only [requireSameCurrency_eq_ok_iff, ofCents_eq_ok_iff, exists_and_left, exists_const]

/-- Only the range stops a sum of two amounts of one currency. -/
theorem returns_plus (h : a.currency = b.currency) :
    Returns (a.plus b) fun m => a.plus b = .ok m := by
  have hsum : a.cents + b.cents ≤ pow10 29 := by
    have ha := a.lt_bound
    have hb := b.lt_bound
    have hpow : pow10 29 = bound * 10 := by decide
    omega
  rw [plus, requireSameCurrency_bind h]
  exact (returns_ofCents (cast_le_zpow_maxExponent hsum (by decide))).mono fun m hm =>
    ofCents_eq_ok_iff.2 hm

/-- A sum that reaches the bound is out of range. -/
theorem plus_eq_error (hcur : a.currency = b.currency) (h : bound ≤ a.cents + b.cents) :
    ∃ x, a.plus b = .error (.amountOutOfRange x) := by
  rw [← not_inRange_iff]
  intro hr
  obtain ⟨m, -, hm⟩ := returns_plus hcur hr
  have := (plus_eq_ok_iff.1 hm).2.2
  have := m.lt_bound
  omega

theorem minus_eq_ok_iff :
    a.minus b = .ok m ↔ a.currency = b.currency ∧ b.cents ≤ a.cents ∧
      m.currency = a.currency ∧ m.cents + b.cents = a.cents := by
  rw [minus, bind_eq_ok_iff]
  simp only [requireSameCurrency_eq_ok_iff, exists_and_left, exists_const]
  refine and_congr_right fun _ => ?_
  split_ifs with hlt
  · constructor
    · intro h; cases h
    · rintro ⟨hle, -⟩; omega
  · constructor
    · intro h
      cases h
      exact ⟨not_lt.1 hlt, rfl, Nat.sub_add_cancel (not_lt.1 hlt)⟩
    · rintro ⟨hle, hcur, hcents⟩
      exact congrArg _ (ext_cents hcur.symm (by dsimp only; omega))

/-- A difference that is not negative exists. -/
theorem exists_minus (hcur : a.currency = b.currency) (hle : b.cents ≤ a.cents) :
    ∃ m, a.minus b = .ok m :=
  ⟨⟨a.currency, a.cents - b.cents, by have := a.lt_bound; omega⟩,
    minus_eq_ok_iff.2 ⟨hcur, hle, rfl, Nat.sub_add_cancel hle⟩⟩

theorem times_eq_ok_iff : a.times n = .ok m ↔ m.currency = a.currency ∧ m.cents = a.cents * n :=
  ofCents_eq_ok_iff

/-- A price in range exists. -/
theorem exists_times (h : a.cents * n < bound) : ∃ m, a.times n = .ok m :=
  ⟨⟨a.currency, a.cents * n, h⟩, times_eq_ok_iff.2 ⟨rfl, rfl⟩⟩

/-- Only the range stops the price of a quantity that has not too many digits. -/
theorem returns_times {k : ℕ} (hk : k ≤ 10 ^ 5) (h : n ≤ pow10 k) :
    Returns (a.times n) fun m => a.times n = .ok m := by
  have hprod : a.cents * n ≤ pow10 (digits + k) := by
    rw [pow10_add]
    exact Nat.mul_le_mul a.lt_bound.le h
  have hexp : ((digits + k : ℕ) : ℤ) ≤ maxExponent := by
    rw [digits, maxExponent]
    omega
  exact (returns_ofCents (cast_le_zpow_maxExponent hprod hexp)).mono fun _ hm =>
    times_eq_ok_iff.2 hm

theorem compare_eq_ok_iff {o : Ordering} :
    a.compare b = .ok o ↔ a.currency = b.currency ∧ Ord.compare a.cents b.cents = o := by
  rw [compare, bind_eq_ok_iff]
  simp only [requireSameCurrency_eq_ok_iff, exists_and_left, exists_const, Except.ok.injEq]

/-- The smaller of two amounts has the smaller number of cents. -/
theorem min_eq_ok_iff :
    a.min b = .ok m ↔
      a.currency = b.currency ∧ m.currency = a.currency ∧ m.cents = Min.min a.cents b.cents := by
  rw [min, bind_eq_ok_iff]
  simp only [compare_eq_ok_iff, and_assoc, exists_and_left]
  refine and_congr_right fun hcur => ?_
  rw [exists_eq_left']
  rcases le_or_gt a.cents b.cents with hle | hgt
  · have hcmp : (Ord.compare a.cents b.cents).isGT = false := by
      rw [← Bool.not_eq_true, Ordering.isGT_iff_eq_gt, Nat.compare_eq_gt]
      exact not_lt.2 hle
    rw [hcmp, min_eq_left hle]
    constructor
    · intro h
      cases h
      exact ⟨rfl, rfl⟩
    · rintro ⟨hm, hcents⟩
      exact congrArg _ (ext_cents hm.symm hcents.symm)
  · have hcmp : (Ord.compare a.cents b.cents).isGT = true := by
      rw [Ordering.isGT_iff_eq_gt, Nat.compare_eq_gt]
      exact hgt
    rw [hcmp, min_eq_right hgt.le]
    constructor
    · intro h
      cases h
      exact ⟨hcur.symm, rfl⟩
    · rintro ⟨hm, hcents⟩
      exact congrArg _ (ext_cents (hcur.symm.trans hm.symm) hcents.symm)

/-- Two amounts of one currency have a smaller one. -/
theorem exists_min (hcur : a.currency = b.currency) : ∃ m, a.min b = .ok m := by
  rcases le_total a.cents b.cents with hle | hle
  · exact ⟨a, min_eq_ok_iff.2 ⟨hcur, rfl, (min_eq_left hle).symm⟩⟩
  · exact ⟨b, min_eq_ok_iff.2 ⟨hcur, hcur.symm, (min_eq_right hle).symm⟩⟩

theorem heldTo_given (a b : Money) : a.heldTo (.given b) = a.min b := rfl

/-- An amount is within a cap of its currency if it is at most the cap. -/
theorem isWithin_given (hcur : a.currency = b.currency) :
    a.isWithin (.given b) = .ok (decide (a.cents ≤ b.cents)) := by
  have hcmp : a.compare b = .ok (Ord.compare a.cents b.cents) := compare_eq_ok_iff.2 ⟨hcur, rfl⟩
  have hle : (Ord.compare a.cents b.cents).isLE = decide (a.cents ≤ b.cents) := by
    rw [Bool.eq_iff_iff, Nat.isLE_compare, decide_eq_true_iff]
  rw [isWithin, Given.money, Given.require]
  change (a.atMost b) = _
  rw [atMost, hcmp, ← hle]
  rfl

/-! ### Sums of lists -/

private theorem addAll_eq_ok_iff :
    addAll context a l = .ok m ↔ (∀ x ∈ l, x.currency = a.currency) ∧ m.currency = a.currency ∧
      m.cents = a.cents + (l.map cents).sum := by
  induction l generalizing a with
  | nil =>
    simp only [addAll, List.not_mem_nil, false_imp_iff, implies_true, true_and, List.map_nil,
      List.sum_nil, Nat.add_zero]
    constructor
    · intro h
      cases h
      exact ⟨rfl, rfl⟩
    · rintro ⟨hcur, hcents⟩
      exact congrArg _ (ext_cents hcur.symm hcents.symm)
  | cons x l ih =>
    rw [addAll]
    simp only [bind_eq_ok_iff, requireCurrency_eq_ok_iff, exists_const]
    constructor
    · -- the amount that is handed on carries the currency and the sum so far
      rintro ⟨hx, b, hb, h⟩
      obtain ⟨-, hcur, hcents⟩ := plus_eq_ok_iff.1 hb
      obtain ⟨hall, hm, hsum⟩ := ih.1 h
      rw [hcur] at hall hm
      refine ⟨?_, hm, ?_⟩
      · rintro y (_ | ⟨_, hy⟩)
        · exact currency_eq_of_code_eq hx
        · exact hall y hy
      · rw [hsum, hcents, List.map_cons, List.sum_cons, Nat.add_assoc]
    · rintro ⟨hall, hm, hsum⟩
      have hx : x.currency = a.currency := hall x List.mem_cons_self
      rw [List.map_cons, List.sum_cons, ← Nat.add_assoc] at hsum
      -- no partial sum is above the last one, which is an amount of money
      have hlt : a.cents + x.cents < bound := by
        have := m.lt_bound
        omega
      refine ⟨congrArg _ hx, ⟨a.currency, a.cents + x.cents, hlt⟩,
        plus_eq_ok_iff.2 ⟨hx.symm, rfl, rfl⟩, ih.2 ⟨?_, hm, hsum⟩⟩
      exact fun y hy => hall y (List.mem_cons_of_mem x hy)

/-- **Sums.** Amounts of one currency whose cents add up to fewer than the bound have a sum. -/
theorem sum_eq_ok_iff :
    sum c context l = .ok m ↔
      (∀ x ∈ l, x.currency = c) ∧ m.currency = c ∧ m.cents = (l.map cents).sum := by
  rw [sum, addAll_eq_ok_iff, currency_zero, cents_zero, Nat.zero_add]

private theorem returns_addAll (h : ∀ x ∈ l, x.currency = a.currency) :
    Returns (addAll context a l) fun m => addAll context a l = .ok m := by
  refine Returns.eq_ok ?_
  induction l generalizing a with
  | nil => exact .ok trivial
  | cons x l ih =>
    have hx : x.currency = a.currency := h x List.mem_cons_self
    rw [addAll, requireCurrency, if_pos (congrArg Currency.code hx)]
    refine (returns_plus hx.symm).bind fun b hb => ?_
    have hcur := (plus_eq_ok_iff.1 hb).2.1
    exact ih fun y hy => (h y (List.mem_cons_of_mem x hy)).trans hcur.symm

/-- Only the range stops a sum of amounts of one currency. -/
theorem returns_sum (h : ∀ x ∈ l, x.currency = c) :
    Returns (sum c context l) fun m => sum c context l = .ok m :=
  returns_addAll h

/-! ### Sums of tables -/

variable {t : Table Money}

/-- The sum of a table in one currency. -/
theorem sum_values_eq_ok_iff (h : t.InCurrency c) :
    sum c context t.values = .ok m ↔ m.currency = c ∧ m.cents = t.cents := by
  rw [sum_eq_ok_iff]
  exact and_iff_right (Table.inCurrency_iff.1 h)

/-- A table in one currency has a sum if the sum is in range. -/
theorem exists_sum_values (context : String) (h : t.InCurrency c) (hlt : t.cents < bound) :
    ∃ m, sum c context t.values = .ok m :=
  ⟨⟨c, t.cents, hlt⟩, (sum_values_eq_ok_iff h).2 ⟨rfl, rfl⟩⟩

/-- Only the range stops the sum of a table in one currency. -/
theorem returns_sum_values (h : t.InCurrency c) :
    Returns (sum c context t.values) fun m => sum c context t.values = .ok m :=
  returns_sum (Table.inCurrency_iff.1 h)

/-- A table in one currency has a sum, or its sum is out of range. -/
theorem sum_values_cases (context : String) (h : t.InCurrency c) :
    (∃ m, sum c context t.values = .ok m) ∨
      (∃ x, sum c context t.values = .error (.amountOutOfRange x)) ∧ bound ≤ t.cents := by
  rcases lt_or_ge t.cents bound with hlt | hge
  · exact .inl (exists_sum_values context h hlt)
  · refine .inr ⟨not_inRange_iff.1 fun hr => ?_, hge⟩
    obtain ⟨m, -, hm⟩ := returns_sum_values h hr
    exact absurd m.lt_bound (not_lt.2 (((sum_values_eq_ok_iff h).1 hm).2 ▸ hge))

/-- An amount in euro, for examples. -/
def euro (cents : ℕ) (h : cents < bound) : Money := ⟨⟨"EUR", by decide⟩, cents, h⟩

end Money

end Settlement
