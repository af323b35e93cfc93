import Mathlib.Algebra.Order.Round
import Settlement.Proofs.Amounts

/-!
# Exact amounts

Money is counted in cents, so that sums, differences and multiples are those of whole numbers. The
same operations on the numerals of amounts have twenty-eight digits, and tie to even: near the bound
of money their results are rounded, and are then rounded to cents once more. The two ways are one
(`plus_eq_plusNumerals`, `minus_eq_minusNumerals`, `times_eq_timesNumerals`). A result of up to
twenty-eight digits is not rounded, and one of more digits stays beyond the bound when it is rounded,
so that it is refused.

Decimals become money by rounding to the nearest number of hundredths, a tie going away from zero
(`ofDecimal_eq_ok_iff_nearestHundredths`).
-/

namespace Settlement

/-! ### Decimals -/

/-- The number of hundredths nearest to a number, a tie going away from zero. -/
def nearestHundredths (x : ℚ) : ℤ := if 0 ≤ x then round (x * 100) else -round (-x * 100)

/-- Rounding with ties upward, of numbers that are not negative. -/
private theorem cast_nearest_halfUp {x : ℚ} (hx : 0 ≤ x) :
    (Rounding.halfUp.nearest x : ℤ) = round x := by
  rw [Rounding.nearest, round_eq]
  exact Int.natCast_floor_eq_floor (by linarith)

namespace Decimal

/-- The hundredths of a numeral are those of its magnitude, with its sign. -/
theorem nearestHundredths_value (x : Decimal) :
    nearestHundredths x.value =
      if x.negative then -(Rounding.halfUp.nearest (x.magnitude * 100) : ℤ)
      else Rounding.halfUp.nearest (x.magnitude * 100) := by
  have hmag := x.magnitude_nonneg
  rw [cast_nearest_halfUp (mul_nonneg hmag (by norm_num)), nearestHundredths, value]
  cases x.negative with
  | false => simp only [Bool.false_eq_true, if_false, if_pos hmag]
  | true =>
    simp only [if_true, neg_neg]
    split_ifs with hneg
    · -- only zero is not below zero
      have hzero : x.magnitude = 0 := by linarith
      simp [hzero]
    · rfl

/-- Hundredths that are not negative are written without a sign. -/
theorem ofHundredths_natCast (n : ℕ) : ofHundredths n = ⟨false, n, -2⟩ := by
  simp [ofHundredths]

theorem isZero_ofHundredths {n : ℤ} : (ofHundredths n).isZero = true ↔ n = 0 := by
  simp [isZero, ofHundredths]

theorem isNegative_ofHundredths {n : ℤ} : (ofHundredths n).isNegative = true ↔ n < 0 := by
  simp only [isNegative, ofHundredths, Bool.and_eq_true, decide_eq_true_eq, bne_iff_ne]
  omega

theorem neg_ofHundredths {n : ℤ} (hn : n ≠ 0) : (ofHundredths n).neg = ofHundredths (-n) := by
  rw [neg, ofHundredths, ofHundredths, Int.natAbs_neg]
  congr 1
  rw [← decide_not, decide_eq_decide]
  omega

theorem scaled_ofHundredths (n : ℤ) : (ofHundredths n).scaled (-2) = n := by
  rw [scaled, ofHundredths]
  simp only [sub_self, Int.toNat_zero, pow10_zero, Nat.mul_one, decide_eq_true_eq]
  split_ifs <;> omega

end Decimal

namespace Precision

/-- The sum of two decimals. -/
def add (p : Precision) (x y : Decimal) : Except Trap Decimal := p.subtract x y.neg

/-- A difference of hundredths is fitted. -/
theorem subtract_ofHundredths (p : Precision) (m n : ℤ) :
    p.subtract (.ofHundredths m) (.ofHundredths n) = p.fit (.ofHundredths (m - n)) := by
  rw [subtract]
  split_ifs with hn hm
  · obtain rfl := Decimal.isZero_ofHundredths.1 hn
    rw [sub_zero]
  · obtain rfl := Decimal.isZero_ofHundredths.1 hm
    rw [Decimal.neg_ofHundredths (mt Decimal.isZero_ofHundredths.2 hn), zero_sub]
  · have hexp : min (Decimal.ofHundredths m).exponent (Decimal.ofHundredths n).exponent = -2 := rfl
    simp only [hexp, Decimal.scaled_ofHundredths]
    rfl

/-- A sum of hundredths is fitted. -/
theorem add_ofHundredths (p : Precision) (m n : ℤ) :
    p.add (.ofHundredths m) (.ofHundredths n) = p.fit (.ofHundredths (m + n)) := by
  rcases eq_or_ne n 0 with rfl | hn
  · rw [add_zero]
    rfl
  · rw [add, Decimal.neg_ofHundredths hn, subtract_ofHundredths, sub_neg_eq_add]

end Precision

namespace Money

variable {a b m : Money} {c : Currency} {x : Decimal} {l : List Money} {context : String}

/-- **Decimals.** A decimal is the money of its nearest number of hundredths, if that is one of the
numbers of cents that money may have. -/
theorem ofDecimal_eq_ok_iff_nearestHundredths :
    ofDecimal c x = .ok m ↔ m.currency = c ∧ (m.cents : ℤ) = nearestHundredths x.value := by
  rw [ofDecimal_eq_ok_iff, x.nearestHundredths_value]
  refine and_congr_right fun _ => ?_
  cases x.negative with
  | false => simp
  | true =>
    simp only [true_imp_iff, if_true]
    omega

theorem exists_ofDecimal_iff :
    (∃ m, ofDecimal c x = .ok m) ↔
      0 ≤ nearestHundredths x.value ∧ nearestHundredths x.value < bound := by
  simp only [ofDecimal_eq_ok_iff_nearestHundredths]
  constructor
  · rintro ⟨m, -, hcents⟩
    have := m.lt_bound
    omega
  · rintro ⟨hnonneg, hlt⟩
    exact ⟨⟨c, (nearestHundredths x.value).toNat, by omega⟩, rfl, by simpa using hnonneg⟩

/-- Less than half a hundredth below zero is nothing. -/
theorem ofDecimal_of_tiny (hlow : -1 / 200 < x.value) (hneg : x.value < 0) :
    ofDecimal c x = .ok (.zero c) := by
  have hround : round (-x.value * 100) = 0 := by
    rw [round_eq_zero_iff]
    constructor <;> linarith
  rw [ofDecimal_eq_ok_iff_nearestHundredths, nearestHundredths, if_neg (not_le.2 hneg), hround]
  exact ⟨rfl, rfl⟩

/-- A decimal of a checked currency is money if it is so in range. -/
theorem ofValues_decimal (c : Currency) (x : Decimal) :
    ofValues (.text c.code) (.decimal (.finite x)) = ofDecimal c x := by
  rw [ofValues, Currency.ofValue, Currency.ofCode_code]
  rfl

/-! ### Fitted numerals -/

/-- Amounts of money have few enough digits to be kept. -/
private theorem fit_ofHundredths {n : ℤ} (h : n.natAbs < bound) :
    Precision.exact.fit (.ofHundredths n) = .ok (.ofHundredths n) := by
  rcases eq_or_ne n 0 with rfl | hne
  · rfl
  have hpos : 0 < n.natAbs := Int.natAbs_pos.2 hne
  have hlt : (Decimal.ofHundredths n).magnitude < 10 ^ (26 : ℤ) := by
    have hcast : (n.natAbs : ℚ) < 10 ^ 28 := by exact_mod_cast h
    rw [Decimal.magnitude_ofHundredths, div_lt_iff₀ (by norm_num)]
    exact hcast.trans_le (by norm_num)
  have hmag : 0 < (Decimal.ofHundredths n).magnitude := Decimal.magnitude_pos_iff.2 hpos
  have hleast : Precision.exact.leastExponent ≤ -2 := by decide
  exact Precision.fit_of_place_le hpos
    (hlt.le.trans (zpow_le_zpow_right₀ (by norm_num) (by decide)))
    (Precision.place_le hmag hleast hlt)

/-- A number of hundredths is money of as many cents. -/
private theorem ofDecimal_ofHundredths (c : Currency) (n : ℕ) (h : n < bound) :
    ofDecimal c (.ofHundredths n) = .ok ⟨c, n, h⟩ := by
  rw [ofDecimal_eq_ok_iff, Decimal.magnitude_ofHundredths, Int.natAbs_natCast,
    div_mul_cancel₀ _ (by norm_num), Rounding.nearest_natCast, Decimal.ofHundredths_natCast]
  exact ⟨rfl, rfl, fun hneg => by cases hneg⟩

/-- **Fitted hundredths.** A number of hundredths that is fitted to twenty-eight digits is money
exactly if it was so before. -/
private theorem ofDecimal_fit (c : Currency) (n : ℕ) :
    (do ofDecimal c (← (Precision.exact.fit (.ofHundredths n)).mapError .trap)) = ofCents c n := by
  rcases lt_or_ge n bound with hlt | hge
  · rw [fit_ofHundredths (by rwa [Int.natAbs_natCast]), ofCents_of_lt hlt]
    exact ofDecimal_ofHundredths c n hlt
  · rw [ofCents, dif_neg (not_lt.2 hge)]
    cases hfit : Precision.exact.fit (.ofHundredths n) with
    | error t => rfl
    | ok y =>
      -- the bound has one digit, so that rounding does not carry a larger number below it
      have hrep : Precision.exact.Represents (10 ^ (26 : ℤ)) :=
        ⟨1, 26, by decide, by decide, by norm_num⟩
      have hcast : (10 : ℚ) ^ 28 ≤ n := by exact_mod_cast hge
      have hnear : (10 : ℚ) ^ (26 : ℤ) ≤ y.magnitude := by
        rw [(Precision.of_fit (by decide) hfit).2, Decimal.magnitude_ofHundredths,
          Int.natAbs_natCast]
        refine Precision.le_nearest (by decide) (by positivity) hrep ?_
        rw [le_div_iff₀ (by norm_num)]
        exact le_trans (by norm_num) hcast
      refine ofDecimal_eq_error (Rounding.halfUp.le_nearest_of_le ?_)
      calc ((bound : ℕ) : ℚ) = 10 ^ (26 : ℤ) * 100 := by
            rw [bound, cast_pow10, digits]
            norm_num
        _ ≤ y.magnitude * 100 := mul_le_mul_of_nonneg_right hnear (by norm_num)

/-! ### Operations on numerals -/

/-- The sum of two amounts, as the sum of their numerals. -/
def plusNumerals (a b : Money) : Except Fault Money := do
  requireSameCurrency a b
  ofDecimal a.currency (← (Precision.exact.add a.amount b.amount).mapError .trap)

/-- The difference of two amounts, as the difference of their numerals. -/
def minusNumerals (a b : Money) : Except Fault Money := do
  requireSameCurrency a b
  let difference ← (Precision.exact.subtract a.amount b.amount).mapError .trap
  if difference.isNegative then .error (.differenceNegative a b)
  else ofDecimal a.currency difference

/-- An amount taken `n` times, as a multiple of its numeral. -/
def timesNumerals (a : Money) (n : ℕ) : Except Fault Money := do
  ofDecimal a.currency (← (Precision.exact.multiply a.amount (.ofNat n)).mapError .trap)

/-- **Sums** of cents are sums of numerals. -/
theorem plus_eq_plusNumerals (a b : Money) : a.plus b = a.plusNumerals b := by
  rw [plus, plusNumerals, amount, amount, Precision.add_ofHundredths, ← Nat.cast_add]
  congr 1
  funext _
  exact (ofDecimal_fit a.currency (a.cents + b.cents)).symm

/-- **Differences** of cents are differences of numerals. -/
theorem minus_eq_minusNumerals (a b : Money) : a.minus b = a.minusNumerals b := by
  have ha := a.lt_bound
  have hb := b.lt_bound
  rw [minus, minusNumerals, amount, amount, Precision.subtract_ofHundredths,
    fit_ofHundredths (by omega)]
  congr 1
  funext _
  change _ = if (Decimal.ofHundredths (a.cents - b.cents)).isNegative then _ else _
  rcases lt_or_ge a.cents b.cents with hlt | hle
  · rw [if_pos hlt, if_pos (Decimal.isNegative_ofHundredths.2 (by omega))]
  · rw [if_neg (not_lt.2 hle), if_neg (mt Decimal.isNegative_ofHundredths.1 (by omega)),
      ← Nat.cast_sub hle, ofDecimal_ofHundredths _ _ ((Nat.sub_le ..).trans_lt ha)]

/-- **Multiples** of cents are multiples of numerals. -/
theorem times_eq_timesNumerals (a : Money) (n : ℕ) : a.times n = a.timesNumerals n := by
  have hproduct : Precision.exact.multiply a.amount (.ofNat n) =
      Precision.exact.fit (.ofHundredths (a.cents * n : ℕ)) := by
    rw [Precision.multiply, amount, Decimal.ofHundredths_natCast, Decimal.ofHundredths_natCast]
    rfl
  rw [times, timesNumerals, hproduct]
  exact (ofDecimal_fit a.currency (a.cents * n)).symm

/-! ### Exact or refused -/

theorem timesValue_natCast (a : Money) (n : ℕ) : a.timesValue (.whole n) = a.times n := by
  rw [timesValue, if_neg (Int.natCast_nonneg n).not_gt, Int.toNat_natCast]

private theorem exists_plus_error_iff (hcur : a.currency = b.currency) :
    (∃ f, a.plus b = .error f ∧ f.category = .validation) ↔ bound ≤ a.cents + b.cents := by
  constructor
  · rintro ⟨f, hf, -⟩
    by_contra hlt
    have hok : a.plus b = .ok ⟨a.currency, a.cents + b.cents, not_le.1 hlt⟩ :=
      plus_eq_ok_iff.2 ⟨hcur, rfl, rfl⟩
    cases hf.symm.trans hok
  · intro hge
    obtain ⟨x, hx⟩ := plus_eq_error hcur hge
    exact ⟨_, hx, rfl⟩

private theorem exists_minus_error_iff (hcur : a.currency = b.currency) :
    (∃ f, a.minus b = .error f ∧ f.category = .illegalState) ↔ a.cents < b.cents := by
  constructor
  · rintro ⟨f, hf, -⟩
    by_contra hle
    obtain ⟨m, hm⟩ := exists_minus hcur (not_lt.1 hle)
    cases hf.symm.trans hm
  · intro hlt
    refine ⟨.differenceNegative a b, ?_, rfl⟩
    rw [minus, requireSameCurrency_bind hcur, if_pos hlt]

private theorem exists_times_error_iff {n : ℕ} :
    (∃ f, a.times n = .error f) ↔ bound ≤ a.cents * n := by
  rw [exists_error_iff, ← not_lt, not_iff_not]
  refine ⟨fun ⟨m, hm⟩ => ?_, exists_times⟩
  rw [← (times_eq_ok_iff.1 hm).2]
  exact m.lt_bound

/-- The amounts of a list in one currency have one sum in all orders, or in none. -/
private theorem sum_of_perm (context : String) (hl : ∀ x ∈ l, x.currency = c) :
    (∃ m, m.currency = c ∧ m.cents = (l.map cents).sum ∧
        ∀ l' : List Money, l'.Perm l → sum c context l' = .ok m) ∨
      bound ≤ (l.map cents).sum ∧ ∀ l' : List Money, l'.Perm l →
        ∃ f, sum c context l' = .error f ∧ f.category = .validation := by
  have hperm : ∀ l' : List Money, l'.Perm l →
      (∀ x ∈ l', x.currency = c) ∧ (l'.map cents).sum = (l.map cents).sum :=
    fun l' h => ⟨fun x hx => hl x (h.subset hx), (h.map cents).sum_eq⟩
  rcases lt_or_ge (l.map cents).sum bound with hlt | hge
  · refine .inl ⟨⟨c, _, hlt⟩, rfl, rfl, fun l' h => sum_eq_ok_iff.2 ⟨(hperm l' h).1, rfl, ?_⟩⟩
    exact (hperm l' h).2.symm
  · refine .inr ⟨hge, fun l' h => ?_⟩
    have hout : ¬ InRange (sum c context l') := by
      intro hr
      obtain ⟨m, -, hm⟩ := returns_sum (hperm l' h).1 hr
      have hcents := (sum_eq_ok_iff.1 hm).2.2
      rw [(hperm l' h).2] at hcents
      exact absurd m.lt_bound (not_lt.2 (hcents ▸ hge))
    obtain ⟨x, hx⟩ := not_inRange_iff.1 hout
    exact ⟨_, hx, rfl⟩

/-- **Exact or refused.** No operation on money rounds silently.

* A decimal of any length becomes its nearest number of hundredths, a tie going away from zero, if
  that is a number of cents that money may have; otherwise it is refused. Less than half a hundredth
  below zero is nothing.
* Two amounts of one currency have their exact sum, unless it reaches the bound; their exact
  difference, unless it is negative; and an amount has its exact multiples below the bound. This is
  so also where the operations are those of numerals of twenty-eight digits.
* Amounts of one currency have their exact sum in all orders, or are refused in all orders. -/
theorem exact_or_refused (hcur : a.currency = b.currency) (hl : ∀ x ∈ l, x.currency = c) :
    (∀ x : Decimal,
      (∀ m, ofValues (.text c.code) (.decimal (.finite x)) = .ok m ↔
        m.currency = c ∧ (m.cents : ℤ) = nearestHundredths x.value) ∧
      ((∃ f, ofValues (.text c.code) (.decimal (.finite x)) = .error f) ↔
        ¬ (0 ≤ nearestHundredths x.value ∧ nearestHundredths x.value < bound)) ∧
      (-1 / 200 < x.value → x.value < 0 →
        ofValues (.text c.code) (.decimal (.finite x)) = .ok (.zero c))) ∧
    (a.plus b = a.plusNumerals b ∧
      (∀ m, a.plus b = .ok m ↔ m.currency = a.currency ∧ m.cents = a.cents + b.cents) ∧
      ((∃ f, a.plus b = .error f ∧ f.category = .validation) ↔ bound ≤ a.cents + b.cents)) ∧
    (a.minus b = a.minusNumerals b ∧
      (∀ m, a.minus b = .ok m ↔ m.currency = a.currency ∧ m.cents + b.cents = a.cents) ∧
      ((∃ f, a.minus b = .error f ∧ f.category = .illegalState) ↔ a.cents < b.cents)) ∧
    (∀ n : ℕ, a.timesValue (.whole n) = a.timesNumerals n ∧
      (∀ m, a.timesValue (.whole n) = .ok m ↔
        m.currency = a.currency ∧ m.cents = a.cents * n) ∧
      ((∃ f, a.timesValue (.whole n) = .error f) ↔ bound ≤ a.cents * n)) ∧
    ∀ context,
      (∃ m, m.currency = c ∧ m.cents = (l.map cents).sum ∧
        ∀ l' : List Money, l'.Perm l → sum c context l' = .ok m) ∨
      bound ≤ (l.map cents).sum ∧ ∀ l' : List Money, l'.Perm l →
        ∃ f, sum c context l' = .error f ∧ f.category = .validation := by
  refine ⟨fun x => ?_, ⟨plus_eq_plusNumerals a b, fun m => ?_, exists_plus_error_iff hcur⟩,
    ⟨minus_eq_minusNumerals a b, fun m => ?_, exists_minus_error_iff hcur⟩, fun n => ?_,
    fun context => sum_of_perm context hl⟩
  · rw [ofValues_decimal, exists_error_iff, exists_ofDecimal_iff]
    exact ⟨fun m => ofDecimal_eq_ok_iff_nearestHundredths, Iff.rfl, ofDecimal_of_tiny⟩
  · rw [plus_eq_ok_iff]
    exact and_iff_right hcur
  · rw [minus_eq_ok_iff]
    constructor
    · rintro ⟨-, -, hm, hcents⟩
      exact ⟨hm, hcents⟩
    · rintro ⟨hm, hcents⟩
      exact ⟨hcur, by omega, hm, hcents⟩
  · rw [timesValue_natCast]
    exact ⟨times_eq_timesNumerals a n, fun m => times_eq_ok_iff, exists_times_error_iff⟩

/-- The largest amount and one cent reach the bound, and are refused in both orders. Their difference
has twenty-eight digits and is exact. -/
theorem exact_or_refused_largest :
    let a : Money := Money.euro (bound - 1) (by decide)
    let b : Money := Money.euro 1 (by decide)
    (∃ f, a.plus b = .error f ∧ f.category = .validation) ∧
      (∃ m, a.minus b = .ok m ∧ m.cents = bound - 2) ∧
      ∃ f, sum a.currency sumContext [b, a] = .error f := by
  intro a b
  obtain ⟨-, ⟨-, -, hplus⟩, ⟨-, hminus, -⟩, -, hsum⟩ :=
    exact_or_refused (a := a) (b := b) (l := [a, b]) (c := a.currency) rfl (by decide)
  refine ⟨hplus.2 (by decide), ⟨Money.euro (bound - 2) (by decide), ?_, rfl⟩, ?_⟩
  · exact (hminus _).2 ⟨rfl, by decide⟩
  · rcases hsum sumContext with ⟨m, -, hcents, -⟩ | ⟨-, hrefused⟩
    · exact absurd m.lt_bound (not_lt.2 (hcents ▸ by decide))
    · obtain ⟨f, hf, -⟩ := hrefused [b, a] (List.Perm.swap a b [])
      exact ⟨f, hf⟩

end Money

end Settlement
