import Settlement.Proofs.Nearest

/-!
# What decimal arithmetic computes

The operations of limited precision are related to rounding on `ℚ`: the magnitude of a product, a
quotient or a numeral that is fitted into a precision is the exact magnitude, rounded
(`exists_fit`, `exists_multiply`, `exists_divide`). Each operation has a result as long as the exact
magnitude is below ten to the largest exponent. Differences are exact where the precision represents
them (`exists_subtract`).
-/

namespace Settlement

/-! ### Powers of ten -/

theorem cast_pow10 (n : ℕ) : (pow10 n : ℚ) = 10 ^ n := by
  have h : pow10 n = 10 ^ n := rfl
  rw [h]
  push_cast
  rfl

/-- A power with an integral exponent as a quotient of powers with natural exponents. -/
private theorem zpow_eq_div (s : ℤ) : (10 : ℚ) ^ s = 10 ^ s.toNat / 10 ^ (-s).toNat := by
  rcases le_total 0 s with h | h
  · obtain ⟨n, rfl⟩ := Int.eq_ofNat_of_zero_le h
    simp
  · obtain ⟨n, hn⟩ := Int.eq_ofNat_of_zero_le (neg_nonneg.2 h)
    obtain rfl : s = -(n : ℤ) := by omega
    simp [zpow_neg]

/-- The exponent of the leading digit is known from powers of ten on both sides. -/
private theorem log_eq_of_bounds {x : ℚ} {k : ℤ} (h1 : (10 : ℚ) ^ k ≤ x)
    (h2 : x < (10 : ℚ) ^ (k + 1)) : Int.log 10 x = k := by
  have hx : 0 < x := lt_of_lt_of_le (by positivity) h1
  have hle : k ≤ Int.log 10 x := by
    rw [← Int.zpow_le_iff_le_log (by norm_num) hx]
    simpa using h1
  have hlt : Int.log 10 x < k + 1 := by
    rw [← Int.lt_zpow_iff_log_lt (by norm_num) hx]
    simpa using h2
  omega

private theorem cast_lt_zpow_digitCount (n : ℕ) : (n : ℚ) < 10 ^ (digitCount n : ℤ) := by
  have h := lt_pow10_digitCount n
  rw [zpow_natCast, ← cast_pow10]
  exact_mod_cast h

private theorem zpow_digitCount_le_cast {n : ℕ} (hn : 0 < n) :
    (10 : ℚ) ^ ((digitCount n : ℤ) - 1) ≤ n := by
  have h := pow10_digitCount_le hn
  have hcast : ((digitCount n : ℤ) - 1) = ((digitCount n - 1 : ℕ) : ℤ) := by
    have := digitCount_pos n
    omega
  rw [hcast, zpow_natCast, ← cast_pow10]
  exact_mod_cast h

/-- The exponent of the leading digit of a quotient, as a logarithm. -/
theorem quotientLeading_eq_log {n d : ℕ} (hn : 0 < n) (hd : 0 < d) :
    quotientLeading n d = Int.log 10 ((n : ℚ) / d) := by
  have hd' : (0 : ℚ) < d := by exact_mod_cast hd
  set s : ℤ := (digitCount n : ℤ) - digitCount d with hs
  have hcompare : n * pow10 (-s).toNat < d * pow10 s.toNat ↔ (n : ℚ) / d < 10 ^ s := by
    rw [zpow_eq_div, div_lt_div_iff₀ hd' (by positivity), ← cast_pow10, ← cast_pow10]
    norm_cast
    rw [mul_comm (pow10 s.toNat)]
  have hupper : (n : ℚ) / d < 10 ^ (s + 1) := by
    rw [div_lt_iff₀ hd']
    calc (n : ℚ) < 10 ^ (digitCount n : ℤ) := cast_lt_zpow_digitCount n
      _ = 10 ^ (s + 1) * 10 ^ ((digitCount d : ℤ) - 1) := by
          rw [← zpow_add₀ (by norm_num)]
          congr 1
          omega
      _ ≤ 10 ^ (s + 1) * d :=
          mul_le_mul_of_nonneg_left (zpow_digitCount_le_cast hd) (by positivity)
  have hlower : (10 : ℚ) ^ (s - 1) ≤ n / d := by
    rw [le_div_iff₀ hd']
    calc (10 : ℚ) ^ (s - 1) * d ≤ 10 ^ (s - 1) * 10 ^ (digitCount d : ℤ) :=
          mul_le_mul_of_nonneg_left (cast_lt_zpow_digitCount d).le (by positivity)
      _ = 10 ^ ((digitCount n : ℤ) - 1) := by
          rw [← zpow_add₀ (by norm_num)]
          congr 1
          omega
      _ ≤ n := zpow_digitCount_le_cast hn
  rw [quotientLeading]
  simp only [← hs, hcompare]
  split_ifs with h
  · exact (log_eq_of_bounds hlower (by simpa using h)).symm
  · exact (log_eq_of_bounds (not_lt.1 h) hupper).symm

private theorem log_mul_zpow {x : ℚ} (hx : 0 < x) (k : ℤ) :
    Int.log 10 (x * 10 ^ k) = Int.log 10 x + k := by
  refine log_eq_of_bounds ?_ ?_
  · rw [zpow_add₀ (by norm_num)]
    refine mul_le_mul_of_nonneg_right ?_ (by positivity)
    simpa using Int.zpow_log_le_self (b := 10) (by norm_num) hx
  · rw [add_right_comm, zpow_add₀ (by norm_num)]
    refine mul_lt_mul_of_pos_right ?_ (by positivity)
    simpa using Int.lt_zpow_succ_log_self (b := 10) (by norm_num) x

namespace Decimal

/-- The magnitude of a numeral, as a rational number. -/
def magnitude (x : Decimal) : ℚ := x.coefficient * 10 ^ x.exponent

theorem magnitude_nonneg (x : Decimal) : 0 ≤ x.magnitude := by
  unfold magnitude
  positivity

/-- A whole number is its own magnitude. -/
theorem magnitude_ofNat (n : ℕ) : (ofNat n).magnitude = n := by
  rw [magnitude, ofNat, zpow_zero, mul_one]

/-- Only numerals of zero have no magnitude. -/
theorem magnitude_pos_iff {x : Decimal} : 0 < x.magnitude ↔ 0 < x.coefficient := by
  have h : (0 : ℚ) < 10 ^ x.exponent := by positivity
  rw [magnitude, mul_pos_iff_of_pos_right h]
  exact Nat.cast_pos

/-- A number reaches the power of ten of its leading digit. -/
theorem zpow_leading_le {x : Decimal} (hx : 0 < x.coefficient) :
    (10 : ℚ) ^ x.leading ≤ x.magnitude :=
  calc (10 : ℚ) ^ x.leading = 10 ^ ((digitCount x.coefficient : ℤ) - 1) * 10 ^ x.exponent := by
        rw [← zpow_add₀ (by norm_num), leading]
        congr 1
        ring
    _ ≤ x.coefficient * 10 ^ x.exponent :=
        mul_le_mul_of_nonneg_right (zpow_digitCount_le_cast hx) (by positivity)

/-- A number stays below the next power of ten. -/
theorem lt_zpow_leading (x : Decimal) : x.magnitude < 10 ^ (x.leading + 1) :=
  calc x.magnitude < 10 ^ (digitCount x.coefficient : ℤ) * 10 ^ x.exponent :=
        mul_lt_mul_of_pos_right (cast_lt_zpow_digitCount _) (by positivity)
    _ = 10 ^ (x.leading + 1) := by
        rw [← zpow_add₀ (by norm_num), leading]
        congr 1
        ring

/-- A bound on the magnitude bounds the exponent of the leading digit. -/
theorem leading_le {x : Decimal} (hx : 0 < x.coefficient) {k : ℤ} (h : x.magnitude < 10 ^ (k + 1)) :
    x.leading ≤ k := by
  have hlt : (10 : ℚ) ^ x.leading < 10 ^ (k + 1) := (zpow_leading_le hx).trans_lt h
  have := (zpow_lt_zpow_iff_right₀ (by norm_num : (1 : ℚ) < 10)).1 hlt
  omega

/-- The units that a numeral is counted in, without its sign. -/
theorem natAbs_scaled (x : Decimal) (e : ℤ) :
    (x.scaled e).natAbs = x.coefficient * pow10 (x.exponent - e).toNat := by
  rw [scaled]
  split_ifs
  · rw [Int.natAbs_neg, Int.natAbs_natCast]
  · rw [Int.natAbs_natCast]

/-- Counted in units of its own place or of a finer one, a numeral keeps its magnitude. -/
theorem natAbs_scaled_mul (x : Decimal) {e : ℤ} (he : e ≤ x.exponent) :
    ((x.scaled e).natAbs : ℚ) * 10 ^ e = x.magnitude := by
  have hexp : x.exponent = ((x.exponent - e).toNat : ℤ) + e := by omega
  rw [natAbs_scaled, magnitude, Nat.cast_mul, cast_pow10, mul_assoc]
  nth_rewrite 2 [hexp]
  rw [zpow_add₀ (by norm_num), zpow_natCast]

/-- The value of a numeral. -/
def value (x : Decimal) : ℚ := if x.negative then -x.magnitude else x.magnitude

theorem abs_value (x : Decimal) : |x.value| = x.magnitude := by
  rw [value]
  split_ifs
  · rw [abs_neg, abs_of_nonneg x.magnitude_nonneg]
  · exact abs_of_nonneg x.magnitude_nonneg

theorem value_neg (x : Decimal) : x.neg.value = -x.value := by
  have hmag : x.neg.magnitude = x.magnitude := rfl
  rw [value, value, hmag, neg]
  cases x.negative <;> simp

theorem value_of_isZero {x : Decimal} (h : x.isZero = true) : x.value = 0 := by
  have hzero : x.coefficient = 0 := by simpa [isZero] using h
  simp [value, magnitude, hzero]

/-- A numeral counted in units of its own place or of a finer one keeps its value. -/
theorem scaled_mul (x : Decimal) {e : ℤ} (he : e ≤ x.exponent) :
    (x.scaled e : ℚ) * 10 ^ e = x.value := by
  have hmag := x.natAbs_scaled_mul he
  rw [natAbs_scaled] at hmag
  rw [scaled, value, ← hmag]
  split_ifs <;> push_cast <;> ring

/-- A whole number of units, written as a numeral. -/
theorem value_units (n e : ℤ) : (⟨n < 0, n.natAbs, e⟩ : Decimal).value = n * 10 ^ e := by
  rw [value, magnitude, Nat.cast_natAbs]
  rcases lt_or_ge n 0 with h | h
  · rw [if_pos (decide_eq_true h), abs_of_neg h]
    push_cast
    ring
  · rw [if_neg (by simpa using h), abs_of_nonneg h]

end Decimal

/-! ### Rounded results -/

namespace Precision

variable {p : Precision}

theorem lastPlace_eq_place (p : Precision) {n d : ℕ} (hn : 0 < n) (hd : 0 < d) (k : ℤ) :
    p.lastPlace n d k = p.place ((n : ℚ) / d * 10 ^ k) := by
  rw [lastPlace, place, quotientLeading_eq_log hn hd, log_mul_zpow (by positivity)]

/-- Units of the last place are counted by rounding. -/
theorem unitsAt_eq_nearest (p : Precision) {n d : ℕ} (hn : 0 < n) (hd : 0 < d) (k e : ℤ) :
    p.unitsAt n d k e = p.rounding.nearest ((n : ℚ) / d * 10 ^ k / 10 ^ e) := by
  have hpos : (0 : ℚ) < n / d * 10 ^ k / 10 ^ e := by positivity
  rw [unitsAt]
  split_ifs with hsmall
  · -- far below the last place the number rounds to nothing
    have hlt : (n : ℚ) / d * 10 ^ k / 10 ^ e < 1 / 2 := by
      rw [div_lt_iff₀ (by positivity)]
      have hlog : (n : ℚ) / d * 10 ^ k < 10 ^ (quotientLeading n d + k + 1) := by
        rw [quotientLeading_eq_log hn hd, ← log_mul_zpow (by positivity)]
        simpa using Int.lt_zpow_succ_log_self (b := 10) (by norm_num) ((n : ℚ) / d * 10 ^ k)
      have hexp : (10 : ℚ) ^ (quotientLeading n d + k + 1) ≤ 10 ^ (e - 1) :=
        zpow_le_zpow_right₀ (by norm_num) (by omega)
      have hstep : (10 : ℚ) ^ e = 10 ^ (e - 1) * 10 := by
        rw [← zpow_add_one₀ (by norm_num), sub_add_cancel]
      have hten : (0 : ℚ) < 10 ^ (e - 1) := by positivity
      linarith
    have hround := p.rounding.nearest_sub_half_le hpos.le
    have hzero : (p.rounding.nearest ((n : ℚ) / d * 10 ^ k / 10 ^ e) : ℚ) < 1 := by linarith
    exact (Nat.lt_one_iff.1 (by exact_mod_cast hzero)).symm
  · rw [Rounding.quotient_eq_nearest _ _ (Nat.mul_pos hd (pow10_pos _))]
    congr 1
    push_cast
    rw [cast_pow10, cast_pow10, mul_div_mul_comm, mul_div_assoc, ← zpow_sub₀ (by norm_num),
      zpow_eq_div (k - e), neg_sub]

/-- The rounded value of a positive quotient. -/
theorem magnitude_rounded (hp : 0 < p.digits) (negative : Bool) {n d : ℕ} (hn : 0 < n) (hd : 0 < d)
    (k : ℤ) : (p.rounded negative n d k).magnitude = p.nearest ((n : ℚ) / d * 10 ^ k) := by
  rw [rounded, nearest, ← lastPlace_eq_place p hn hd, ← unitsAt_eq_nearest p hn hd]
  split_ifs with hcarry
  · -- a carry into one digit more
    rw [hcarry, Decimal.magnitude, cast_pow10, cast_pow10, zpow_add_one₀ (by norm_num)]
    obtain ⟨m, hm⟩ := Nat.exists_eq_succ_of_ne_zero hp.ne'
    rw [hm, Nat.succ_eq_add_one, Nat.add_sub_cancel, pow_succ]
    ring
  · rfl

theorem negative_rounded (p : Precision) (negative : Bool) (n d : ℕ) (k : ℤ) :
    (p.rounded negative n d k).negative = negative := by
  rw [rounded]
  split_ifs <;> rfl

private theorem leastExponent_le_maxExponent (hp : 0 < p.digits) :
    p.leastExponent ≤ maxExponent := by
  rw [leastExponent, maxExponent]
  omega

/-- A numeral passes the check on its leading digit if its magnitude is in range. -/
private theorem checked_eq_ok {x : Decimal} (hpos : 0 < x.coefficient)
    (h : x.magnitude ≤ 10 ^ maxExponent) : checked x = .ok x := by
  have hlead : x.leading ≤ maxExponent :=
    Decimal.leading_le hpos (h.trans_lt (zpow_lt_zpow_right₀ (by norm_num) (by omega)))
  rw [checked, if_neg (by omega)]

private theorem eq_of_checked {x y : Decimal} (h : checked x = .ok y) : x = y := by
  rw [checked] at h
  split_ifs at h
  exact Except.ok.inj h

/-- A rounded quotient passes the check on its leading digit if the quotient is in range. -/
private theorem checked_rounded (hp : 0 < p.digits) (negative : Bool) {n d : ℕ} (hn : 0 < n)
    (hd : 0 < d) {k : ℤ} (h : (n : ℚ) / d * 10 ^ k ≤ 10 ^ maxExponent) :
    checked (p.rounded negative n d k) = .ok (p.rounded negative n d k) := by
  have hpos : (0 : ℚ) < n / d * 10 ^ k := by positivity
  have hmag : (p.rounded negative n d k).magnitude ≤ 10 ^ maxExponent := by
    rw [magnitude_rounded hp negative hn hd]
    exact nearest_le_zpow hp hpos.le (leastExponent_le_maxExponent hp) h
  rcases Nat.eq_zero_or_pos (p.rounded negative n d k).coefficient with hzero | hcoeff
  · -- nothing is left of the number; the exponent of its last place is in range
    have hcarry : p.unitsAt n d k (p.lastPlace n d k) ≠ pow10 p.digits := by
      intro hcarry
      rw [rounded] at hzero
      simp only [hcarry, ↓reduceIte] at hzero
      exact (pow10_pos _).ne' hzero
    have hexp : (p.rounded negative n d k).exponent = p.lastPlace n d k := by
      rw [rounded]
      simp only [hcarry, ↓reduceIte]
    have hlog : Int.log 10 ((n : ℚ) / d * 10 ^ k) ≤ maxExponent := by
      have h' : Int.log 10 ((n : ℚ) / d * 10 ^ k) < maxExponent + 1 := by
        rw [← Int.lt_zpow_iff_log_lt (by norm_num) hpos]
        push_cast
        exact h.trans_lt (zpow_lt_zpow_right₀ (by norm_num) (by omega))
      omega
    have hplace : p.lastPlace n d k ≤ maxExponent := by
      rw [lastPlace_eq_place p hn hd]
      exact max_le (by omega) (leastExponent_le_maxExponent hp)
    have hdigits : digitCount 0 = 1 := by
      rw [digitCount, powerAbove]
      simp [pow10]
    rw [checked, Decimal.leading, hzero, hexp, hdigits, if_neg (by omega)]
  · exact checked_eq_ok hcoeff hmag

/-- **Fitting.** A numeral that is fitted keeps its sign and is rounded to the digits of the
precision. -/
theorem of_fit (hp : 0 < p.digits) {x y : Decimal} (h : p.fit x = .ok y) :
    y.negative = x.negative ∧ y.magnitude = p.nearest x.magnitude := by
  rw [fit] at h
  rcases Nat.eq_zero_or_pos x.coefficient with hzero | hpos
  · rw [if_pos (by simp [Decimal.isZero, hzero])] at h
    cases h
    exact ⟨rfl, by simp [Decimal.magnitude, hzero]⟩
  · rw [if_neg (by simp [Decimal.isZero, hpos.ne'])] at h
    have hmag : ((x.coefficient : ℕ) : ℚ) / (1 : ℕ) * 10 ^ x.exponent = x.magnitude := by
      rw [Nat.cast_one, div_one, Decimal.magnitude]
    split_ifs at h with hfits
    · obtain rfl := eq_of_checked h
      rw [lastPlace_eq_place p hpos one_pos, hmag] at hfits
      exact ⟨rfl, (nearest_of_place_le hpos hfits).symm⟩
    · obtain rfl := eq_of_checked h
      exact ⟨negative_rounded .., by rw [magnitude_rounded hp _ hpos one_pos, hmag]⟩

/-- A numeral without places beyond the last one kept is kept as it is. -/
theorem fit_of_place_le {x : Decimal} (hpos : 0 < x.coefficient)
    (h : x.magnitude ≤ 10 ^ maxExponent) (hplace : p.place x.magnitude ≤ x.exponent) :
    p.fit x = .ok x := by
  have hlast : p.lastPlace x.coefficient 1 x.exponent ≤ x.exponent := by
    rwa [lastPlace_eq_place p hpos one_pos, Nat.cast_one, div_one]
  rw [fit, if_neg (by simp [Decimal.isZero, hpos.ne']), if_pos hlast, checked_eq_ok hpos h]

/-- A numeral in range is fitted. -/
theorem exists_fit (hp : 0 < p.digits) {x : Decimal} (h : x.magnitude ≤ 10 ^ maxExponent) :
    ∃ y, p.fit x = .ok y ∧ y.negative = x.negative ∧ y.magnitude = p.nearest x.magnitude := by
  have hfit : ∃ y, p.fit x = .ok y := by
    rw [fit]
    split_ifs with hzero hfits
    · exact ⟨_, rfl⟩
    · have hpos : 0 < x.coefficient := by
        simpa [Decimal.isZero, Nat.pos_iff_ne_zero] using hzero
      exact ⟨x, checked_eq_ok hpos h⟩
    · have hpos : 0 < x.coefficient := by
        simpa [Decimal.isZero, Nat.pos_iff_ne_zero] using hzero
      refine ⟨_, checked_rounded hp x.negative hpos one_pos ?_⟩
      rwa [Nat.cast_one, div_one]
  obtain ⟨y, hy⟩ := hfit
  exact ⟨y, hy, of_fit hp hy⟩

/-- **Products.** The product of two numerals is the exact product, rounded. -/
theorem exists_multiply (hp : 0 < p.digits) {x y : Decimal}
    (h : x.magnitude * y.magnitude ≤ 10 ^ maxExponent) :
    ∃ z, p.multiply x y = .ok z ∧ z.negative = (x.negative != y.negative) ∧
      z.magnitude = p.nearest (x.magnitude * y.magnitude) := by
  have hmag : (⟨x.negative != y.negative, x.coefficient * y.coefficient,
      x.exponent + y.exponent⟩ : Decimal).magnitude = x.magnitude * y.magnitude := by
    simp only [Decimal.magnitude, Nat.cast_mul, zpow_add₀ (by norm_num : (10 : ℚ) ≠ 0)]
    ring
  rw [← hmag] at h ⊢
  exact exists_fit hp h

/-- A difference is fitted from a numeral of the exact difference. -/
private theorem subtract_eq_fit (p : Precision) (x y : Decimal) :
    ∃ d : Decimal, p.subtract x y = p.fit d ∧ d.value = x.value - y.value := by
  rw [subtract]
  split_ifs with hy hx
  · exact ⟨x, rfl, by rw [Decimal.value_of_isZero hy, sub_zero]⟩
  · exact ⟨y.neg, rfl, by rw [Decimal.value_of_isZero hx, zero_sub, Decimal.value_neg]⟩
  · refine ⟨_, rfl, ?_⟩
    rw [Decimal.value_units, ← x.scaled_mul (min_le_left x.exponent y.exponent),
      ← y.scaled_mul (min_le_right x.exponent y.exponent)]
    push_cast
    ring

/-- **Differences.** A difference has a result when the operands are in range together, and the
result is exact if the precision represents it. -/
theorem exists_subtract (hp : 0 < p.digits) {x y : Decimal}
    (h : x.magnitude + y.magnitude ≤ 10 ^ maxExponent) :
    ∃ z, p.subtract x y = .ok z ∧
      (p.Represents |x.value - y.value| → z.value = x.value - y.value) := by
  obtain ⟨d, hd, hvalue⟩ := subtract_eq_fit p x y
  have hmag : d.magnitude ≤ 10 ^ maxExponent :=
    calc d.magnitude = |x.value - y.value| := by rw [← hvalue, d.abs_value]
      _ ≤ |x.value| + |y.value| := abs_sub ..
      _ = x.magnitude + y.magnitude := by rw [x.abs_value, y.abs_value]
      _ ≤ 10 ^ maxExponent := h
  obtain ⟨z, hz, hneg, hround⟩ := exists_fit hp hmag
  refine ⟨z, hd.trans hz, fun hrep => ?_⟩
  rw [← hvalue, d.abs_value] at hrep
  rw [nearest_of_represents hp d.magnitude_nonneg hrep] at hround
  rw [← hvalue, Decimal.value, Decimal.value, hneg, hround]

/-- Zeros that are dropped from the end of a number can be put back. -/
private theorem dropZeros_spec (most n : ℕ) :
    (dropZeros most n).2 ≤ most ∧
      (dropZeros most n).1 * 10 ^ (most - (dropZeros most n).2) = n := by
  induction most generalizing n with
  | zero => simp [dropZeros]
  | succ m ih =>
    rw [dropZeros]
    split_ifs with hzero
    · obtain ⟨hle, hmul⟩ := ih (n / 10)
      refine ⟨hle.trans (Nat.le_succ m), ?_⟩
      rw [Nat.succ_sub hle, pow_succ, ← mul_assoc, hmul]
      omega
    · simp

/-- Writing a number with fewer zeros at its end does not change it. -/
private theorem magnitude_dropZeros (negative : Bool) (q : Decimal) (ideal : ℤ) :
    (⟨negative, (dropZeros (ideal - q.exponent).toNat q.coefficient).1,
      if q.exponent < ideal then ideal - (dropZeros (ideal - q.exponent).toNat q.coefficient).2
      else q.exponent⟩ : Decimal).magnitude = q.magnitude := by
  obtain ⟨hle, hmul⟩ := dropZeros_spec (ideal - q.exponent).toNat q.coefficient
  rw [Decimal.magnitude, Decimal.magnitude]
  split_ifs with hlt
  · generalize dropZeros (ideal - q.exponent).toNat q.coefficient = dropped at hle hmul ⊢
    have hexp : ideal - dropped.2 =
        ((ideal - q.exponent).toNat - dropped.2 : ℕ) + q.exponent := by omega
    rw [← hmul, hexp, zpow_add₀ (by norm_num), zpow_natCast]
    push_cast
    ring
  · have hnone : (ideal - q.exponent).toNat = 0 := by omega
    rw [hnone, dropZeros]

/-- **Quotients.** The quotient of two numerals is the exact quotient, rounded, also where an exact
quotient is written with fewer zeros. -/
theorem exists_divide (hp : 0 < p.digits) {x y : Decimal} (hy : 0 < y.coefficient)
    (h : x.magnitude / y.magnitude ≤ 10 ^ maxExponent) :
    ∃ z, p.divide x y = .ok z ∧ z.negative = (x.negative != y.negative) ∧
      z.magnitude = p.nearest (x.magnitude / y.magnitude) := by
  rw [divide]
  rcases Nat.eq_zero_or_pos x.coefficient with hzero | hpos
  · simp only [Decimal.isZero, hy.ne', hzero, beq_iff_eq, ↓reduceIte]
    exact ⟨_, rfl, rfl, by simp [Decimal.magnitude, hzero]⟩
  · have hmag : (x.coefficient : ℚ) / y.coefficient * 10 ^ (x.exponent - y.exponent) =
        x.magnitude / y.magnitude := by
      rw [Decimal.magnitude, Decimal.magnitude, zpow_sub₀ (by norm_num), mul_div_mul_comm]
    rw [← hmag] at h ⊢
    simp only [Decimal.isZero, hy.ne', hpos.ne', beq_iff_eq, ↓reduceIte]
    have hround := magnitude_rounded hp (x.negative != y.negative) hpos hy
      (x.exponent - y.exponent)
    have hchecked := checked_rounded hp (x.negative != y.negative) hpos hy h
    have hneg := negative_rounded p (x.negative != y.negative) x.coefficient y.coefficient
      (x.exponent - y.exponent)
    generalize p.rounded (x.negative != y.negative) x.coefficient y.coefficient
      (x.exponent - y.exponent) = q at hround hchecked hneg ⊢
    split
    · rename_i hexact
      have hq : 0 < q.coefficient := by
        simp only [Bool.and_eq_true, bne_iff_ne] at hexact
        omega
      have hshort := magnitude_dropZeros (x.negative != y.negative) q (x.exponent - y.exponent)
      refine ⟨_, checked_eq_ok ?_ ?_, rfl, hshort.trans hround⟩
      · rw [← Decimal.magnitude_pos_iff, hshort, Decimal.magnitude_pos_iff]
        exact hq
      · rw [hshort, hround]
        exact nearest_le_zpow hp (by positivity) (leastExponent_le_maxExponent hp) h
    · exact ⟨q, hchecked, hneg, hround⟩

end Precision

end Settlement
