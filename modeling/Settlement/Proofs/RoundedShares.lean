import Settlement.Proofs.Proportion

/-!
# Shares to the cent

Amounts of up to ten significant digits, which is to say below `10 ^ 10` cents, pass through the
three roundings of a share with little or no harm. The share that the whole has in a total is the
total itself (`shareCents_self`): the quotient is so close to it that ten digits reach it again. The
share of a part is off by less than 0.56 cents (`abs_shareCents_sub_lt`). A quotient from `10 ^ 7`
on has whole cents as its last place, so that it is rounded once; a smaller one is moved by at most
a twentieth of a cent before it is rounded to cents.

That is harmless while the product of total and part, in cents, is below `10 ^ 9`
(`shareCents_eq_nearest`). A fraction of that numerator which is below half a cent misses it by more
than ten digits can make up for, so that its share is the one of a single rounding.
-/

namespace Settlement

variable {t p w : ℕ}

/-- The quotient of a share before it is rounded to ten digits. -/
def quotientOf (t p w : ℕ) : ℚ := Precision.exact.nearest (t / 100 * (p / 100)) / (w / 100)

private theorem quotientOf_nonneg (t p w : ℕ) : 0 ≤ quotientOf t p w :=
  div_nonneg (Precision.nearest_nonneg ..) (by positivity)

/-- The quotient errs by a part of `10 ^ -27` at most. -/
private theorem abs_quotientOf_sub_le (ht : 0 < t) (hp : 0 < p) (hw : 0 < w) :
    |quotientOf t p w - t * p / w / 100| ≤ t * p / w / 100 * 10 ^ (-27 : ℤ) / 2 := by
  have hw' : (0 : ℚ) < w := by exact_mod_cast hw
  have hexact : (t * p / w / 100 : ℚ) = t / 100 * (p / 100) / (w / 100) := by
    field_simp
  have herr := abs_product_sub_le ht hp
  rw [quotientOf, hexact, ← sub_div, abs_div, abs_of_pos (by positivity : (0 : ℚ) < w / 100),
    div_le_iff₀ (by positivity)]
  calc _ ≤ _ := herr
    _ = _ := by field_simp

/-- What a share would be without roundings is at most twice its quotient. -/
private theorem exact_le (ht : 0 < t) (hp : 0 < p) (hw : 0 < w) :
    (t * p / w / 100 : ℚ) ≤ 2 * quotientOf t p w := by
  have herr := (abs_le.1 (abs_quotientOf_sub_le ht hp hw)).1
  have hnonneg : (0 : ℚ) ≤ t * p / w / 100 := by positivity
  norm_num at herr
  linarith

/-- A quotient below `10 ^ 8` keeps its cents. -/
private theorem place_le_of_lt {y : ℚ} (hpos : 0 < y) (hy : y < 10 ^ (8 : ℤ)) :
    Precision.working.place y ≤ -2 :=
  Precision.place_le hpos (by decide) hy

/-! ### The whole -/

/-- **The share of the whole.** The whole has its total as its share. -/
theorem shareCents_self (hw : 0 < w) (ht : t < 10 ^ 10) : shareCents t w w = t := by
  rcases Nat.eq_zero_or_pos t with rfl | hpos
  · exact shareCents_eq_zero (.inl rfl) w
  have hw' : (w : ℚ) ≠ 0 := by exact_mod_cast hw.ne'
  have hexact : (t * w / w / 100 : ℚ) = t / 100 := by rw [mul_div_cancel_right₀ _ hw']
  have hle := exact_le hpos hw hw
  have herr := abs_quotientOf_sub_le hpos hw hw
  rw [hexact] at hle herr
  have hpos' : (0 : ℚ) < t := by exact_mod_cast hpos
  have ht' : (t : ℚ) ≤ 9999999999 := by exact_mod_cast (show t ≤ 9999999999 by omega)
  have hplace : Precision.working.place (quotientOf t w w) ≤ -2 := by
    have hupper := (abs_le.1 herr).2
    norm_num at hupper
    exact place_le_of_lt (by linarith) (by norm_num; linarith)
  -- the quotient is closer to the total than half a unit of its tenth digit
  have hcents : (t : ℚ) * 10 ^ (-2 : ℤ) = t / 100 := by
    norm_num
    ring
  have hclose : |quotientOf t w w - t * 10 ^ (-2 : ℤ)| ≤
      quotientOf t w w * 10 ^ (-(Precision.working.digits : ℤ)) / 2 := by
    have hdigits : (10 : ℚ) ^ (-((Precision.working.digits : ℕ) : ℤ)) = 1 / 10 ^ 10 := by
      norm_num [Precision.working]
    rw [hcents, hdigits]
    refine herr.trans ?_
    norm_num
    linarith
  have hquotient : proportionOf t w w = t * 10 ^ (-2 : ℤ) :=
    Precision.nearest_eq_of_abs_sub_le_mul (quotientOf_nonneg t w w) hplace hclose
  rw [shareCents, hquotient, hcents, div_mul_cancel₀ _ (by norm_num), Rounding.nearest_natCast]

/-! ### Parts -/

/-- **Caps.** The share of a part with ten digits is at most the part where the total is at most the
whole. The quotient may be above the part only by the error of the product, which is lost when ten
digits are kept. -/
theorem shareCents_le (hw : 0 < w) (htw : t ≤ w) (hp : p < 10 ^ 10) : shareCents t p w ≤ p := by
  rcases Nat.eq_zero_or_pos t with rfl | htpos
  · rw [shareCents_eq_zero (.inl rfl)]
    exact Nat.zero_le p
  rcases Nat.eq_zero_or_pos p with rfl | hppos
  · exact (shareCents_eq_zero (.inr rfl) w).le
  have hw' : (0 : ℚ) < w := by exact_mod_cast hw
  have hp' : (0 : ℚ) < p := by exact_mod_cast hppos
  have hpart : (t * p / w / 100 : ℚ) ≤ p / 100 := by
    have htw' : (t : ℚ) ≤ w := by exact_mod_cast htw
    refine div_le_div_of_nonneg_right ?_ (by norm_num)
    rw [div_le_iff₀ hw', mul_comm (p : ℚ)]
    exact mul_le_mul_of_nonneg_right htw' hp'.le
  -- the part with the largest error that the product may have
  set y : ℚ := p / 100 * (1 + 10 ^ (-27 : ℤ) / 2) with hy
  have hquotient : quotientOf t p w ≤ y := by
    have herr := (abs_le.1 (abs_quotientOf_sub_le htpos hppos hw)).2
    norm_num at herr
    norm_num [hy]
    linarith
  have hcents : (p : ℚ) * 10 ^ (-2 : ℤ) = p / 100 := by
    norm_num
    ring
  have hplace : Precision.working.place y ≤ -2 := by
    have hp10 : (p : ℚ) ≤ 9999999999 := by exact_mod_cast (show p ≤ 9999999999 by omega)
    refine place_le_of_lt (by positivity) ?_
    norm_num [hy]
    linarith
  have hclose : |y - p * 10 ^ (-2 : ℤ)| ≤
      y * 10 ^ (-(Precision.working.digits : ℤ)) / 2 := by
    have hdigits : (10 : ℚ) ^ (-((Precision.working.digits : ℕ) : ℤ)) = 1 / 10 ^ 10 := by
      norm_num [Precision.working]
    have hdiff : y - p / 100 = p / 100 * (10 ^ (-27 : ℤ) / 2) := by
      rw [hy]
      ring
    rw [hcents, hdigits, hdiff, abs_of_pos (by positivity)]
    norm_num [hy]
    linarith
  have hten : Precision.working.nearest y = p / 100 :=
    (Precision.nearest_eq_of_abs_sub_le_mul (by positivity) hplace hclose).trans hcents
  have hproportion : proportionOf t p w ≤ p / 100 :=
    hten ▸ Precision.nearest_mono (by decide) (quotientOf_nonneg t p w) hquotient
  refine Rounding.halfUp.nearest_le_of_le
    (mul_nonneg (Precision.nearest_nonneg ..) (by norm_num)) ?_
  linarith

/-- A quotient from `10 ^ 7` on is rounded to whole cents. -/
private theorem nearest_eq_shareCents (hlow : 10 ^ (7 : ℤ) ≤ quotientOf t p w)
    (hhigh : quotientOf t p w < 10 ^ (8 : ℤ)) : proportionOf t p w * 100 = shareCents t p w := by
  have hpos : 0 < quotientOf t p w := lt_of_lt_of_le (by positivity) hlow
  have hplace : Precision.working.place (quotientOf t p w) = -2 :=
    le_antisymm (place_le_of_lt hpos hhigh) (Precision.le_place hlow)
  obtain ⟨n, hn⟩ : ∃ n : ℕ, proportionOf t p w * 100 = n := by
    refine ⟨Precision.working.rounding.nearest (quotientOf t p w / 10 ^ (-2 : ℤ)), ?_⟩
    rw [← hplace, proportionOf, ← quotientOf, Precision.nearest, hplace, mul_assoc]
    norm_num
  rw [shareCents, hn, Rounding.nearest_natCast]

/-- Two roundings of a quotient below `10 ^ 8` move it by at most 0.55 cents. -/
private theorem abs_shareCents_sub_quotientOf_le (hlt : quotientOf t p w < 10 ^ (8 : ℤ)) :
    |(shareCents t p w : ℚ) - quotientOf t p w * 100| ≤ 55 / 100 := by
  rcases (quotientOf_nonneg t p w).eq_or_lt with hzero | hpos
  · rw [shareCents, proportionOf, ← quotientOf, ← hzero]
    norm_num
  have herr := Precision.working.abs_nearest_sub_le hpos.le
  rw [quotientOf, ← proportionOf, ← quotientOf] at herr
  rcases lt_or_ge (quotientOf t p w) (10 ^ (7 : ℤ)) with hshort | hlong
  · -- the last place of the quotient is a tenth of a cent
    have hunit : (10 : ℚ) ^ Precision.working.place (quotientOf t p w) ≤ 10 ^ (-3 : ℤ) :=
      zpow_le_zpow_right₀ (by norm_num) (Precision.place_le hpos (by decide) hshort)
    have hnonneg : 0 ≤ proportionOf t p w * 100 :=
      mul_nonneg (Precision.nearest_nonneg ..) (by norm_num)
    have hup := Rounding.halfUp.nearest_sub_half_le hnonneg
    have hdown := Rounding.halfUp.le_nearest_add_half (proportionOf t p w * 100)
    rw [← shareCents] at hup hdown
    obtain ⟨hlower, hupper⟩ := abs_le.1 herr
    norm_num at hunit
    rw [abs_le]
    constructor <;> linarith
  · -- the quotient is rounded once
    have hunit : (10 : ℚ) ^ Precision.working.place (quotientOf t p w) ≤ 10 ^ (-2 : ℤ) :=
      zpow_le_zpow_right₀ (by norm_num) (place_le_of_lt hpos hlt)
    rw [← nearest_eq_shareCents hlong hlt]
    obtain ⟨hlower, hupper⟩ := abs_le.1 herr
    norm_num at hunit
    rw [abs_le]
    constructor <;> linarith

/-- A share below `10 ^ 10` cents has a quotient below `10 ^ 8`. -/
private theorem quotientOf_lt (hlt : shareCents t p w < 10 ^ 10) :
    quotientOf t p w < 10 ^ (8 : ℤ) := by
  by_contra hge
  have hrep : Precision.working.Represents (10 ^ (8 : ℤ)) := ⟨1, 8, by decide, by decide, by simp⟩
  have hle : (10 : ℚ) ^ (8 : ℤ) ≤ proportionOf t p w :=
    Precision.le_nearest (by decide) (quotientOf_nonneg t p w) hrep (not_lt.1 hge)
  have hcents : 10 ^ 10 ≤ shareCents t p w := by
    refine Rounding.halfUp.le_nearest_of_le ?_
    norm_num at hle ⊢
    linarith
  omega

/-- A share whose quotient is below `10 ^ 8` is off by less than 0.56 cents. -/
private theorem abs_shareCents_sub_lt_of_quotientOf_lt (ht : 0 < t) (hp : 0 < p) (hw : 0 < w)
    (hlt : quotientOf t p w < 10 ^ (8 : ℤ)) : |(shareCents t p w : ℚ) - t * p / w| < 56 / 100 := by
  have hle := exact_le ht hp hw
  obtain ⟨hlower, hupper⟩ := abs_le.1 (abs_quotientOf_sub_le ht hp hw)
  obtain ⟨hshareLower, hshareUpper⟩ := abs_le.1 (abs_shareCents_sub_quotientOf_le hlt)
  norm_num at hlt hlower hupper
  rw [abs_lt]
  constructor <;> linarith

/-- A quotient that reaches `10 ^ 8` from an exact share below it is `10 ^ 8` to ten digits. -/
private theorem shareCents_eq_of_le_quotientOf (ht : 0 < t) (hp : 0 < p) (hw : 0 < w)
    (hlt : (t * p / w : ℚ) < 10 ^ 10) (hge : 10 ^ (8 : ℤ) ≤ quotientOf t p w) :
    shareCents t p w = 10 ^ 10 ∧ |(10 ^ 10 : ℚ) - t * p / w| < 56 / 100 := by
  have herr := (abs_le.1 (abs_quotientOf_sub_le ht hp hw)).2
  norm_num at hlt hge herr
  -- the quotient passes `10 ^ 8` only by the error of the product
  have hclose : |quotientOf t p w - (1 : ℕ) * 10 ^ (8 : ℤ)| ≤
      quotientOf t p w * 10 ^ (-(Precision.working.digits : ℤ)) / 2 := by
    have hdigits : (10 : ℚ) ^ (-((Precision.working.digits : ℕ) : ℤ)) = 1 / 10 ^ 10 := by
      norm_num [Precision.working]
    rw [hdigits, abs_le]
    norm_num
    constructor <;> linarith
  have hplace : Precision.working.place (quotientOf t p w) ≤ 8 := by
    refine Precision.place_le (by linarith) (by decide) ?_
    norm_num [Precision.working]
    linarith
  have hten : proportionOf t p w = (1 : ℕ) * 10 ^ (8 : ℤ) :=
    Precision.nearest_eq_of_abs_sub_le_mul (quotientOf_nonneg t p w) hplace hclose
  have hcents : proportionOf t p w * 100 = (10 ^ 10 : ℕ) := by
    rw [hten]
    norm_num
  refine ⟨by rw [shareCents, hcents, Rounding.nearest_natCast], ?_⟩
  rw [abs_lt]
  constructor <;> linarith

/-- **Error of a share.** The share of a part is off by less than 0.56 cents where it would be below
`10 ^ 10` cents without roundings. -/
theorem abs_shareCents_sub_lt (hw : 0 < w) (hlt : (t * p / w : ℚ) < 10 ^ 10) :
    |(shareCents t p w : ℚ) - t * p / w| < 56 / 100 := by
  rcases Nat.eq_zero_or_pos t with rfl | ht
  · rw [shareCents_eq_zero (.inl rfl)]
    norm_num
  rcases Nat.eq_zero_or_pos p with rfl | hp
  · rw [shareCents_eq_zero (.inr rfl)]
    norm_num
  rcases lt_or_ge (quotientOf t p w) (10 ^ (8 : ℤ)) with hquotient | hquotient
  · exact abs_shareCents_sub_lt_of_quotientOf_lt ht hp hw hquotient
  · obtain ⟨hshare, herr⟩ := shareCents_eq_of_le_quotientOf ht hp hw hlt hquotient
    rw [hshare]
    exact_mod_cast herr

/-- A share below `10 ^ 10` cents is off by at most 0.56 cents. -/
theorem abs_shareCents_sub_le (hw : 0 < w) (hlt : shareCents t p w < 10 ^ 10) :
    |(shareCents t p w : ℚ) - t * p / w| ≤ 56 / 100 := by
  rcases Nat.eq_zero_or_pos t with rfl | ht
  · rw [shareCents_eq_zero (.inl rfl)]
    norm_num
  rcases Nat.eq_zero_or_pos p with rfl | hp
  · rw [shareCents_eq_zero (.inr rfl)]
    norm_num
  exact (abs_shareCents_sub_lt_of_quotientOf_lt ht hp hw (quotientOf_lt hlt)).le

/-! ### One rounding -/

/-- A product of amounts below `10 ^ 28` keeps all its digits. -/
private theorem quotientOf_eq (h : t * p ≤ 10 ^ 28) : quotientOf t p w = t * p / w / 100 := by
  have hrep : Precision.exact.Represents (t / 100 * (p / 100)) := by
    refine ⟨t * p, -4, h, by decide, ?_⟩
    push_cast
    norm_num
    ring
  rw [quotientOf, Precision.nearest_of_represents (by decide) (by positivity) hrep]
  ring

/-- **Roundings.** A share of amounts with a product below `10 ^ 28` is rounded to ten digits and then
to cents, and not before. -/
theorem shareCents_eq (h : t * p ≤ 10 ^ 28) :
    shareCents t p w =
      Rounding.halfUp.nearest (Precision.working.nearest (t * p / w / 100) * 100) := by
  rw [shareCents, proportionOf, ← quotientOf, quotientOf_eq h]

/-- Half cents below `10 ^ 9` are represented with ten digits, so that what reaches one with all its
digits reaches it with ten. -/
private theorem half_le_nearest {y : ℚ} {n : ℕ} (hn : n < 10 ^ 9) (h : n + 1 / 2 ≤ y) :
    n + 1 / 2 ≤ Precision.working.nearest (y / 100) * 100 := by
  have hrep : Precision.working.Represents ((n + 1 / 2) / 100) := by
    refine ⟨(2 * n + 1) * 5, -3, ?_, by decide, ?_⟩
    · norm_num [Precision.working]
      omega
    · push_cast
      norm_num
      ring
  have hreached : (n + 1 / 2 : ℚ) / 100 ≤ Precision.working.nearest (y / 100) :=
    Precision.le_nearest (by decide)
      (div_nonneg (le_trans (by positivity) h) (by norm_num)) hrep (by linarith)
  linarith

/-- Ten digits of a fraction below half a cent stay below it: as a fraction it misses the half cent
by at least half its unit, which is more than ten digits of less than `10 ^ 9` units can add. -/
private theorem nearest_lt_half {m w n : ℕ} (hm : 0 < m) (hsmall : m < 10 ^ 9) (hw : 0 < w)
    (hbound : w ≤ 10 ^ 28) (h : (m / w : ℚ) < n + 1 / 2) :
    Precision.working.nearest (m / w / 100) * 100 < n + 1 / 2 := by
  have hw' : (0 : ℚ) < w := by exact_mod_cast hw
  have hm' : (m : ℚ) < 10 ^ 9 := by exact_mod_cast hsmall
  have hgap : (m / w : ℚ) + 1 / w / 2 ≤ n + 1 / 2 := by
    rw [div_lt_iff₀ hw'] at h
    have hwhole : 2 * m + 1 ≤ (2 * n + 1) * w := by
      have hlt : (2 * m : ℚ) < (2 * n + 1) * w := by linarith
      exact_mod_cast hlt
    have hcast : (2 * m + 1 : ℚ) ≤ (2 * n + 1) * w := by exact_mod_cast hwhole
    have hsum : (m / w : ℚ) + 1 / w / 2 = (2 * m + 1) / 2 / w := by ring
    rw [hsum, div_le_iff₀ hw']
    linarith
  have hleast : (10 : ℚ) ^ (-maxExponent) ≤ m / w / 100 := by
    have hone : (1 : ℚ) ≤ m := by exact_mod_cast hm
    have hwle : (w : ℚ) ≤ 10 ^ 28 := by exact_mod_cast hbound
    calc (10 : ℚ) ^ (-maxExponent) ≤ 10 ^ (-30 : ℤ) :=
          zpow_le_zpow_right₀ (by norm_num) (by decide)
      _ = 1 / 10 ^ 28 / 100 := by norm_num
      _ ≤ m / w / 100 := by gcongr
  have hadded : (m / w : ℚ) * (1 / 10 ^ 9) < 1 / w := by
    rw [div_mul_eq_mul_div, div_lt_div_iff_of_pos_right hw']
    linarith
  have herr := (abs_le.1 (Precision.working.abs_nearest_sub_le_mul hleast)).2
  have hdigits : (10 : ℚ) ^ (1 - ((Precision.working.digits : ℕ) : ℤ)) = 1 / 10 ^ 9 := by
    norm_num [Precision.working]
  rw [hdigits] at herr
  linarith

/-- **One rounding.** Where total and part have a product below `10 ^ 9`, the share is what a single
rounding yields: ten digits of the exact share are on the same side of every half cent. -/
theorem shareCents_eq_nearest (hw : 0 < w) (hbound : w ≤ 10 ^ 28) (h : t * p < 10 ^ 9) :
    shareCents t p w = Rounding.halfUp.nearest (t * p / w) := by
  have hcast : (t * p / w : ℚ) = (t * p : ℕ) / w := by push_cast; rfl
  rcases Nat.eq_zero_or_pos (t * p) with hzero | hpos
  · rw [shareCents_eq_zero (Nat.mul_eq_zero.1 hzero), hcast, hzero]
    simp
  have hlt : ((t * p : ℕ) / w : ℚ) < 10 ^ 9 := by
    have hone : (1 : ℚ) ≤ w := by exact_mod_cast hw
    have hsmall : ((t * p : ℕ) : ℚ) < 10 ^ 9 := by exact_mod_cast h
    exact (div_le_self (by positivity) hone).trans_lt hsmall
  obtain ⟨n, hn⟩ : ∃ n, n = Rounding.halfUp.nearest ((t * p : ℕ) / w : ℚ) := ⟨_, rfl⟩
  have hlower := Rounding.halfUp.nearest_sub_half_le (x := ((t * p : ℕ) / w : ℚ)) (by positivity)
  have hupper : ((t * p : ℕ) / w : ℚ) + 1 / 2 < n + 1 := hn ▸ Nat.lt_floor_add_one _
  rw [← hn] at hlower
  rw [shareCents_eq (h.le.trans (by norm_num)), hcast, ← hn, Rounding.nearest, Nat.floor_eq_iff
    (add_nonneg (mul_nonneg (Precision.nearest_nonneg ..) (by norm_num)) (by norm_num))]
  constructor
  · cases n with
    | zero =>
      have hnonneg := Precision.nearest_nonneg Precision.working ((t * p : ℕ) / w / 100)
      push_cast at hnonneg ⊢
      linarith
    | succ n =>
      have hreach : (n + 1 / 2 : ℚ) ≤ (t * p : ℕ) / w := by push_cast at hlower ⊢; linarith
      have hn9 : n < 10 ^ 9 := by
        have hcast : (n : ℚ) < 10 ^ 9 := by linarith
        exact_mod_cast hcast
      have hhalf := half_le_nearest hn9 hreach
      push_cast at hhalf ⊢
      linarith
  · have hhalf := nearest_lt_half (n := n) hpos h hw hbound (by linarith)
    linarith

/-- **Half cents.** A share that reaches a half cent without roundings is rounded up. -/
theorem succ_le_shareCents {n : ℕ} (hprod : t * p ≤ 10 ^ 28) (hn : n < 10 ^ 9)
    (h : (n + 1 / 2 : ℚ) ≤ t * p / w) : n + 1 ≤ shareCents t p w := by
  have hhalf := half_le_nearest hn h
  rw [shareCents_eq hprod]
  refine Nat.le_floor ?_
  push_cast
  linarith

/-- **No loss.** A share is rounded once if ten digits hold its quotient. -/
theorem shareCents_eq_nearest_of_represents (hprod : t * p ≤ 10 ^ 28)
    (hrep : Precision.working.Represents (t * p / w / 100)) :
    shareCents t p w = Rounding.halfUp.nearest (t * p / w) := by
  rw [shareCents_eq hprod, Precision.nearest_of_represents (by decide) (by positivity) hrep,
    div_mul_cancel₀ _ (by norm_num)]

/-- **Two roundings.** A share below `10 ^ 8` cents is that of a single rounding or one cent more:
ten digits may reach a half cent from below, and never leave one that is reached. -/
theorem shareCents_eq_nearest_or_succ (hprod : t * p ≤ 10 ^ 28)
    (hlt : (t * p / w : ℚ) < 10 ^ 8) :
    shareCents t p w = Rounding.halfUp.nearest (t * p / w) ∨
      shareCents t p w = Rounding.halfUp.nearest (t * p / w) + 1 := by
  obtain ⟨y, hy⟩ : ∃ y : ℚ, y = t * p / w := ⟨_, rfl⟩
  have hnonneg : 0 ≤ y := by rw [hy]; positivity
  obtain ⟨n, hn⟩ : ∃ n, n = Rounding.halfUp.nearest y := ⟨_, rfl⟩
  have hlower := Rounding.halfUp.nearest_sub_half_le hnonneg
  have hupper : y + 1 / 2 < n + 1 := hn ▸ Nat.lt_floor_add_one _
  rw [← hy] at hlt ⊢
  rw [← hn] at hlower ⊢
  have hge : n ≤ shareCents t p w := by
    cases n with
    | zero => exact Nat.zero_le _
    | succ n =>
      push_cast at hlower
      have hn9 : n < 10 ^ 9 := by
        have hcast : (n : ℚ) < 10 ^ 9 := by linarith
        exact_mod_cast hcast
      exact succ_le_shareCents hprod hn9 (hy ▸ by linarith)
  have hle : shareCents t p w ≤ n + 1 := by
    -- the first rounding adds a two hundredth of a cent at most
    have herr : Precision.working.nearest (y / 100) ≤ y / 100 + 1 / 20000 := by
      rcases hnonneg.eq_or_lt with hzero | hpos
      · rw [← hzero]
        norm_num
      have hplace : (10 : ℚ) ^ Precision.working.place (y / 100) ≤ 10 ^ (-4 : ℤ) :=
        zpow_le_zpow_right₀ (by norm_num)
          (Precision.place_le (by positivity) (by decide) (by norm_num [Precision.working]; linarith))
      have hclose := (abs_le.1 (Precision.working.abs_nearest_sub_le
        (div_nonneg hnonneg (by norm_num : (0 : ℚ) ≤ 100)))).2
      norm_num at hplace
      linarith
    have hlt' : (shareCents t p w : ℚ) < n + 2 := by
      have hnearest := Rounding.halfUp.nearest_sub_half_le
        (mul_nonneg (Precision.nearest_nonneg Precision.working (y / 100))
          (by norm_num : (0 : ℚ) ≤ 100))
      rw [shareCents_eq hprod, ← hy]
      linarith
    have hcast : shareCents t p w < n + 2 := by exact_mod_cast hlt'
    omega
  omega

end Settlement
