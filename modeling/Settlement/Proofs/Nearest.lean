import Mathlib.Algebra.Order.Field.Power
import Mathlib.Algebra.Order.Floor.Semifield
import Mathlib.Data.Int.Log
import Mathlib.Data.Rat.Floor
import Mathlib.Tactic.FieldSimp
import Mathlib.Tactic.Linarith
import Mathlib.Tactic.Positivity
import Mathlib.Tactic.Ring
import Settlement.Decimal.Arithmetic

/-!
# Rounding on the rational numbers

The arithmetic of limited precision is specified here on `ℚ`, apart from numerals.
`Rounding.nearest mode x` is the whole number nearest to `x`, and `Precision.nearest p x` the
number of `p`'s digits nearest to `x`: a multiple of `10 ^ p.place x`, the unit of the last place
that `p` keeps of `x`.

Three laws carry all estimates of shares and quotients: rounding is monotone (`nearest_mono`),
it fixes what the precision represents (`nearest_of_represents`), and it errs by at most half a unit
of the last place (`abs_nearest_sub_le`), which is a relative error away from the least exponents
(`abs_nearest_sub_le_mul`). A number that is represented is reached from slightly below it
(`le_nearest_of_le_mul`).
-/

namespace Settlement

/-! ### Whole numbers -/

namespace Rounding

/-- The whole number nearest to a rational number that is not negative. -/
def nearest (mode : Rounding) (x : ℚ) : ℕ :=
  match mode with
  | halfUp => ⌊x + 1 / 2⌋₊
  | halfEven => if x = ⌊x⌋₊ + 1 / 2 ∧ ⌊x⌋₊ % 2 = 0 then ⌊x⌋₊ else ⌊x + 1 / 2⌋₊

/-- A division with remainder, shifted by half its divisor. -/
private theorem shifted_div (n : ℕ) {d : ℕ} (hd : 0 < d) :
    (2 * n + d) / (2 * d) = if d ≤ 2 * (n % d) then n / d + 1 else n / d := by
  have hlt := Nat.mod_lt n hd
  have hdecomp : 2 * n + d = 2 * (n % d) + d + 2 * d * (n / d) := by
    have h := Nat.div_add_mod n d
    nlinarith
  rw [hdecomp, Nat.add_mul_div_left _ _ (by omega)]
  split_ifs with h
  · rw [Nat.div_eq_of_lt_le (k := 1) (by omega) (by omega)]
    omega
  · rw [Nat.div_eq_of_lt (by omega)]
    omega

private theorem floor_div_add_half (n : ℕ) {d : ℕ} (hd : 0 < d) :
    ⌊(n : ℚ) / d + 1 / 2⌋₊ = if d ≤ 2 * (n % d) then n / d + 1 else n / d := by
  have hcast : (n : ℚ) / d + 1 / 2 = ((2 * n + d : ℕ) : ℚ) / ((2 * d : ℕ) : ℚ) := by
    have hd' : (d : ℚ) ≠ 0 := by exact_mod_cast hd.ne'
    push_cast
    field_simp
  rw [hcast, Nat.floor_div_eq_div, shifted_div n hd]

/-- A fraction lies halfway between two whole numbers when twice its remainder is the divisor. -/
private theorem div_eq_half_iff (n : ℕ) {d : ℕ} (hd : 0 < d) :
    (n : ℚ) / d = (n / d : ℕ) + 1 / 2 ↔ d = 2 * (n % d) := by
  have hd' : (d : ℚ) ≠ 0 := by exact_mod_cast hd.ne'
  have hdecomp : (n : ℚ) = d * (n / d : ℕ) + (n % d : ℕ) := by
    exact_mod_cast (Nat.div_add_mod n d).symm
  have hquot : (n : ℚ) / d = (n / d : ℕ) + (n % d : ℕ) / d := by
    rw [div_eq_iff hd', add_mul, div_mul_cancel₀ _ hd']
    linarith
  rw [hquot, add_right_inj, div_eq_div_iff hd' (by norm_num)]
  constructor
  · intro h
    have h' : (n % d) * 2 = 1 * d := by exact_mod_cast h
    omega
  · intro h
    have h' : (n % d) * 2 = 1 * d := by omega
    exact_mod_cast h'

/-- **Quotients.** Rounding a quotient is rounding the fraction that it stands for. -/
theorem quotient_eq_nearest (mode : Rounding) (n : ℕ) {d : ℕ} (hd : 0 < d) :
    mode.quotient n d = mode.nearest (n / d) := by
  cases mode with
  | halfUp =>
    rw [nearest, floor_div_add_half n hd]
    simp only [quotient, carries, decide_eq_true_eq]
  | halfEven =>
    rw [nearest, floor_div_add_half n hd, Nat.floor_div_eq_div]
    simp only [div_eq_half_iff n hd, quotient, carries, Bool.or_eq_true, Bool.and_eq_true,
      decide_eq_true_eq, beq_iff_eq]
    split_ifs <;> omega

/-- A rounded number exceeds the number by at most a half. -/
theorem nearest_sub_half_le (mode : Rounding) {x : ℚ} (hx : 0 ≤ x) :
    (mode.nearest x : ℚ) - 1 / 2 ≤ x := by
  have hup : (⌊x + 1 / 2⌋₊ : ℚ) ≤ x + 1 / 2 := Nat.floor_le (by linarith)
  cases mode with
  | halfUp => rw [nearest]; linarith
  | halfEven =>
    have hdown : (⌊x⌋₊ : ℚ) ≤ x := Nat.floor_le hx
    rw [nearest]
    split_ifs <;> linarith

/-- A rounded number falls short of the number by at most a half. -/
theorem le_nearest_add_half (mode : Rounding) (x : ℚ) : x ≤ mode.nearest x + 1 / 2 := by
  have hup : x + 1 / 2 < (⌊x + 1 / 2⌋₊ : ℚ) + 1 := Nat.lt_floor_add_one _
  cases mode with
  | halfUp => rw [nearest]; linarith
  | halfEven =>
    rw [nearest]
    split_ifs with h
    · exact h.1.le
    · linarith

/-- Rounding is monotone: two numbers in the wrong order after rounding would both lie halfway
between the same neighbours. -/
theorem nearest_mono (mode : Rounding) {x y : ℚ} (hx : 0 ≤ x) (hxy : x ≤ y) :
    mode.nearest x ≤ mode.nearest y := by
  by_contra hlt
  have hsucc : (mode.nearest y : ℚ) + 1 ≤ mode.nearest x := by exact_mod_cast not_le.1 hlt
  have h1 := mode.nearest_sub_half_le hx
  have h2 := mode.le_nearest_add_half y
  have heq : x = y := le_antisymm hxy (by linarith)
  rw [heq] at hlt
  exact hlt le_rfl

/-- A number closer than a half to a whole number is rounded to that number. -/
theorem nearest_eq_of_abs_sub_lt (mode : Rounding) {x : ℚ} {n : ℕ} (hx : 0 ≤ x)
    (h : |x - n| < 1 / 2) : mode.nearest x = n := by
  obtain ⟨hlow, hhigh⟩ := abs_lt.1 h
  have h1 := mode.nearest_sub_half_le hx
  have h2 := mode.le_nearest_add_half x
  have hle : mode.nearest x < n + 1 := by
    have : (mode.nearest x : ℚ) < n + 1 := by linarith
    exact_mod_cast this
  have hge : n < mode.nearest x + 1 := by
    have : (n : ℚ) < mode.nearest x + 1 := by linarith
    exact_mod_cast this
  omega

/-- Rounding fixes whole numbers. -/
@[simp] theorem nearest_natCast (mode : Rounding) (n : ℕ) : mode.nearest n = n :=
  mode.nearest_eq_of_abs_sub_lt (Nat.cast_nonneg n) (by norm_num)

@[simp] theorem nearest_zero (mode : Rounding) : mode.nearest 0 = 0 := by
  simpa using mode.nearest_natCast 0

/-- A number up to a whole number is rounded to at most that number. -/
theorem nearest_le_of_le (mode : Rounding) {x : ℚ} {n : ℕ} (hx : 0 ≤ x) (h : x ≤ n) :
    mode.nearest x ≤ n := by
  simpa using mode.nearest_mono hx h

/-- A number from a whole number on is rounded to at least that number. -/
theorem le_nearest_of_le (mode : Rounding) {x : ℚ} {n : ℕ} (h : (n : ℚ) ≤ x) :
    n ≤ mode.nearest x := by
  simpa using mode.nearest_mono (by positivity) h

/-- Rounding at most doubles a number: what is rounded up is a half at least. -/
theorem nearest_le_two_mul (mode : Rounding) {x : ℚ} (hx : 0 ≤ x) :
    (mode.nearest x : ℚ) ≤ 2 * x := by
  rcases lt_or_ge x (1 / 2) with hsmall | hlarge
  · have hzero : mode.nearest x = 0 :=
      mode.nearest_eq_of_abs_sub_lt hx (by simpa [abs_of_nonneg hx] using hsmall)
    rw [hzero, Nat.cast_zero]
    linarith
  · have hround := mode.nearest_sub_half_le hx
    linarith

/-- Rounding with ties upward commutes with adding a whole number. -/
theorem nearest_halfUp_add_natCast {x : ℚ} (hx : 0 ≤ x) (n : ℕ) :
    halfUp.nearest (x + n) = halfUp.nearest x + n := by
  rw [nearest, nearest, add_right_comm, Nat.floor_add_natCast (by linarith)]

end Rounding

/-! ### Numbers of limited precision -/

namespace Precision

variable {p : Precision} {x y r : ℚ}

/-- The exponent of the last place that a positive number keeps. -/
def place (p : Precision) (x : ℚ) : ℤ := max (Int.log 10 x - (p.digits - 1)) p.leastExponent

/-- The number of the precision's digits nearest to a number that is not negative. -/
def nearest (p : Precision) (x : ℚ) : ℚ :=
  p.rounding.nearest (x / 10 ^ p.place x) * 10 ^ p.place x

/-- The numbers that a precision represents: its digits, or ten to their number, in units from its
least exponent on. -/
def Represents (p : Precision) (x : ℚ) : Prop :=
  ∃ (m : ℕ) (e : ℤ), m ≤ 10 ^ p.digits ∧ p.leastExponent ≤ e ∧ x = m * 10 ^ e

private theorem ten_zpow_pos (e : ℤ) : (0 : ℚ) < 10 ^ e := by positivity

private theorem ten_zpow_add (a b : ℤ) : (10 : ℚ) ^ (a + b) = 10 ^ a * 10 ^ b :=
  zpow_add₀ (by norm_num) a b

private theorem zpow_log_le (hx : 0 < x) : (10 : ℚ) ^ Int.log 10 x ≤ x := by
  simpa using Int.zpow_log_le_self (b := 10) (by norm_num) hx

private theorem lt_zpow_log_succ (x : ℚ) : x < (10 : ℚ) ^ (Int.log 10 x + 1) := by
  simpa using Int.lt_zpow_succ_log_self (b := 10) (by norm_num) x

theorem place_mono (hx : 0 < x) (hxy : x ≤ y) : p.place x ≤ p.place y :=
  max_le_max (by have := Int.log_mono_right (b := 10) hx hxy; omega) le_rfl

/-- A number below a power of ten keeps a place that many digits below it. -/
theorem place_le (hx : 0 < x) {k : ℤ} (hk : p.leastExponent ≤ k)
    (h : x < 10 ^ (k + p.digits)) : p.place x ≤ k := by
  have hlog : Int.log 10 x < k + p.digits :=
    (Int.lt_zpow_iff_log_lt (b := 10) (by norm_num) hx).1 (by simpa using h)
  exact max_le (by omega) hk

/-- A number from a power of ten on keeps no place more than its digits below it. -/
theorem le_place {k : ℤ} (h : (10 : ℚ) ^ (k + p.digits - 1) ≤ x) : k ≤ p.place x := by
  have hpos : 0 < x := (ten_zpow_pos _).trans_le h
  have hlog : k + p.digits - 1 ≤ Int.log 10 x :=
    (Int.zpow_le_iff_le_log (b := 10) (by norm_num) hpos).1 (by simpa using h)
  exact le_max_of_le_left (by omega)

@[simp] theorem nearest_zero (p : Precision) : p.nearest 0 = 0 := by
  simp [nearest]

theorem nearest_nonneg (p : Precision) (x : ℚ) : 0 ≤ p.nearest x :=
  mul_nonneg (by positivity) (ten_zpow_pos _).le

/-- A number is below ten to the digits in units of its last place. -/
private theorem div_place_lt (p : Precision) (x : ℚ) :
    x / 10 ^ p.place x < 10 ^ p.digits := by
  rw [div_lt_iff₀ (ten_zpow_pos _), ← zpow_natCast, ← ten_zpow_add]
  refine (lt_zpow_log_succ x).trans_le (zpow_le_zpow_right₀ (by norm_num) ?_)
  have : Int.log 10 x - (p.digits - 1) ≤ p.place x := le_max_left _ _
  omega

/-- What rounding yields is represented. -/
theorem represents_nearest (p : Precision) (hx : 0 < x) : p.Represents (p.nearest x) := by
  refine ⟨p.rounding.nearest (x / 10 ^ p.place x), p.place x, ?_, le_max_right _ _, rfl⟩
  have hdiv : 0 ≤ x / 10 ^ p.place x := (div_pos hx (ten_zpow_pos _)).le
  refine p.rounding.nearest_le_of_le hdiv ?_
  push_cast
  exact (div_place_lt p x).le

/-- In units from the place on, a whole number above `x` is above its rounding too. -/
private theorem nearest_le_of_place_le (hx : 0 < x) {m : ℕ} {e : ℤ} (he : p.place x ≤ e)
    (h : x ≤ m * 10 ^ e) : p.nearest x ≤ m * 10 ^ e := by
  obtain ⟨k, rfl⟩ := Int.le.dest he
  rw [ten_zpow_add, mul_comm (10 ^ p.place x : ℚ), ← mul_assoc] at h ⊢
  refine mul_le_mul_of_nonneg_right ?_ (ten_zpow_pos _).le
  rw [← div_le_iff₀ (ten_zpow_pos _), zpow_natCast] at h
  have hnear := p.rounding.nearest_le_of_le (n := m * 10 ^ k)
    (div_pos hx (ten_zpow_pos _)).le (by exact_mod_cast h)
  exact_mod_cast hnear

/-- In units from the place on, a whole number below `x` is below its rounding too. -/
private theorem le_nearest_of_place_le {m : ℕ} {e : ℤ} (he : p.place x ≤ e)
    (h : m * 10 ^ e ≤ x) : m * 10 ^ e ≤ p.nearest x := by
  obtain ⟨k, rfl⟩ := Int.le.dest he
  rw [ten_zpow_add, mul_comm (10 ^ p.place x : ℚ), ← mul_assoc] at h ⊢
  refine mul_le_mul_of_nonneg_right ?_ (ten_zpow_pos _).le
  rw [← le_div_iff₀ (ten_zpow_pos _), zpow_natCast] at h
  have hnear := p.rounding.le_nearest_of_le (n := m * 10 ^ k) (by exact_mod_cast h)
  exact_mod_cast hnear

/-- **Few digits.** Rounding fixes what is written without places beyond the last one kept. -/
theorem nearest_of_place_le {m : ℕ} {e : ℤ} (hm : 0 < m) (h : p.place (m * 10 ^ e) ≤ e) :
    p.nearest (m * 10 ^ e) = m * 10 ^ e := by
  have hpos : (0 : ℚ) < m * 10 ^ e := by positivity
  exact le_antisymm (nearest_le_of_place_le hpos h le_rfl) (le_nearest_of_place_le h le_rfl)

/-- The leading power of ten of a number is at most the number's rounding. -/
private theorem zpow_log_le_nearest (hp : 0 < p.digits) (hx : 0 < x)
    (h : p.leastExponent ≤ Int.log 10 x) : (10 : ℚ) ^ Int.log 10 x ≤ p.nearest x := by
  have hplace : p.place x ≤ Int.log 10 x := max_le (by omega) h
  simpa using le_nearest_of_place_le (m := 1) hplace (by simpa using zpow_log_le hx)

/-- Only a number away from the least exponents has a place above an exponent that is in range. -/
private theorem place_eq_of_lt {e : ℤ} (he : p.leastExponent ≤ e) (hlt : e < p.place x) :
    p.place x = Int.log 10 x - (p.digits - 1) := by
  rcases max_choice (Int.log 10 x - (p.digits - 1)) p.leastExponent with hmax | hmax
  · exact hmax
  · exact absurd (hmax ▸ hlt : e < p.leastExponent) (not_lt.2 he)

/-- In units finer than its place, the digits do not reach beyond the leading power of ten. -/
private theorem mul_zpow_le_of_lt_place {m : ℕ} {e : ℤ} (hm : m ≤ 10 ^ p.digits)
    (he : p.leastExponent ≤ e) (hlt : e < p.place x) : (m : ℚ) * 10 ^ e ≤ 10 ^ Int.log 10 x := by
  have hplace := place_eq_of_lt he hlt
  calc (m : ℚ) * 10 ^ e ≤ 10 ^ (p.digits : ℤ) * 10 ^ e := by
        refine mul_le_mul_of_nonneg_right ?_ (ten_zpow_pos e).le
        exact_mod_cast hm
    _ = 10 ^ ((p.digits : ℤ) + e) := (ten_zpow_add _ _).symm
    _ ≤ 10 ^ Int.log 10 x := zpow_le_zpow_right₀ (by norm_num) (by omega)

/-- **Lower bound.** What is represented and at most a number is at most its rounding. -/
theorem le_nearest (hp : 0 < p.digits) (hx : 0 ≤ x) (hr : p.Represents r) (h : r ≤ x) :
    r ≤ p.nearest x := by
  rcases hx.eq_or_lt with rfl | hx
  · rwa [nearest_zero]
  obtain ⟨m, e, hm, he, rfl⟩ := hr
  rcases le_or_gt (p.place x) e with hplace | hplace
  · exact le_nearest_of_place_le hplace h
  · have hlog := place_eq_of_lt he hplace
    exact (mul_zpow_le_of_lt_place hm he hplace).trans (zpow_log_le_nearest hp hx (by omega))

/-- **Upper bound.** What is represented and at least a number is at least its rounding. -/
theorem nearest_le (hp : 0 < p.digits) (hx : 0 ≤ x) (hr : p.Represents r) (h : x ≤ r) :
    p.nearest x ≤ r := by
  rcases hx.eq_or_lt with rfl | hx
  · rwa [nearest_zero]
  obtain ⟨m, e, hm, he, rfl⟩ := hr
  rcases le_or_gt (p.place x) e with hplace | hplace
  · exact nearest_le_of_place_le hx hplace h
  · -- with a finer unit `r` cannot pass the leading power of ten of `x`, so the two are equal
    have hlog := place_eq_of_lt he hplace
    have heq : (m : ℚ) * 10 ^ e = 10 ^ Int.log 10 x :=
      le_antisymm (mul_zpow_le_of_lt_place hm he hplace) ((zpow_log_le hx).trans h)
    rw [heq] at h ⊢
    simpa using nearest_le_of_place_le (m := 1) (e := Int.log 10 x) hx (by omega) (by simpa using h)

/-- Rounding does not carry a number beyond a power of ten above it. -/
theorem nearest_le_zpow (hp : 0 < p.digits) (hx : 0 ≤ x) {k : ℤ} (hk : p.leastExponent ≤ k)
    (h : x ≤ 10 ^ k) : p.nearest x ≤ 10 ^ k :=
  nearest_le hp hx ⟨1, k, Nat.one_le_pow _ _ (by norm_num), hk, by simp⟩ h

/-- **Exactness.** Rounding fixes what is represented. -/
theorem nearest_of_represents (hp : 0 < p.digits) (hx : 0 ≤ x) (hr : p.Represents x) :
    p.nearest x = x :=
  le_antisymm (nearest_le hp hx hr le_rfl) (le_nearest hp hx hr le_rfl)

/-- **Monotonicity.** Numbers with one last place are compared as whole numbers; otherwise the
leading power of ten of the larger one stands between them. -/
theorem nearest_mono (hp : 0 < p.digits) (hx : 0 ≤ x) (hxy : x ≤ y) :
    p.nearest x ≤ p.nearest y := by
  rcases hx.eq_or_lt with rfl | hx
  · rw [nearest_zero]
    exact nearest_nonneg p y
  have hy : 0 < y := hx.trans_le hxy
  rcases (place_mono (p := p) hx hxy).eq_or_lt with heq | hlt
  · rw [nearest, nearest, heq]
    refine mul_le_mul_of_nonneg_right ?_ (ten_zpow_pos _).le
    have hdiv : x / 10 ^ p.place y ≤ y / 10 ^ p.place y :=
      div_le_div_of_nonneg_right hxy (ten_zpow_pos _).le
    exact_mod_cast p.rounding.nearest_mono (div_pos hx (ten_zpow_pos _)).le hdiv
  · have hleast : p.leastExponent ≤ p.place x := le_max_right _ _
    have hlog := place_eq_of_lt hleast hlt
    have hxlog : Int.log 10 x < Int.log 10 y := by
      have : Int.log 10 x - (p.digits - 1) ≤ p.place x := le_max_left _ _
      omega
    have hsep : x ≤ (10 : ℚ) ^ Int.log 10 y :=
      (lt_zpow_log_succ x).le.trans (zpow_le_zpow_right₀ (by norm_num) (by omega))
    have hrep : p.Represents ((10 : ℚ) ^ Int.log 10 y) :=
      ⟨1, Int.log 10 y, Nat.one_le_pow _ _ (by norm_num), by omega, by simp⟩
    exact (nearest_le hp hx.le hrep hsep).trans (le_nearest hp hy.le hrep (zpow_log_le hy))

/-! ### Errors -/

/-- **Absolute error.** Rounding errs by at most half a unit of the last place. -/
theorem abs_nearest_sub_le (p : Precision) (hx : 0 ≤ x) :
    |p.nearest x - x| ≤ 10 ^ p.place x / 2 := by
  have hu := ten_zpow_pos (p.place x)
  have hdiv : 0 ≤ x / 10 ^ p.place x := div_nonneg hx hu.le
  have h1 := p.rounding.nearest_sub_half_le hdiv
  have h2 := p.rounding.le_nearest_add_half (x / 10 ^ p.place x)
  rw [le_div_iff₀ hu, sub_mul] at h1
  rw [div_le_iff₀ hu, add_mul] at h2
  rw [nearest, abs_le]
  constructor <;> linarith

/-- Rounding at most doubles a number, also where digits are lost to the least exponent. -/
theorem nearest_le_two_mul (p : Precision) (hx : 0 ≤ x) : p.nearest x ≤ 2 * x := by
  have hu := ten_zpow_pos (p.place x)
  have hround := p.rounding.nearest_le_two_mul (div_nonneg hx hu.le)
  rwa [← mul_div_assoc, le_div_iff₀ hu] at hround

/-- The unit of the last place is a small part of a number that is away from the least exponent. -/
private theorem zpow_place_le_mul (hx : (10 : ℚ) ^ (-maxExponent) ≤ x) :
    (10 : ℚ) ^ p.place x ≤ x * 10 ^ (1 - (p.digits : ℤ)) := by
  have hpos : 0 < x := (ten_zpow_pos _).trans_le hx
  have hlog : -maxExponent ≤ Int.log 10 x := by
    rw [← Int.zpow_le_iff_le_log (by norm_num) hpos]
    simpa using hx
  have hplace : p.place x = Int.log 10 x + (1 - p.digits) := by
    rw [place, leastExponent, max_eq_left (by omega)]
    ring
  rw [hplace, ten_zpow_add]
  exact mul_le_mul_of_nonneg_right (zpow_log_le hpos) (ten_zpow_pos _).le

/-- **Relative error.** -/
theorem abs_nearest_sub_le_mul (p : Precision) (hx : (10 : ℚ) ^ (-maxExponent) ≤ x) :
    |p.nearest x - x| ≤ x * 10 ^ (1 - (p.digits : ℤ)) / 2 := by
  have hpos : 0 < x := (ten_zpow_pos _).trans_le hx
  have := p.abs_nearest_sub_le hpos.le
  have := zpow_place_le_mul (p := p) hx
  linarith

/-- **Error.** Rounding errs by a small part of a number, or by half of the least unit. -/
theorem abs_nearest_sub_le_max (p : Precision) (hx : 0 < x) :
    |p.nearest x - x| ≤ max (x * 10 ^ (1 - (p.digits : ℤ))) (10 ^ p.leastExponent) / 2 := by
  have hround := p.abs_nearest_sub_le hx.le
  have hunit : (10 : ℚ) ^ p.place x ≤
      max (x * 10 ^ (1 - (p.digits : ℤ))) (10 ^ p.leastExponent) := by
    rw [place]
    rcases max_choice (Int.log 10 x - (p.digits - 1)) p.leastExponent with h | h
    · refine le_max_of_le_left ?_
      rw [h, sub_eq_add_neg, neg_sub, ten_zpow_add]
      exact mul_le_mul_of_nonneg_right (zpow_log_le hx) (ten_zpow_pos _).le
    · exact le_max_of_le_right (by rw [h])
  linarith

/-- A number is below the unit of its last place once its digits are taken off. -/
private theorem mul_zpow_neg_digits_lt (p : Precision) (x : ℚ) :
    x * 10 ^ (-(p.digits : ℤ)) < 10 ^ p.place x := by
  have hdiv := div_place_lt p x
  rw [div_lt_iff₀ (ten_zpow_pos _)] at hdiv
  rw [zpow_neg, zpow_natCast, ← div_eq_mul_inv, div_lt_iff₀ (by positivity), mul_comm]
  exact hdiv

/-- **Few digits, nearly.** A number that is closer than half a unit of its last place to a number
without further places is rounded to that number. -/
theorem nearest_eq_of_abs_sub_le_mul (hx : 0 ≤ x) {m : ℕ} {e : ℤ} (he : p.place x ≤ e)
    (h : |x - m * 10 ^ e| ≤ x * 10 ^ (-(p.digits : ℤ)) / 2) : p.nearest x = m * 10 ^ e := by
  have hlt := mul_zpow_neg_digits_lt p x
  obtain ⟨k, rfl⟩ := Int.le.dest he
  set u : ℚ := 10 ^ p.place x with hu_def
  have hu : 0 < u := ten_zpow_pos _
  have hdigits : (m : ℚ) * 10 ^ (p.place x + k) = (m * 10 ^ k : ℕ) * u := by
    rw [ten_zpow_add, zpow_natCast, ← hu_def]
    push_cast
    ring
  rw [hdigits] at h ⊢
  have hclose : |x / u - (m * 10 ^ k : ℕ)| < 1 / 2 := by
    rw [div_sub' hu.ne', abs_div, abs_of_pos hu, div_lt_iff₀ hu, mul_comm u]
    linarith
  rw [nearest, ← hu_def, p.rounding.nearest_eq_of_abs_sub_lt (div_nonneg hx hu.le) hclose]

/-- **Slack.** What is represented is reached already from slightly below: from where it is above a
number by less than half a unit of the number's last place. -/
theorem le_nearest_of_le_mul (hp : 0 < p.digits) (hx : 0 < x) (hr : p.Represents r)
    (h : r ≤ x * (1 + 10 ^ (-(p.digits : ℤ)) / 2)) : r ≤ p.nearest x := by
  obtain ⟨m, e, hm, he, rfl⟩ := hr
  set u : ℚ := 10 ^ p.place x with hu_def
  have hu : 0 < u := ten_zpow_pos _
  have hxu : x * 10 ^ (-(p.digits : ℤ)) < u := mul_zpow_neg_digits_lt p x
  rcases le_or_gt (p.place x) e with hplace | hplace
  · obtain ⟨k, rfl⟩ := Int.le.dest hplace
    rw [ten_zpow_add, mul_comm (10 ^ p.place x : ℚ), ← mul_assoc, zpow_natCast] at h ⊢
    refine mul_le_mul_of_nonneg_right ?_ hu.le
    by_contra hlt
    -- one unit less would leave `x` more than half a unit below `r`
    have hsucc : (p.rounding.nearest (x / u) : ℚ) + 1 ≤ m * 10 ^ k := by
      exact_mod_cast not_le.1 hlt
    have hnear := p.rounding.le_nearest_add_half (x / u)
    rw [div_le_iff₀ hu] at hnear
    have hsucc' := mul_le_mul_of_nonneg_right hsucc hu.le
    linarith
  · have hlog := place_eq_of_lt he hplace
    exact (mul_zpow_le_of_lt_place hm he hplace).trans (zpow_log_le_nearest hp hx (by omega))

end Precision

end Settlement
