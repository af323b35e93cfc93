import Settlement.Power

/-!
# Rounding of quotients

`Rounding.quotient mode n d` is the whole number nearest to `n / d`; a tie goes up or to the even
neighbour, as the mode says. `digitCount` measures numbers by their decimal digits:
`lt_pow10_digitCount` and `pow10_digitCount_le` bound a number by powers of ten on both sides.
-/

namespace Settlement

/-- What becomes of a tie between two neighbours. -/
inductive Rounding where
  /-- A tie goes to the larger neighbour. -/
  | halfUp
  /-- A tie goes to the even neighbour. -/
  | halfEven
  deriving DecidableEq

namespace Rounding

/-- Whether a quotient that leaves `remainder` over `divisor` goes to the larger neighbour. -/
def carries (mode : Rounding) (quotient remainder divisor : Nat) : Bool :=
  match mode with
  | halfUp => divisor ≤ 2 * remainder
  | halfEven => divisor < 2 * remainder || (divisor == 2 * remainder && quotient % 2 == 1)

/-- The whole number nearest to `n / d`. -/
def quotient (mode : Rounding) (n d : Nat) : Nat :=
  if mode.carries (n / d) (n % d) d then n / d + 1 else n / d

end Rounding

/-! ### Counting digits -/

/-- The first exponent from `d` on whose power of ten is above `n`. -/
def powerAbove (n d : Nat) : Nat :=
  if n < pow10 d then d else powerAbove n (d + 1)
termination_by n - d
decreasing_by
  have := lt_pow10 d
  omega

/-- The number of decimal digits; zero is written with one. The search starts just below the
answer, at the digits of the power of two that fits into the number. -/
def digitCount (n : Nat) : Nat := powerAbove n (n.log2 * 59 / 196 + 1)

private theorem lt_pow10_powerAbove (n d : Nat) : n < pow10 (powerAbove n d) := by
  fun_induction powerAbove n d with
  | case1 d h => exact h
  | case2 d _ ih => exact ih

private theorem powerAbove_eq_or (n d : Nat) :
    powerAbove n d = d ∨ pow10 (powerAbove n d - 1) ≤ n := by
  fun_induction powerAbove n d with
  | case1 d _ => exact .inl rfl
  | case2 d h ih =>
    refine .inr ?_
    rcases ih with h' | h'
    · rw [h']; simpa using h
    · exact h'

private theorem le_powerAbove (n d : Nat) : d ≤ powerAbove n d := by
  fun_induction powerAbove n d <;> omega

/-- Ten to the power `59 / 196` is below two. -/
private theorem pow10_scaled_le (k : Nat) : pow10 (k * 59 / 196) ≤ pow2 k := by
  have hbase : (10 : Nat) ^ 59 ≤ 2 ^ 196 := by decide
  have h : (10 ^ (k * 59 / 196)) ^ 196 ≤ (2 ^ k) ^ 196 :=
    calc (10 ^ (k * 59 / 196)) ^ 196 = 10 ^ (k * 59 / 196 * 196) := by rw [Nat.pow_mul]
      _ ≤ 10 ^ (59 * k) := Nat.pow_le_pow_right (by omega) (by omega)
      _ = (10 ^ 59) ^ k := Nat.pow_mul ..
      _ ≤ (2 ^ 196) ^ k := Nat.pow_le_pow_left hbase k
      _ = (2 ^ k) ^ 196 := by rw [← Nat.pow_mul, ← Nat.pow_mul, Nat.mul_comm]
  exact (Nat.pow_le_pow_iff_left (by omega)).1 h

/-- A number is below the power of ten with as many zeros as it has digits. -/
theorem lt_pow10_digitCount (n : Nat) : n < pow10 (digitCount n) := lt_pow10_powerAbove ..

theorem digitCount_pos (n : Nat) : 0 < digitCount n :=
  Nat.lt_of_lt_of_le (by omega) (le_powerAbove ..)

/-- A positive number reaches the power of ten with one zero less than it has digits. -/
theorem pow10_digitCount_le {n : Nat} (hn : 0 < n) : pow10 (digitCount n - 1) ≤ n := by
  rcases powerAbove_eq_or n (n.log2 * 59 / 196 + 1) with h | h
  · rw [digitCount, h, Nat.add_sub_cancel]
    exact Nat.le_trans (pow10_scaled_le _) (Nat.log2_self_le (by omega))
  · exact h

/-- The exponent of the leading digit of `n / d`, for positive `n` and `d`. -/
def quotientLeading (n d : Nat) : Int :=
  let shift : Int := (digitCount n : Int) - digitCount d
  if n * pow10 (-shift).toNat < d * pow10 shift.toNat then shift - 1 else shift

end Settlement
