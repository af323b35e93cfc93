/-!
# Powers of ten and of two

Decimal numerals are scaled by powers of ten, binary ones by powers of two. `pow10` and `pow2` take
a natural exponent. Powers of ten are positive and grow with the exponent, and turn sums of exponents
into products (`pow10_add`).
-/

namespace Settlement

/-- Ten to the power of `n`. -/
def pow10 (n : Nat) : Nat := Nat.pow 10 n

/-- Two to the power of `n`. -/
def pow2 (n : Nat) : Nat := Nat.pow 2 n

@[simp] theorem pow10_zero : pow10 0 = 1 := rfl

theorem pow10_succ (n : Nat) : pow10 (n + 1) = pow10 n * 10 := Nat.pow_succ ..

theorem pow10_pos (n : Nat) : 0 < pow10 n := Nat.pow_pos (by omega)

theorem pow10_add (m n : Nat) : pow10 (m + n) = pow10 m * pow10 n := Nat.pow_add ..

theorem pow10_le_pow10 {m n : Nat} (h : m ≤ n) : pow10 m ≤ pow10 n :=
  Nat.pow_le_pow_right (by omega) h

theorem lt_pow10 (n : Nat) : n < pow10 n := Nat.lt_pow_self (by omega)

end Settlement
