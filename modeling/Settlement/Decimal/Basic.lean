import Settlement.Decimal.Rounding

/-!
# Decimal numbers

A `Decimal` is a numeral `± coefficient · 10 ^ exponent`. Numerals with different exponents may
have one value: `4.50` and `4.5` are different numerals, and both are kept as they are written.

A `Numeric` is what a numeral may denote besides a number: an infinity, or no number at all.
-/

namespace Settlement

/-- The numeral `± coefficient · 10 ^ exponent`. -/
structure Decimal where
  negative : Bool
  coefficient : Nat
  exponent : Int
  deriving DecidableEq

namespace Decimal

/-- The whole number `n`. -/
def ofInt (n : Int) : Decimal := ⟨n < 0, n.natAbs, 0⟩

/-- The whole number `n`. -/
def ofNat (n : Nat) : Decimal := ⟨false, n, 0⟩

/-- A number of hundredths, written with two places. -/
def ofHundredths (n : Int) : Decimal := ⟨n < 0, n.natAbs, -2⟩

/-- The numeral with the opposite sign. -/
def neg (x : Decimal) : Decimal := { x with negative := !x.negative }

def isZero (x : Decimal) : Bool := x.coefficient == 0

/-- Numbers below zero; zero is not one of them, whatever its sign. -/
def isNegative (x : Decimal) : Bool := x.negative && x.coefficient != 0

/-- The exponent of the leading digit in scientific notation. -/
def leading (x : Decimal) : Int := x.exponent + digitCount x.coefficient - 1

/-- The number counted in units of `10 ^ e`, for an `e` up to the exponent. -/
def scaled (x : Decimal) (e : Int) : Int :=
  let magnitude := x.coefficient * pow10 (x.exponent - e).toNat
  if x.negative then -(magnitude : Int) else magnitude

/-- The order of values: `x ≤ y`, both counted in the smaller of their units. -/
def le (x y : Decimal) : Bool :=
  let e := min x.exponent y.exponent
  x.scaled e ≤ y.scaled e

/-- The nearest number of hundredths to the magnitude of a decimal, a tie going up; none where it
would take more than `digits` digits. -/
def hundredths? (digits : Nat) (x : Decimal) : Option Nat :=
  if x.isZero then some 0
  else if (digits : Int) ≤ x.leading + 2 then none
  else if x.leading < -3 then some 0
  else
    let n := Rounding.halfUp.quotient (x.coefficient * pow10 (x.exponent + 2).toNat)
      (pow10 (-(x.exponent + 2)).toNat)
    if n < pow10 digits then some n else none

/-- Numbers of hundredths stay within the digits they may take. -/
theorem hundredths?_lt {digits n : Nat} {x : Decimal} (h : x.hundredths? digits = some n) :
    n < pow10 digits := by
  unfold hundredths? at h
  have hpos := pow10_pos digits
  split at h
  · cases h; exact hpos
  · split at h
    · cases h
    · split at h
      · cases h; exact hpos
      · dsimp only at h
        split at h
        · rename_i hn; cases h; exact hn
        · cases h

end Decimal

/-- What a numeral denotes: a decimal number, an infinity, or no number. The last is quiet or
signaling, and may carry a diagnostic payload. -/
inductive Numeric where
  | finite (x : Decimal)
  | infinite (negative : Bool)
  | undefined (negative signaling : Bool) (payload : Nat)
  deriving DecidableEq

namespace Numeric

/-- The number that a numeral denotes, if it denotes one. -/
def finite? : Numeric → Option Decimal
  | .finite x => some x
  | _ => none

/-- Whether a numeral denotes zero. -/
def isZero : Numeric → Bool
  | .finite x => x.isZero
  | _ => false

end Numeric

end Settlement
