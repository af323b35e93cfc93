import Settlement.Decimal.Basic

/-!
# Arithmetic of limited precision

An operation on decimals yields the exact result when that fits into the digits of a `Precision`,
and else the exact result rounded once to that many digits. Exponents of leading digits reach from
-999999 to 999999: below, a result is rounded to the last place that is left; above, the operation
fails.

Two precisions are in use. `Precision.working` divides, with ten digits and ties upward;
`Precision.exact` carries everything else, with twenty-eight digits and ties to the even neighbour.
-/

namespace Settlement

/-- Why an operation has no result. -/
inductive Trap where
  /-- The operation is not defined for its operands. -/
  | invalidOperation
  /-- A number other than zero is divided by zero. -/
  | divisionByZero
  /-- The result is beyond the largest exponent. -/
  | overflow
  deriving DecidableEq

/-- How many digits a result keeps and how it is rounded to them. -/
structure Precision where
  digits : Nat
  rounding : Rounding
  deriving DecidableEq

/-- The largest exponent of a leading digit; the least is its negative. -/
def maxExponent : Int := 999999

namespace Precision

/-- Ten digits, ties upward: quotients and proportional shares. -/
def working : Precision := ⟨10, .halfUp⟩

/-- Twenty-eight digits, ties to even: products, differences and counts of cents. -/
def exact : Precision := ⟨28, .halfEven⟩

/-- The exponent of the last place that any result can have. -/
def leastExponent (p : Precision) : Int := -maxExponent - (p.digits - 1)

/-- The exponent of a zero, brought into range. -/
def zeroExponent (p : Precision) (e : Int) : Int := max p.leastExponent (min e maxExponent)

/-- The exponent of the last place that a result `n / d · 10 ^ k` keeps. -/
def lastPlace (p : Precision) (n d : Nat) (k : Int) : Int :=
  max (quotientLeading n d + k - (p.digits - 1)) p.leastExponent

/-- The number of units of `10 ^ e` nearest to `n / d · 10 ^ k`. -/
def unitsAt (p : Precision) (n d : Nat) (k e : Int) : Nat :=
  if quotientLeading n d + k + 1 < e then 0
  else p.rounding.quotient (n * pow10 (k - e).toNat) (d * pow10 (e - k).toNat)

/-- A result, unless its leading digit is beyond the largest exponent. -/
def checked (x : Decimal) : Except Trap Decimal :=
  if maxExponent < x.leading then .error .overflow else .ok x

/-- The value `± n / d · 10 ^ k` rounded to the last place it keeps, for positive `n` and `d`. A
carry into one digit more moves the exponent instead. -/
def rounded (p : Precision) (negative : Bool) (n d : Nat) (k : Int) : Decimal :=
  let e := p.lastPlace n d k
  let c := p.unitsAt n d k e
  if c = pow10 p.digits then ⟨negative, pow10 (p.digits - 1), e + 1⟩ else ⟨negative, c, e⟩

/-- A numeral that keeps its digits if they are few enough, and is rounded otherwise. -/
def fit (p : Precision) (x : Decimal) : Except Trap Decimal :=
  if x.isZero then .ok { x with exponent := p.zeroExponent x.exponent }
  else if p.lastPlace x.coefficient 1 x.exponent ≤ x.exponent then checked x
  else checked (p.rounded x.negative x.coefficient 1 x.exponent)

/-- The product of two decimals. -/
def multiply (p : Precision) (x y : Decimal) : Except Trap Decimal :=
  p.fit ⟨x.negative != y.negative, x.coefficient * y.coefficient, x.exponent + y.exponent⟩

/-- The difference of two decimals. -/
def subtract (p : Precision) (x y : Decimal) : Except Trap Decimal :=
  if y.isZero then p.fit x
  else if x.isZero then p.fit y.neg
  else
    let e := min x.exponent y.exponent
    let difference := x.scaled e - y.scaled e
    p.fit ⟨difference < 0, difference.natAbs, e⟩

/-- Drops up to `most` zeros from the end of a positive number, and counts those that are left to
drop. -/
def dropZeros (most n : Nat) : Nat × Nat :=
  match most with
  | 0 => (n, 0)
  | m + 1 => if n % 10 = 0 then dropZeros m (n / 10) else (n, m + 1)

/-- The quotient of two decimals. An exact quotient is written with as few zeros at its end as the
difference of the exponents asks for. -/
def divide (p : Precision) (x y : Decimal) : Except Trap Decimal :=
  let negative := x.negative != y.negative
  let ideal := x.exponent - y.exponent
  if y.isZero then .error (if x.isZero then .invalidOperation else .divisionByZero)
  else if x.isZero then .ok ⟨negative, 0, p.zeroExponent ideal⟩
  else
    let q := p.rounded negative x.coefficient y.coefficient ideal
    let isExact := q.coefficient * y.coefficient * pow10 (q.exponent - ideal).toNat ==
      x.coefficient * pow10 (ideal - q.exponent).toNat
    if isExact && q.coefficient != 0 then
      let (c, left) := dropZeros (ideal - q.exponent).toNat q.coefficient
      checked ⟨negative, c, if q.exponent < ideal then ideal - left else q.exponent⟩
    else checked q

/-- A payload cut to the digits of the precision: its last ones are kept. -/
def cutPayload (p : Precision) (negative : Bool) (payload : Nat) : Numeric :=
  .undefined negative false (payload % pow10 p.digits)

/-- The quotient of what two numerals denote. A quiet operand that is no number is passed on, the
dividend first; a signaling one makes the operation invalid. -/
def divideNumeric (p : Precision) : Numeric → Numeric → Except Trap Numeric
  | .undefined _ true _, _ => .error .invalidOperation
  | _, .undefined _ true _ => .error .invalidOperation
  | .undefined s false payload, _ => .ok (p.cutPayload s payload)
  | _, .undefined s false payload => .ok (p.cutPayload s payload)
  | .infinite _, .infinite _ => .error .invalidOperation
  | .infinite s, .finite y => .ok (.infinite (s != y.negative))
  | .finite x, .infinite s => .ok (.finite ⟨x.negative != s, 0, p.leastExponent⟩)
  | .finite x, .finite y => (p.divide x y).map .finite

end Precision

/-- A quotient of ten digits. -/
def workDivide (x y : Numeric) : Except Trap Numeric := Precision.working.divideNumeric x y

end Settlement
