import Settlement.Decimal.Text

/-!
# Binary numbers of 64 bits

Session files may hold numbers that are not whole. They are kept as the nearest binary number of 53
significant bits, and written with the fewest decimal digits that read back as the same number.

`Binary64.ofDecimal` rounds a decimal; `Binary64.shortest` finds the digits. For one, two, and up to
seventeen digits it looks at the two neighbours of the number on that decimal grid, and takes the
first grid that has a point within the interval that rounds to the number.
-/

namespace Settlement

/-- `± mantissa · 2 ^ exponent`, an infinity, or no number. -/
inductive Binary64 where
  | finite (negative : Bool) (mantissa : Nat) (exponent : Int)
  | infinite (negative : Bool)
  | undefined
  deriving DecidableEq

namespace Binary64

def isZero : Binary64 → Bool
  | finite _ mantissa _ => mantissa == 0
  | _ => false

/-- The exponent of the last bit of the smallest numbers. -/
def leastExponent : Int := -1074

/-- The exponent of the last bit of the largest numbers. -/
def largestExponent : Int := 971

/-- The exponent of the leading bit of `n / d`, for positive `n` and `d`. -/
def leadingBit (n d : Nat) : Int :=
  let shift : Int := (n.log2 : Int) - d.log2
  if n * pow2 (-shift).toNat < d * pow2 shift.toNat then shift - 1 else shift

/-- The binary number nearest to `± n / d`, a tie going to the even one. -/
def ofQuotient (negative : Bool) (n d : Nat) : Binary64 :=
  let e := max (leadingBit n d - 52) leastExponent
  let m := Rounding.halfEven.quotient (n * pow2 (-e).toNat) (d * pow2 e.toNat)
  let (m, e) := if m = pow2 53 then (pow2 52, e + 1) else (m, e)
  if largestExponent < e then .infinite negative else .finite negative m e

/-- The binary number nearest to a decimal. -/
def ofDecimal (x : Decimal) : Binary64 :=
  if x.isZero || x.leading < -400 then .finite x.negative 0 0
  else if 400 < x.leading then .infinite x.negative
  else
    ofQuotient x.negative (x.coefficient * pow10 x.exponent.toNat) (pow10 (-x.exponent).toNat)

/-- The binary number nearest to what a numeral denotes. -/
def ofNumeric : Numeric → Binary64
  | .finite x => ofDecimal x
  | .infinite negative => .infinite negative
  | .undefined .. => .undefined

/-! ### Shortest decimal -/

/-- The interval of values that round to `m · 2 ^ e`, and the value itself, all counted in quarters
of the last bit; the ends belong to it for an even `m`. -/
structure Cell where
  low : Nat
  value : Nat
  high : Nat
  closed : Bool

/-- The cell of `m · 2 ^ e`. The gap below a power of two is half as wide as the one above. -/
def cell (m : Nat) (e : Int) : Cell where
  low := if m = pow2 52 && leastExponent < e then 4 * m - 1 else 4 * m - 2
  value := 4 * m
  high := 4 * m + 2
  closed := m % 2 == 0

/-- The better of the two grid points `c` and `c + 1` that surround a value, if one is in its cell.
All are compared as `c * step` against quarters times `unit`; a tie goes to the even point. -/
def gridPoint? (k : Cell) (unit step : Nat) : Option Nat :=
  let c := k.value * unit / step
  let inside (n : Nat) : Bool :=
    if k.closed then k.low * unit ≤ n * step && n * step ≤ k.high * unit
    else k.low * unit < n * step && n * step < k.high * unit
  let below := k.value * unit - c * step
  let above := (c + 1) * step - k.value * unit
  if inside c && inside (c + 1) then
    some (if below < above || (below == above && c % 2 == 0) then c else c + 1)
  else if inside c then some c
  else if inside (c + 1) then some (c + 1)
  else none

/-- The first grid, from `digits` digits on and for at most `tries` more, with a point in the cell
of `m · 2 ^ e`: the point and the exponent of its last digit. -/
def searchGrid (m : Nat) (e : Int) (leading : Int) (digits tries : Nat) : Nat × Int :=
  let q := leading - digits + 1
  let unit := pow2 (e - 2).toNat * pow10 (-q).toNat
  let step := pow2 (2 - e).toNat * pow10 q.toNat
  match gridPoint? (cell m e) unit step, tries with
  | some c, _ => (c, q)
  | none, 0 => (4 * m * unit / step, q)
  | none, t + 1 => searchGrid m e leading (digits + 1) t

/-- A coefficient without the zeros at its end, of which there are at most `most`, and the exponent
that belongs to it. -/
def withoutZeros (most c : Nat) (q : Int) : Nat × Int :=
  match most with
  | 0 => (c, q)
  | n + 1 => if c % 10 = 0 then withoutZeros n (c / 10) (q + 1) else (c, q)

/-- The shortest decimal that reads back as `± m · 2 ^ e`, for a positive `m`. -/
def shortest (negative : Bool) (m : Nat) (e : Int) : Decimal :=
  let leading := quotientLeading (m * pow2 e.toNat) (pow2 (-e).toNat)
  let (c, q) := searchGrid m e leading 1 16
  let (c, q) := withoutZeros 18 c q
  ⟨negative, c, q⟩

/-- A decimal without zeros at its end, written positionally from the fourth place behind the point
to the sixteenth before it, always with a point; and otherwise with an exponent of two digits or
more. -/
def decimalText (x : Decimal) : String :=
  let digits := Decimal.digitChars x.coefficient
  let leading := x.leading
  let body :=
    if leading < -4 || 16 ≤ leading then
      let mantissa := match digits with
        | first :: second :: rest => first :: '.' :: second :: rest
        | short => short
      let mark := if leading < 0 then ['e', '-'] else ['e', '+']
      let exponent := Decimal.digitChars leading.natAbs
      mantissa ++ mark ++ (if exponent.length < 2 then '0' :: exponent else exponent)
    else if x.exponent < 0 then Decimal.positional digits x.exponent.natAbs
    else digits ++ List.replicate x.exponent.toNat '0' ++ ['.', '0']
  String.ofList (if x.negative then '-' :: body else body)

/-- The number as text. -/
def text : Binary64 → String
  | .finite negative 0 _ => if negative then "-0.0" else "0.0"
  | .finite negative m e => decimalText (shortest negative m e)
  | .infinite negative => if negative then "-inf" else "inf"
  | .undefined => "nan"

end Binary64

end Settlement
