import Settlement.Decimal.Basic

/-!
# Decimals as text

A numeral is written digit by digit as it is held. Positional notation serves exponents up to zero
whose leading digit is not below the sixth place after the point; all others get an exponent mark.
-/

namespace Settlement

namespace Decimal

/-- The digits of a number. -/
def digitChars (n : Nat) : List Char := Nat.toDigits 10 n

/-- Digits with a point before the last `places` of them, and zeros before them as needed. -/
def positional (digits : List Char) (places : Nat) : List Char :=
  if places = 0 then digits
  else
    let padded := List.replicate (places + 1 - digits.length) '0' ++ digits
    padded.take (padded.length - places) ++ '.' :: padded.drop (padded.length - places)

/-- Digits with a point after the first, and the exponent of that first digit. -/
def scientific (digits : List Char) (exponent : Int) : List Char :=
  let mantissa := match digits with
    | first :: second :: rest => first :: '.' :: second :: rest
    | short => short
  let mark := if exponent < 0 then ['E', '-'] else ['E', '+']
  mantissa ++ mark ++ digitChars exponent.natAbs

/-- The numeral as text. -/
def text (x : Decimal) : String :=
  let digits := digitChars x.coefficient
  let leading := x.exponent + digits.length - 1
  let body :=
    if x.exponent ≤ 0 && -6 ≤ leading then positional digits x.exponent.natAbs
    else scientific digits leading
  String.ofList (if x.negative then '-' :: body else body)

end Decimal

/-- What a numeral denotes, as text; a payload of zero is not shown. -/
def Numeric.text : Numeric → String
  | .finite x => x.text
  | .infinite negative => if negative then "-Infinity" else "Infinity"
  | .undefined negative signaling payload =>
    (if negative then "-" else "") ++ (if signaling then "sNaN" else "NaN") ++
      (if payload = 0 then "" else toString payload)

end Settlement
