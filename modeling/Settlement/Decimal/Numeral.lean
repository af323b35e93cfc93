import Settlement.Decimal.Basic
import Settlement.Text.Blank
import Settlement.Text.Digit

/-!
# Reading numerals

A numeral is an optional sign and then digits with at most one point among or beside them, which an
exponent may follow; or one of the words for an infinity and for no number. Blanks around it and
underscores anywhere in it are passed over, letters may be of either case, and the digits may be
those of any script.

`Numeric.ofText?` reads a numeral exactly, however long it is. Only exponents beyond the range
`largestLeading`, `leastExponent` are refused.
-/

namespace Settlement

namespace Numeral

/-- The largest exponent of a leading digit that a numeral may have. -/
def largestLeading : Int := 999999999999999999

/-- The least exponent of the last digit that a numeral may have. -/
def leastExponent : Int := -1999999999999999997

/-- The decimal digits at the start of a text, as values, and what follows them. -/
def spanDigits : List Char → List Nat × List Char
  | [] => ([], [])
  | c :: rest =>
    match Text.decimalDigit? c with
    | some d => let (ds, tail) := spanDigits rest; (d :: ds, tail)
    | none => ([], c :: rest)

/-- The number that digits spell in positional notation. -/
def valueOf (digits : List Nat) : Nat := digits.foldl (fun n d => 10 * n + d) 0

/-- A sign, if there is one, and what follows it. -/
def spanSign : List Char → Bool × List Char
  | '-' :: rest => (true, rest)
  | '+' :: rest => (false, rest)
  | cs => (false, cs)

/-- The exponent at the end of a numeral, zero if there is none. -/
def exponent? : List Char → Option Int
  | [] => some 0
  | c :: rest =>
    if c = 'e' || c = 'E' then
      let (negative, rest) := spanSign rest
      match spanDigits rest with
      | (d :: ds, []) => some (if negative then -(valueOf (d :: ds) : Int) else valueOf (d :: ds))
      | _ => none
    else none

/-- Digits with at most one point: all of them, how many stand behind the point, and what follows.
At least one digit is needed. -/
def mantissa? (cs : List Char) : Option (List Nat × Nat × List Char) :=
  let (whole, rest) := spanDigits cs
  let (places, rest) := match rest with
    | '.' :: tail => spanDigits tail
    | tail => ([], tail)
  if whole.isEmpty && places.isEmpty then none else some (whole ++ places, places.length, rest)

/-- Whether the exponents of a numeral are in range. -/
def inRange (x : Decimal) : Bool := x.leading ≤ largestLeading && leastExponent ≤ x.exponent

/-- An unsigned number: digits and an exponent. -/
def finite? (negative : Bool) (cs : List Char) : Option Numeric := do
  let (digits, places, rest) ← mantissa? cs
  let exponent ← exponent? rest
  let x : Decimal := ⟨negative, valueOf digits, exponent - places⟩
  if inRange x then some (.finite x) else none

/-- The payload of a numeral that denotes no number: digits up to the end. -/
def undefined? (negative signaling : Bool) (cs : List Char) : Option Numeric :=
  match spanDigits cs with
  | (digits, []) => some (.undefined negative signaling (valueOf digits))
  | _ => none

/-- A numeral without its sign. -/
def unsigned? (negative : Bool) (cs : List Char) : Option Numeric :=
  match cs.map Char.toLower with
  | ['i', 'n', 'f'] => some (.infinite negative)
  | ['i', 'n', 'f', 'i', 'n', 'i', 't', 'y'] => some (.infinite negative)
  | 'n' :: 'a' :: 'n' :: _ => undefined? negative false (cs.drop 3)
  | 's' :: 'n' :: 'a' :: 'n' :: _ => undefined? negative true (cs.drop 4)
  | _ => finite? negative cs

end Numeral

/-- What a text denotes when it is read as a numeral. -/
def Numeric.ofText? (s : String) : Option Numeric :=
  let cs := (Text.trimChars s.toList).filter (· != '_')
  let (negative, rest) := Numeral.spanSign cs
  Numeral.unsigned? negative rest

end Settlement
