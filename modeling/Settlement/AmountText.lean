import Settlement.Decimal.Numeral
import Settlement.Fault

/-!
# Amounts as people write them

An amount may be written with a currency symbol, with commas between thousands, and with a code of
three letters behind it: `€12.50`, `1,234.56`, `12.50 EUR`. `AmountText.read` takes these away and
reads the rest as a numeral. Amounts are never negative, so `-12.50` and `(12.50)` are refused.
-/

namespace Settlement.AmountText

/-- Currency symbols, which may stand anywhere in an amount. -/
def isSymbol (c : Char) : Bool := c == '$' || c == '€' || c == '£' || c == '¥'

/-- A text without three letters at its end and the blanks before them. -/
def dropCodeAtEnd (cs : List Char) : List Char :=
  match cs.reverse with
  | c :: b :: a :: rest =>
    if Text.isLetter a && Text.isLetter b && Text.isLetter c then
      (rest.dropWhile Text.isBlank).reverse
    else cs
  | _ => cs

/-- A text without a code of three letters at its end, or in front of a last line feed. -/
def dropCode (cs : List Char) : List Char :=
  match cs.reverse with
  | '\n' :: rest => dropCodeAtEnd rest.reverse ++ ['\n']
  | _ => dropCodeAtEnd cs

/-- The numeral in a written amount without blanks at its ends. -/
def numeral (cs : List Char) : List Char :=
  Text.trimChars ((dropCode (cs.filter (!isSymbol ·))).filter (· != ','))

/-- Amounts in parentheses, a way to write negative ones. -/
def isParenthesized (cs : List Char) : Bool := cs.head? == some '(' && cs.getLast? == some ')'

/-- A written amount as a decimal number that is not negative. -/
def readText (s : String) : Except Fault Decimal :=
  let trimmed := Text.trimChars s.toList
  if trimmed.isEmpty then .error .emptyAmountText
  else if isParenthesized trimmed then .error (.negativeAmountText (String.ofList trimmed))
  else
    let rest := String.ofList (numeral trimmed)
    match (Numeric.ofText? rest).bind Numeric.finite? with
    | none => .error (.unreadableAmountText rest)
    | some x => if x.isNegative then .error (.negativeAmountText rest) else .ok x

/-- An amount from a value that should be a written one. -/
def read : Value → Except Fault Decimal
  | .text s => readText s
  | _ => .error .emptyAmountText

end Settlement.AmountText
