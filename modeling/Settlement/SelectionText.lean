import Settlement.Decimal.Numeral
import Settlement.Item

/-!
# Selections as payers write them

A selection is written `ITEM:QUANTITY`, or `ITEM` for one unit. The last colon divides the two, so
that an item id may hold colons itself; blanks around either part are passed over.
-/

namespace Settlement.SelectionText

/-- The parts of a text before and after its last colon, if it has one. -/
def splitLastColon? (cs : List Char) : Option (List Char × List Char) :=
  match cs.reverse.span (· != ':') with
  | (_, []) => none
  | (tail, _ :: head) => some (head.reverse, tail.reverse)

/-- The whole number that a string of digits spells. Strings of more than `Fault.longestWhole`
digits are refused, and so are digit signs that have no place in a positional system. -/
def readDigits (s : String) : Except Fault Nat :=
  let (digits, rest) := Numeral.spanDigits s.toList
  if Fault.longestWhole < digits.length then .error (.longDigitString digits.length)
  else if rest.isEmpty then .ok (Numeral.valueOf digits)
  else .error (.notADigitString s)

/-- A written quantity, which must consist of digits. -/
def readQuantity (selection quantity : String) : Except Fault Nat :=
  if quantity.isEmpty || !quantity.toList.all Text.isDigit then
    .error (.selectionQuantity quantity selection)
  else readDigits quantity

/-- A written selection. -/
def readText (s : String) : Except Fault Selection :=
  let trimmed := Text.trimChars s.toList
  if trimmed.isEmpty then .error .emptySelectionText
  else
    match splitLastColon? trimmed with
    | none => Selection.ofValues (.text (String.ofList trimmed)) (.whole 1)
    | some (id, quantity) => do
      let id := String.ofList (Text.trimChars id)
      let quantity := String.ofList (Text.trimChars quantity)
      let n ← readQuantity (String.ofList trimmed) quantity
      Selection.ofValues (.text id) (.whole n)

/-- A selection from a value that should be a written one. -/
def read : Value → Except Fault Selection
  | .text s => readText s
  | _ => .error .emptySelectionText

end Settlement.SelectionText
