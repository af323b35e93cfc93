import Settlement.Decimal.Numeral
import Settlement.Fault

/-!
# Amounts and currencies from unchecked values

An amount is given as a decimal number, its parts, a whole number or a numeral, and is rounded to
two places once, a tie going up. `Money.ofDecimal` is the one way from a decimal to money: it
refuses amounts beyond `Money.bound` and those that are negative after rounding.
-/

namespace Settlement

/-- A currency from its code. -/
def Currency.ofCode (code : String) : Except Fault Currency :=
  if h : isCurrencyCode code = true then .ok ⟨code, h⟩ else .error (.currencyCode (.text code))

/-- A currency from a value that should be its code. -/
def Currency.ofValue : Value → Except Fault Currency
  | .text code => Currency.ofCode code
  | v => .error (.currencyCode v)

namespace Amount

/-- The fault of a list that does not give a decimal. -/
def refuseParts (items : List Value) : Decimal.Parts.Refusal → Fault
  | .outOfRange => .amountUnreadable (.list items)
  | refusal => .amountParts refusal

/-- What an amount denotes: decimals and whole numbers as they are, texts as numerals, lists as the
parts of a decimal. -/
def read : Value → Except Fault Numeric
  | .decimal x => .ok x
  | .whole n => .ok (.finite (.ofInt n))
  | .text s =>
    match Numeric.ofText? s with
    | some x => .ok x
    | none => .error (.amountUnreadable (.text s))
  | .list items => (Decimal.Parts.read items).mapError (refuseParts items)
  | .flag b => .error (.amountKind (Value.flag b).kind)
  | .real x => .error (.amountKind (Value.real x).kind)
  | v => .error (.amountUnreadable v)

/-- The decimal number that an amount denotes. -/
def finite : Numeric → Except Fault Decimal
  | .finite x => .ok x
  | x => .error (.amountNotFinite x)

/-- A decimal rounded to two places, a tie going away from zero. -/
def round (x : Decimal) : Except Fault Decimal :=
  match x.hundredths? Money.digits with
  | some n => .ok ⟨x.negative, n, -2⟩
  | none => .error (.amountOutOfRange x)

/-- An amount rounded to two places. -/
def normalize (v : Value) : Except Fault Decimal := do
  round (← finite (← read v))

end Amount

/-- Money above nothing. -/
abbrev Money.Positive := { m : Money // 0 < m.cents }

namespace Given

/-- What a field holds that an operation on money asks for. -/
def money {α : Type} (field : Given α) : Except Fault α := field.require fun v => .notMoney v.kind

/-- What a field holds that is asked for a part that only money has, such as its currency. -/
def asking {α : Type} (part : String) (field : Given α) : Except Fault α :=
  field.require fun v => .lacksPart v part

/-- Refuses a field that holds nothing, as money or as a bare decimal. No other value can be asked
whether it is zero. A bare decimal above or below zero is left to `Given.asking`. -/
def positive (zero : Fault) : Given Money → Except Fault (Given Money.Positive)
  | .given m => if h : 0 < m.cents then .ok (.given ⟨m, h⟩) else .error zero
  | .other (.decimal x) => if x.isZero then .error zero else .ok (.other (.decimal x))
  | .other v => .error (.lacksPart v "is_zero")

end Given

namespace Money

/-- The money that a decimal amounts to, rounded to cents. -/
def ofDecimal (currency : Currency) (x : Decimal) : Except Fault Money :=
  match h : x.hundredths? digits with
  | none => .error (.amountOutOfRange x)
  | some n =>
    if x.negative && n != 0 then .error (.amountNegative ⟨true, n, -2⟩)
    else .ok ⟨currency, n, Decimal.hundredths?_lt h⟩

/-- The money that a numeral amounts to. -/
def ofNumeric (currency : Currency) (x : Numeric) : Except Fault Money := do
  ofDecimal currency (← Amount.finite x)

/-- The money of a checked currency and an unchecked amount. -/
def ofAmount (currency : Currency) (amount : Value) : Except Fault Money := do
  ofNumeric currency (← Amount.read amount)

/-- The money of an unchecked currency and an unchecked amount. -/
def ofValues (currency amount : Value) : Except Fault Money := do
  ofAmount (← Currency.ofValue currency) amount

/-- Money from a decimal is in the currency that was asked for. -/
theorem currency_ofDecimal {c : Currency} {x : Decimal} {m : Money}
    (h : ofDecimal c x = .ok m) : m.currency = c := by
  unfold ofDecimal at h
  split at h
  · cases h
  · split at h <;> cases h
    rfl

end Money

end Settlement
