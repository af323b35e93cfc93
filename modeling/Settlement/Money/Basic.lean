import Settlement.Decimal.Text
import Settlement.Text.LetterCase

/-!
# Money

`Money` is an amount in one currency: a number of cents that is never negative and that stays below
`Money.bound`, the first number of cents with more than twenty-eight digits. A `Currency` is a code
of three capitals.
-/

namespace Settlement

/-- Currency codes: three capitals of the basic alphabet. -/
def isCurrencyCode (s : String) : Bool :=
  match s.toList with
  | [a, b, c] => Text.isCapital a && Text.isCapital b && Text.isCapital c
  | _ => false

/-- A currency, known by its code. -/
structure Currency where
  code : String
  valid : isCurrencyCode code = true
  deriving DecidableEq

/-- The number of digits that an amount in cents may take. -/
def Money.digits : Nat := 28

/-- The first number of cents that no amount reaches. -/
def Money.bound : Nat := pow10 Money.digits

/-- An amount of money: a number of cents of one currency. -/
structure Money where
  currency : Currency
  cents : Nat
  lt_bound : cents < Money.bound
  deriving DecidableEq

namespace Money

theorem ext_cents {a b : Money} (hcur : a.currency = b.currency) (hcents : a.cents = b.cents) :
    a = b := by
  cases a; cases b; simp_all

/-- No money. -/
def zero (currency : Currency) : Money := ⟨currency, 0, pow10_pos _⟩

/-- One cent. -/
def oneCent (currency : Currency) : Money := ⟨currency, 1, by decide⟩

def isZero (m : Money) : Bool := m.cents == 0

/-- The amount as a numeral with two places. -/
def amount (m : Money) : Decimal := .ofHundredths m.cents

/-- The amount and the currency code. -/
def text (m : Money) : String := m.amount.text ++ " " ++ m.currency.code

@[simp] theorem cents_zero (currency : Currency) : (zero currency).cents = 0 := rfl

@[simp] theorem currency_zero (currency : Currency) : (zero currency).currency = currency := rfl

@[simp] theorem cents_oneCent (currency : Currency) : (oneCent currency).cents = 1 := rfl

@[simp] theorem currency_oneCent (currency : Currency) :
    (oneCent currency).currency = currency := rfl

@[simp] theorem isZero_iff (m : Money) : m.isZero = true ↔ m.cents = 0 := by simp [isZero]

end Money

end Settlement
