import Settlement.Money.Reading

/-!
# Sums, differences and multiples of money

Money is counted in cents, so that sums, differences and multiples are exact; a result that reaches
`Money.bound` is refused. The message about it shows the result to twenty-eight digits.

Operations on two amounts ask for one currency. `Money.sum` adds a list in its order.
-/

namespace Settlement.Money

/-- Refuses two amounts of different currencies. -/
def requireSameCurrency (a b : Money) : Except Fault Unit :=
  if a.currency = b.currency then .ok ()
  else .error (.currencyMismatch "money operation" a.currency.code b.currency.code)

/-- A number of cents as money, unless it is too large. -/
def ofCents (currency : Currency) (cents : Nat) : Except Fault Money :=
  if h : cents < bound then .ok ⟨currency, cents, h⟩
  else
    match Precision.exact.fit (.ofHundredths cents) with
    | .ok x => .error (.amountOutOfRange x)
    | .error t => .error (.trap t)

/-- The sum of two amounts. -/
def plus (a b : Money) : Except Fault Money := do
  requireSameCurrency a b
  ofCents a.currency (a.cents + b.cents)

/-- The difference of two amounts, which must not be negative. -/
def minus (a b : Money) : Except Fault Money := do
  requireSameCurrency a b
  if a.cents < b.cents then .error (.differenceNegative a b)
  else .ok ⟨a.currency, a.cents - b.cents, Nat.lt_of_le_of_lt (Nat.sub_le ..) a.lt_bound⟩

/-- An amount taken `n` times. -/
def times (a : Money) (n : Nat) : Except Fault Money := ofCents a.currency (a.cents * n)

/-- An amount taken as many times as a value says. -/
def timesValue (a : Money) : Value → Except Fault Money
  | .whole n => if n < 0 then .error (.quantityNegative n) else a.times n.toNat
  | v => .error (.quantityNotWhole v)

/-- The order of two amounts of one currency. -/
def compare (a b : Money) : Except Fault Ordering := do
  requireSameCurrency a b
  .ok (Ord.compare a.cents b.cents)

/-- Whether `a` is at most `b`. -/
def atMost (a b : Money) : Except Fault Bool := return (← a.compare b).isLE

/-- The smaller of two amounts. -/
def min (a b : Money) : Except Fault Money := return if (← a.compare b).isGT then b else a

/-- Refuses an amount that is not in the currency with this code. -/
def requireCurrency (code context : String) (m : Money) : Except Fault Unit :=
  if m.currency.code = code then .ok ()
  else .error (.currencyMismatch context code m.currency.code)

/-- Adds amounts to a total, one after the other. -/
def addAll (context : String) (total : Money) : List Money → Except Fault Money
  | [] => .ok total
  | m :: rest => do
    requireCurrency total.currency.code context m
    addAll context (← total.plus m) rest

/-- The context of sums that name no other. -/
def sumContext : String := "money sum"

/-- The sum of amounts that are all in one currency. -/
def sum (currency : Currency) (context : String) (values : List Money) : Except Fault Money :=
  addAll context (zero currency) values

/-! ### What the operations yield -/

theorem currency_eq_of_code_eq {a b : Currency} (h : a.code = b.code) : a = b := by
  cases a; cases b; simp_all

theorem ofCents_of_lt {c : Currency} {n : Nat} (h : n < bound) : ofCents c n = .ok ⟨c, n, h⟩ := by
  simp [ofCents, h]

/-- A number of cents becomes money exactly when it is below the bound. -/
theorem ofCents_eq_ok_iff {c : Currency} {n : Nat} {m : Money} :
    ofCents c n = .ok m ↔ m.currency = c ∧ m.cents = n := by
  constructor
  · intro h
    unfold ofCents at h
    split at h
    · cases h; exact ⟨rfl, rfl⟩
    · split at h <;> cases h
  · rintro ⟨rfl, rfl⟩
    exact ofCents_of_lt m.lt_bound

end Settlement.Money
