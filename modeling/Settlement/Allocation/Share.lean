import Settlement.Money.Arithmetic

/-!
# Proportional shares

A proportional share is `total · part / whole`: a product of twenty-eight digits divided to ten,
and rounded to cents once, at the end.
-/

namespace Settlement

/-- The quotient `total · part / whole` at working precision. -/
def proportion (total part whole : Decimal) : Except Fault Decimal :=
  (do Precision.working.divide (← Precision.exact.multiply total part) whole).mapError .trap

/-- The share of `total` that `part` is of `whole`, all three in the currency with this code. -/
def shareOfTotal (code : String) (total part whole : Money) : Except Fault Money := do
  total.requireCurrency code "proportional share (total)"
  part.requireCurrency code "proportional share (part)"
  whole.requireCurrency code "proportional share (whole)"
  if whole.isZero then .error .zeroWhole
  else if total.isZero || part.isZero then .ok (.zero total.currency)
  else Money.ofDecimal total.currency (← proportion total.amount part.amount whole.amount)

end Settlement
