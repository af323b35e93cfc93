import Settlement.Allocation.Cap
import Settlement.Log
import Settlement.Text.Units

/-!
# Distributing a rounding remainder

When shares are rounded to cents, some cents are left over or were given out twice. They are moved
one at a time. A cent to add goes to the share that lost most by rounding and has room below its
cap; a cent to remove comes from the share that gained most and holds one. Ties go to the smaller
item id, by UTF-16 code units. Every cent starts again at the top of the ranking, so one item may
take several before the next gets any.

`Distribution.run` reports the allocation as far as it got, also when a cent finds no place.
-/

namespace Settlement

/-- The unrounded share of one item. -/
structure Share where
  id : String
  raw : Numeric

namespace Distribution

/-- A share with what it lost by rounding. -/
structure Ranked where
  id : String
  loss : Decimal

/-- The order for adding cents: larger losses first, then smaller ids. -/
def Ranked.addsBefore (a b : Ranked) : Bool :=
  if a.loss.le b.loss && b.loss.le a.loss then Text.unitsLE a.id b.id else b.loss.le a.loss

/-- The order for removing cents: smaller losses first, then smaller ids. -/
def Ranked.removesBefore (a b : Ranked) : Bool :=
  if a.loss.le b.loss && b.loss.le a.loss then Text.unitsLE a.id b.id else a.loss.le b.loss

/-- What a share loses by rounding to cents. -/
def rank (currency : Currency) (share : Share) : Except Fault Ranked := do
  let raw ← Amount.finite share.raw
  let rounded ← Money.ofDecimal currency raw
  let loss ← (Precision.exact.subtract raw rounded.amount).mapError .trap
  .ok ⟨share.id, loss⟩

/-- The whole number that a decimal is, if it is one. -/
def whole? (x : Decimal) : Option Int :=
  if 0 ≤ x.exponent || x.isZero then some (x.scaled 0)
  else if digitCount x.coefficient ≤ x.exponent.natAbs then none
  else if x.coefficient % pow10 x.exponent.natAbs ≠ 0 then none
  else
    let n : Int := x.coefficient / pow10 x.exponent.natAbs
    some (if x.negative then -n else n)

/-- The number of cents in a remainder. -/
def wholeCents (remainder : Numeric) : Except Fault Int := do
  let cents ← (Precision.exact.divideNumeric remainder (.finite ⟨false, 1, -2⟩)).mapError Fault.trap
  match cents with
  | .infinite _ => .error .infiniteRemainder
  | .undefined .. => .error (.fractionalRemainder remainder)
  | .finite q =>
    match whole? q with
    | some n => .ok n
    | none => .error (.fractionalRemainder remainder)

/-- The current amount of an item. -/
def currentOf (current : Table Money) (id : String) : Except Fault Money :=
  match current.find? id with
  | some now => .ok now
  | none => .error (.missingAllocation id)

/-- Gives a cent to the first of the ids that has room for it, if one has. -/
def addCent (cent : Money) (caps : Caps) (current : Table Money) :
    List String → Except Fault (Option (Table Money))
  | [] => .ok none
  | id :: rest => do
    let now ← currentOf current id
    let cap ← caps.require id
    let candidate ← now.plus cent
    if ← candidate.isWithin cap then .ok (some (current.insert id candidate))
    else addCent cent caps current rest

/-- Takes a cent from the first of the ids that holds one, if one does. -/
def removeCent (cent : Money) (current : Table Money) :
    List String → Except Fault (Option (Table Money))
  | [] => .ok none
  | id :: rest => do
    let now ← currentOf current id
    if (← now.compare cent).isGE then
      .ok (some (current.insert id (← now.minus cent)))
    else removeCent cent current rest

/-- Where a distribution ends: the allocation, what stopped it, and what it has to say. -/
structure Outcome where
  current : Table Money
  fault : Option Fault
  journal : List Log.Record

/-- The allocation of a distribution that was not stopped. -/
def Outcome.result (o : Outcome) : Except Fault (Table Money) :=
  match o.fault with
  | none => .ok o.current
  | some f => .error f

/-- Takes a step `n` times; stops where a step fails or finds no place. -/
def repeatStep (step : Table Money → Except Fault (Option (Table Money))) (stuck : Fault) :
    Nat → Table Money → Table Money × Option Fault
  | 0, current => (current, none)
  | n + 1, current =>
    match step current with
    | .ok (some next) => repeatStep step stuck n next
    | .ok none => (current, some stuck)
    | .error f => (current, some f)

/-- Adds cents one at a time, in the order of the ranking. -/
def addCents (cent : Money) (caps : Caps) (ids : List String) (n : Nat)
    (current : Table Money) : Table Money × Option Fault :=
  repeatStep (fun t => addCent cent caps t ids) (.noHeadroom ids) n current

/-- Removes cents one at a time, in the order of the ranking. -/
def removeCents (cent : Money) (ids : List String) (n : Nat) (current : Table Money) :
    Table Money × Option Fault :=
  repeatStep (fun t => removeCent cent t ids) (.nothingHeld ids) n current

/-- What is said when a distribution begins. -/
def announcement (cents : Int) (shares : Nat) : Log.Record where
  severity := .debug
  source := "tabsettle.domain.allocation"
  message :=
    let sign := if 0 < cents then "+" else ""
    s!"Distributing {sign}{cents} cent(s) across {shares} shares"

/-- Moves a number of cents that is not zero. -/
def move (currency : Currency) (cents : Int) (caps : Caps) (ranking : List Ranked)
    (current : Table Money) : Outcome :=
  let cent := Money.oneCent currency
  let (current, fault) :=
    if 0 < cents then
      addCents cent caps ((ranking.mergeSort Ranked.addsBefore).map Ranked.id) cents.natAbs current
    else
      removeCents cent ((ranking.mergeSort Ranked.removesBefore).map Ranked.id) cents.natAbs current
  ⟨current, fault, [announcement cents ranking.length]⟩

/-- What a distribution needs to know before it moves a cent: the currency and the ranking. -/
def prepare (code : String) (shares : List Share) : Except Fault (Currency × List Ranked) := do
  let currency ← Currency.ofCode code
  .ok (currency, ← shares.mapM (rank currency))

/-- Distributes a remainder over an allocation. Nothing is asked of the shares when no cent is left
to move. -/
def run (code : String) (remainder : Numeric) (caps : Caps) (shares : List Share)
    (current : Table Money) : Outcome :=
  match wholeCents remainder with
  | .error f => ⟨current, some f, []⟩
  | .ok 0 => ⟨current, none, []⟩
  | .ok cents =>
    match prepare code shares with
    | .error f => ⟨current, some f, []⟩
    | .ok (currency, ranking) => move currency cents caps ranking current

end Distribution

end Settlement
