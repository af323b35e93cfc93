import Settlement.Decimal.Numeral
import Settlement.Value

/-!
# Decimals from their parts

A decimal may be given as a list of three parts: its sign, a list of its digits, and its exponent.
Where the exponent should stand, `F` makes an infinity of it, and `n` or `N` make it no number,
quiet or signaling, with the digits for a payload.

Parts that are numbers must fit into a machine word. The ending is looked at before the digits, and
the digits of an infinity are looked at although they do not count. Every decimal that a numeral may
denote is read from its parts (`read_finite`).
-/

namespace Settlement.Decimal.Parts

/-- Why a list does not give a decimal. -/
inductive Refusal where
  | length
  | sign
  | word
  | exponent
  | digits
  /-- A number does not fit into a machine word. -/
  | oversized
  /-- The exponents of the numeral are not in range. -/
  | outOfRange

/-- What is said about the parts; nothing is said where the numbers are too large. -/
def Refusal.text : Refusal → String
  | length => "argument must be a sequence of length 3"
  | sign => "sign must be an integer with the value 0 or 1"
  | word => "string argument in the third position must be 'F', 'n' or 'N'"
  | exponent => "exponent must be an integer"
  | digits => "coefficient must be a tuple of digits"
  | oversized | outOfRange => ""

/-- The whole number that a value counts as: truth values count as zero and one. -/
def whole? : Value → Option Int
  | .whole n => some n
  | .flag b => some (if b then 1 else 0)
  | _ => none

/-- Whole numbers of 64 bits. -/
def isWord (n : Int) : Bool := -(pow2 63 : Int) ≤ n && n < pow2 63

theorem isWord_iff {n : Int} :
    isWord n = true ↔ -9223372036854775808 ≤ n ∧ n < 9223372036854775808 := by
  have hpow : (pow2 63 : Int) = 9223372036854775808 := rfl
  rw [isWord, hpow, Bool.and_eq_true, decide_eq_true_iff, decide_eq_true_iff]

/-- A part that should be a whole number. -/
def number (refusal : Refusal) (v : Value) : Except Refusal Int :=
  match whole? v with
  | none => .error refusal
  | some n => if isWord n then .ok n else .error .oversized

/-- Whether the sign, one or zero, is negative. -/
def negative (v : Value) : Except Refusal Bool := do
  let n ← number .sign v
  if n = 0 then .ok false
  else if n = 1 then .ok true
  else .error .sign

/-- What follows the digits. -/
inductive Ending where
  | exponent (e : Int)
  | infinite
  | undefined (signaling : Bool)

/-- What the last part says. -/
def ending : Value → Except Refusal Ending
  | .text s =>
    if s = "F" then .ok .infinite
    else if s = "n" then .ok (.undefined false)
    else if s = "N" then .ok (.undefined true)
    else .error .word
  | v => (number .exponent v).map .exponent

/-- One digit. -/
def digit (v : Value) : Except Refusal Nat := do
  let n ← number .digits v
  if 0 ≤ n && n ≤ 9 then .ok n.toNat else .error .digits

/-- The digits, of which there may be none. -/
def digits : Value → Except Refusal (List Nat)
  | .list items => items.mapM digit
  | _ => .error .digits

/-- What the parts denote together. -/
def assemble (negative : Bool) (digits : List Nat) : Ending → Except Refusal Numeric
  | .infinite => .ok (.infinite negative)
  | .undefined signaling => .ok (.undefined negative signaling (Numeral.valueOf digits))
  | .exponent e =>
    let x : Decimal := ⟨negative, Numeral.valueOf digits, e⟩
    if Numeral.inRange x then .ok (.finite x) else .error .outOfRange

/-- What a list of parts denotes. -/
def read : List Value → Except Refusal Numeric
  | [sign, coefficient, last] => do
    let negative ← negative sign
    let ending ← ending last
    let digits ← digits coefficient
    assemble negative digits ending
  | _ => .error .length

/-! ### What is read from the parts of a decimal -/

/-- The exponents of numerals fit into a machine word. -/
theorem isWord_exponent {x : Decimal} (h : Numeral.inRange x = true) :
    isWord x.exponent = true := by
  have hpos := digitCount_pos x.coefficient
  rw [Numeral.inRange, Bool.and_eq_true, decide_eq_true_iff, decide_eq_true_iff, leading,
    Numeral.largestLeading, Numeral.leastExponent] at h
  rw [isWord_iff]
  omega

/-- A digit is read as itself. -/
theorem digit_whole {d : Nat} (h : d ≤ 9) : digit (.whole d) = .ok d := by
  have hnumber : number .digits (.whole d) = .ok d := by
    rw [number, whole?]
    exact if_pos (isWord_iff.2 (by omega))
  have hrange : ((0 : Int) ≤ d && (d : Int) ≤ 9) = true := by
    rw [Bool.and_eq_true, decide_eq_true_iff, decide_eq_true_iff]
    omega
  rw [digit, hnumber]
  exact if_pos hrange

/-- Digits are read one by one. -/
theorem mapM_digit {ds : List Nat} (h : ∀ d ∈ ds, d ≤ 9) :
    (ds.map fun (d : Nat) => Value.whole d).mapM digit = .ok ds := by
  induction ds with
  | nil => rfl
  | cons d ds ih =>
    rw [List.map_cons, List.mapM_cons, digit_whole (h d List.mem_cons_self),
      ih fun d' hd' => h d' (List.mem_cons_of_mem d hd')]
    rfl

/-- **Decimals.** A decimal that a numeral may denote is read from its sign, digits that spell its
coefficient, and its exponent. -/
theorem read_finite {x : Decimal} {ds : List Nat} (hdigits : ∀ d ∈ ds, d ≤ 9)
    (hvalue : Numeral.valueOf ds = x.coefficient) (hrange : Numeral.inRange x = true) :
    read [.flag x.negative, .list (ds.map fun (d : Nat) => .whole d), .whole x.exponent] =
      .ok (.finite x) := by
  have hsign : negative (.flag x.negative) = .ok x.negative := by
    cases x.negative <;> rfl
  have hending : ending (.whole x.exponent) = .ok (.exponent x.exponent) := by
    simp [ending, number, whole?, isWord_exponent hrange, Except.map]
  simp [read, hsign, hending, digits, mapM_digit hdigits, assemble, hvalue, hrange, bind,
    Except.bind]

end Settlement.Decimal.Parts
