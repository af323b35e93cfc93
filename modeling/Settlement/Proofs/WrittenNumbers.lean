import Settlement.Json.Reader
import Settlement.Proofs.Amounts

/-!
# Whole numbers that can be written

A value can be written if the whole numbers that it shows are short (`Value.writable_iff`), and a
message about it is then reported as it is (`Fault.reported_of_short`). A text of too many digits is
not read as a whole number, so that every whole number in a JSON value can be written again
(`Json.writable_of_read`).
-/

namespace Settlement

/-- A whole number is **short** if it does not take more digits than may be written. -/
def IsShort (n : ℤ) : Prop := n.natAbs < pow10 Fault.longestWhole

/-- A value is **writable** if each whole number in it is short. -/
inductive Value.Writable : Value → Prop
  | null : Writable .null
  | flag (b : Bool) : Writable (.flag b)
  | whole {n : ℤ} (h : IsShort n) : Writable (.whole n)
  | real (x : Binary64) : Writable (.real x)
  | decimal (x : Numeric) : Writable (.decimal x)
  | text (s : String) : Writable (.text s)
  | list {items : List Value} (h : ∀ v ∈ items, Writable v) : Writable (.list items)
  | record {fields : List (String × Value)} (h : ∀ e ∈ fields, Writable e.2) :
      Writable (.record fields)

namespace Value

theorem mem_wholesOfItems {n : ℤ} {items : List Value} :
    n ∈ wholesOfItems items ↔ ∃ v ∈ items, n ∈ v.wholes := by
  induction items with
  | nil => simp [wholesOfItems]
  | cons v items ih => simp [wholesOfItems, ih]

theorem mem_wholesOfFields {n : ℤ} {fields : List (String × Value)} :
    n ∈ wholesOfFields fields ↔ ∃ e ∈ fields, n ∈ e.2.wholes := by
  induction fields with
  | nil => simp [wholesOfFields]
  | cons e fields ih => simp [wholesOfFields, ih]

/-- The whole numbers that a writable value shows are short. -/
theorem Writable.isShort {v : Value} (h : v.Writable) : ∀ n ∈ v.wholes, IsShort n := by
  induction h with
  | whole h =>
    rw [wholes]
    exact List.forall_mem_singleton.2 h
  | list _ ih =>
    intro n hn
    rw [wholes, mem_wholesOfItems] at hn
    obtain ⟨v, hv, hn⟩ := hn
    exact ih v hv n hn
  | record _ ih =>
    intro n hn
    rw [wholes, mem_wholesOfFields] at hn
    obtain ⟨e, he, hn⟩ := hn
    exact ih e he n hn
  | _ =>
    rw [wholes]
    exact List.forall_mem_nil _

mutual

private theorem writable_of_wholes : ∀ v : Value, (∀ n ∈ v.wholes, IsShort n) → v.Writable
  | null, _ => .null
  | flag b, _ => .flag b
  | whole n, h => .whole (h n (by rw [wholes]; exact List.mem_singleton_self n))
  | real x, _ => .real x
  | decimal x, _ => .decimal x
  | text s, _ => .text s
  | list items, h => .list (writable_of_wholesOfItems items (by rwa [wholes] at h))
  | record fields, h => .record (writable_of_wholesOfFields fields (by rwa [wholes] at h))

private theorem writable_of_wholesOfItems : ∀ items : List Value,
    (∀ n ∈ wholesOfItems items, IsShort n) → ∀ v ∈ items, v.Writable
  | [], _ => fun _ hv => nomatch hv
  | v :: items, h => by
    rw [wholesOfItems, List.forall_mem_append] at h
    exact List.forall_mem_cons.2 ⟨writable_of_wholes v h.1, writable_of_wholesOfItems items h.2⟩

private theorem writable_of_wholesOfFields : ∀ fields : List (String × Value),
    (∀ n ∈ wholesOfFields fields, IsShort n) → ∀ e ∈ fields, e.2.Writable
  | [], _ => fun _ he => nomatch he
  | (_, v) :: fields, h => by
    rw [wholesOfFields, List.forall_mem_append] at h
    exact List.forall_mem_cons.2 ⟨writable_of_wholes v h.1, writable_of_wholesOfFields fields h.2⟩

end

/-- **Writable values.** The writable values are those that show short whole numbers only. -/
theorem writable_iff {v : Value} : v.Writable ↔ ∀ n ∈ v.wholes, IsShort n :=
  ⟨Writable.isShort, writable_of_wholes v⟩

end Value

namespace Fault

variable {f : Fault}

private theorem any_wholes_iff :
    (f.wholes.any fun n => pow10 longestWhole ≤ n.natAbs) = true ↔ ¬ ∀ n ∈ f.wholes, IsShort n := by
  simp [IsShort]

/-- A fault is reported as it is if it shows short whole numbers only. -/
theorem reported_of_short (h : ∀ n ∈ f.wholes, IsShort n) : f.reported = f := by
  rw [reported, if_neg (any_wholes_iff.not_left.2 h)]

/-- A fault that shows a whole number that is not short is reported for its length. -/
theorem reported_of_long (h : ¬ ∀ n ∈ f.wholes, IsShort n) : f.reported = .longWhole := by
  rw [reported, if_pos (any_wholes_iff.2 h)]

end Fault

/-! ### Digits -/

/-- Digits spell a number below the power of ten of their number. -/
theorem Numeral.valueOf_lt {ds : List ℕ} (h : ∀ d ∈ ds, d < 10) : valueOf ds < pow10 ds.length := by
  -- the digits are read behind those that were read before
  have hfrom : ∀ n, ds.foldl (fun n d => 10 * n + d) n < (n + 1) * pow10 ds.length := by
    induction ds with
    | nil => intro n; simp
    | cons d ds ih =>
      intro n
      have hd := h d List.mem_cons_self
      calc (d :: ds).foldl (fun n d => 10 * n + d) n < (10 * n + d + 1) * pow10 ds.length :=
            ih (fun d' hd' => h d' (List.mem_cons_of_mem d hd')) _
        _ ≤ ((n + 1) * 10) * pow10 ds.length := Nat.mul_le_mul_right _ (by omega)
        _ = (n + 1) * pow10 (d :: ds).length := by
            rw [List.length_cons, pow10_succ]
            ring
  simpa [valueOf] using hfrom 0

namespace Json

theorem digitsValue_lt {cs : List Char} (h : ∀ c ∈ cs, isDigit c = true) :
    digitsValue cs < pow10 cs.length := by
  have hdigits : ∀ d ∈ cs.map fun c => c.toNat - '0'.toNat, d < 10 := by
    rintro d hd
    obtain ⟨c, hc, rfl⟩ := List.mem_map.1 hd
    have hc := h c hc
    rw [isDigit, Bool.and_eq_true, decide_eq_true_iff, decide_eq_true_iff] at hc
    have hle : c.toNat ≤ '9'.toNat := hc.2
    have hnine : '9'.toNat = 57 := rfl
    have hzero : '0'.toNat = 48 := rfl
    omega
  have hlt := Numeral.valueOf_lt hdigits
  rwa [List.length_map] at hlt

private theorem isDigit_of_mem_wholePart {cs : List Char} {c : Char} (h : c ∈ wholePart cs) :
    isDigit c = true := by
  unfold wholePart at h
  split at h
  · rw [List.mem_singleton.1 h]
    rfl
  · exact List.all_eq_true.1 List.all_takeWhile c h

/-! ### Values -/

variable {cur : Cursor} {v : Value} {next : Cursor}

/-- Numbers are writable: a whole one is refused for its digits before it is read. -/
private theorem writable_of_number (h : number cur = .ok (v, next)) : v.Writable := by
  unfold number at h
  extract_lets negative start whole fraction behindFraction exponent n at h
  split at h
  · cases h
  split at h
  · -- a whole number
    split at h
    · cases h
    rename_i hlong
    have hlt : digitsValue whole < pow10 Fault.longestWhole :=
      (digitsValue_lt fun _ hc => isDigit_of_mem_wholePart hc).trans_le
        (pow10_le_pow10 (not_lt.1 hlong))
    cases h
    refine .whole ?_
    rw [IsShort]
    split_ifs <;> omega
  · cases h
    exact .real _

private theorem writable_of_word? {step : Value × Cursor} (h : word? cur = some step) :
    step.1.Writable := by
  have hwords : ∀ w ∈ words, w.2.Writable := by
    simp only [words, List.forall_mem_cons, List.not_mem_nil, false_imp_iff, implies_true, and_true]
    exact ⟨.null, .flag _, .flag _, .real _, .real _, .real _⟩
  obtain ⟨w, hw, rfl⟩ := Option.map_eq_some_iff.1 h
  exact hwords w (List.mem_of_find?_eq_some hw)

private theorem mem_insertIn {α : Type} {k : String} {x : α} {l : List (String × α)}
    {e : String × α} (h : e ∈ Table.insertIn k x l) : e.2 = x ∨ e ∈ l := by
  induction l with
  | nil => exact .inl (by rw [List.mem_singleton.1 h])
  | cons e' l ih =>
    obtain ⟨key, y⟩ := e'
    rw [Table.insertIn] at h
    split_ifs at h <;> rcases List.mem_cons.1 h with rfl | h
    · exact .inl rfl
    · exact .inr (List.mem_cons_of_mem _ h)
    · exact .inr List.mem_cons_self
    · exact (ih h).imp_right (List.mem_cons_of_mem _)

/-- What the three readers yield is writable if what was read before is. -/
private theorem writable_of_fuel (fuel : ℕ) :
    (∀ cur v next, value fuel cur = .ok (v, next) → v.Writable) ∧
    (∀ cur done v next, (∀ v ∈ done, v.Writable) → items fuel cur done = .ok (v, next) →
      v.Writable) ∧
    ∀ cur done v next, (∀ e ∈ done, e.2.Writable) → fields fuel cur done = .ok (v, next) →
      v.Writable := by
  induction fuel with
  | zero =>
    refine ⟨?_, ?_, ?_⟩
    · intro cur v next h
      cases h
    · intro cur done v next _ h
      cases h
    · intro cur done v next _ h
      cases h
  | succ fuel ih =>
    obtain ⟨hvalue, hitems, hfields⟩ := ih
    refine ⟨?_, ?_, ?_⟩
    · intro cur v next h
      rw [value] at h
      split at h
      · obtain ⟨⟨s, cur'⟩, -, h⟩ := bind_eq_ok_iff.1 h
        cases h
        exact .text s
      · dsimp only at h
        split_ifs at h
        · cases h
          exact .record (by simp)
        · exact hfields _ _ _ _ (by simp) h
      · dsimp only at h
        split_ifs at h
        · cases h
          exact .list (by simp)
        · exact hitems _ _ _ _ (by simp) h
      · split at h
        · rename_i step hstep
          cases h
          exact writable_of_word? hstep
        · exact writable_of_number h
    · intro cur done v next hdone h
      rw [items] at h
      obtain ⟨⟨x, cur'⟩, hx, h⟩ := bind_eq_ok_iff.1 h
      have hall : ∀ v ∈ x :: done, v.Writable :=
        List.forall_mem_cons.2 ⟨hvalue _ _ _ hx, hdone⟩
      dsimp only at h
      split_ifs at h
      · cases h
        exact .list fun v hv => hall v (List.mem_reverse.1 hv)
      · exact hitems _ _ _ _ hall h
    · intro cur done v next hdone h
      rw [fields] at h
      split_ifs at h
      obtain ⟨⟨name, cur'⟩, -, h⟩ := bind_eq_ok_iff.1 h
      dsimp only at h
      split_ifs at h
      obtain ⟨⟨x, cur''⟩, hx, h⟩ := bind_eq_ok_iff.1 h
      have hall : ∀ e ∈ Table.insertIn name x done, e.2.Writable := fun e he =>
        (mem_insertIn he).elim (fun hnew => hnew ▸ hvalue _ _ _ hx) (hdone e)
      dsimp only at h
      split_ifs at h
      · cases h
        exact .record hall
      · exact hfields _ _ _ _ hall h

/-- **Whole numbers.** Every value that is read from a text is writable. -/
theorem writable_of_read {octets : ByteArray} (h : read octets = .ok v) : v.Writable := by
  obtain ⟨cs, -, h⟩ := bind_eq_ok_iff.1 h
  dsimp only at h
  split at h <;> cases h
  rename_i hread
  rw [readChars] at hread
  split_ifs at hread
  obtain ⟨⟨w, cur⟩, hw, hread⟩ := bind_eq_ok_iff.1 hread
  dsimp only at hread
  split_ifs at hread
  cases hread
  exact (writable_of_fuel _).1 _ _ _ hw

end Json

end Settlement
