import Mathlib.Algebra.BigOperators.Group.Finset.Basic
import Mathlib.Algebra.BigOperators.Group.List.Lemmas
import Mathlib.Algebra.GroupWithZero.Nat
import Mathlib.Algebra.Order.BigOperators.Group.List
import Mathlib.Algebra.Order.Group.Nat
import Mathlib.Data.List.Perm.Subperm
import Settlement.Money.Basic
import Settlement.Proofs.Outcome
import Settlement.Table

/-!
# What tables hold

What a table holds can be read from its entries or by key: `find?_eq_some_iff` says that the two
readings agree. Values that are replaced one after the other are replaced key by key
(`find?_traverse`), and a traversal returns if its steps do (`returns_traverse`).

`Table.cents` is the sum of a table of amounts, `Table.centsAt` the amount for a key. Sums are
compared by key (`cents_add_cents_eq`, `cents_le_cents`), and writing to a key changes the sum by
what it changes there (`cents_insert`).
-/

namespace Settlement.Table

variable {α β ε : Type} {t : Table α} {u : Table β} {k : String} {v : α} {w : β}

/-! ### Entries and keys -/

/-- What is found in a list of entries stands there. -/
theorem mem_of_findIn {l : List (String × α)} (h : findIn k l = some v) : (k, v) ∈ l := by
  induction l with
  | nil => cases h
  | cons e l ih =>
    obtain ⟨key, x⟩ := e
    rw [findIn] at h
    split_ifs at h with hk
    · rw [hk, Option.some.inj h]
      exact List.mem_cons_self
    · exact List.mem_cons_of_mem _ (ih h)

private theorem findIn_eq_some_iff {l : List (String × α)} (h : (l.map Prod.fst).Nodup) :
    findIn k l = some v ↔ (k, v) ∈ l := by
  induction l with
  | nil => simp [findIn]
  | cons e l ih =>
    obtain ⟨key, x⟩ := e
    rw [List.map_cons, List.nodup_cons] at h
    rw [findIn, List.mem_cons, Prod.mk.injEq]
    split_ifs with hk
    · -- the first entry is the one that is found, as its key comes only once
      subst hk
      have hnot : (key, v) ∉ l := fun hmem => h.1 (List.mem_map.2 ⟨_, hmem, rfl⟩)
      simp [hnot, eq_comm]
    · rw [ih h.2]
      simp [Ne.symm hk]

/-- What is found for a key stands in its entry. -/
theorem find?_eq_some_iff : t.find? k = some v ↔ (k, v) ∈ t.entries :=
  findIn_eq_some_iff t.nodup

theorem mem_keys_of_find? (h : t.find? k = some v) : k ∈ t.keys := by
  rw [← find?_isSome_iff, h]
  rfl

theorem exists_find?_of_mem_keys (h : k ∈ t.keys) : ∃ v, t.find? k = some v :=
  Option.isSome_iff_exists.1 (find?_isSome_iff.2 h)

theorem find?_eq_none_iff : t.find? k = none ↔ k ∉ t.keys := by
  rw [← find?_isSome_iff, Option.not_isSome_iff_eq_none]

/-- The values of a table are those that are found in it. -/
theorem mem_values_iff : v ∈ t.values ↔ ∃ k, t.find? k = some v := by
  simp [values, find?_eq_some_iff]

/-- Tables with the same keys hold values for the same keys. -/
theorem find?_isSome_of_keys_eq (hkeys : u.keys = t.keys) (h : t.find? k = some v) :
    ∃ w, u.find? k = some w :=
  exists_find?_of_mem_keys (hkeys ▸ mem_keys_of_find? h)

/-- A table is known by its entries. -/
theorem ext_entries {t u : Table α} (h : t.entries = u.entries) : t = u := by
  cases t
  cases u
  simp_all

/-- A table whose values are computed from their keys lists the keys with these values. -/
theorem entries_eq_map_keys {f : String → α} (h : ∀ k v, t.find? k = some v → v = f k) :
    t.entries = t.keys.map fun k => (k, f k) := by
  rw [keys, List.map_map]
  refine ((List.map_congr_left fun e he => ?_).trans (List.map_id _)).symm
  exact Prod.ext rfl (h e.1 e.2 (find?_eq_some_iff.2 he)).symm

private theorem insertIn_of_not_mem {l : List (String × α)} (h : k ∉ l.map Prod.fst) :
    insertIn k v l = l ++ [(k, v)] := by
  induction l with
  | nil => rfl
  | cons e l ih =>
    obtain ⟨key, w⟩ := e
    rw [List.map_cons, List.mem_cons, not_or] at h
    rw [insertIn, if_neg (Ne.symm h.1), ih h.2, List.cons_append]

/-- A new key is written behind the others. -/
theorem entries_insert_of_not_mem (v : α) (h : k ∉ t.keys) :
    (t.insert k v).entries = t.entries ++ [(k, v)] :=
  insertIn_of_not_mem h

/-! ### Traversals -/

private theorem findIn_traverseIn {f : String → α → Except ε β} {l : List (String × α)}
    {l' : List (String × β)} (h : traverseIn f l = .ok l') (k : String) :
    findIn k l' = none ∧ findIn k l = none ∨
      ∃ v w, findIn k l = some v ∧ findIn k l' = some w ∧ f k v = .ok w := by
  induction l generalizing l' with
  | nil => cases h; exact .inl ⟨rfl, rfl⟩
  | cons e l ih =>
    obtain ⟨key, x⟩ := e
    obtain ⟨y, hy, h⟩ := bind_eq_ok_iff.1 h
    obtain ⟨ys, hys, h⟩ := bind_eq_ok_iff.1 h
    cases h
    rw [findIn, findIn]
    split_ifs with hk
    · subst hk
      exact .inr ⟨x, y, rfl, rfl, hy⟩
    · exact ih hys

private theorem traverseIn_of_traverse {f : String → α → Except ε β}
    (h : t.traverse f = .ok u) : traverseIn f t.entries = .ok u.entries := by
  rw [traverse] at h
  split at h
  · cases h
  · rename_i hl
    cases h
    exact hl

private theorem traverse_eq_error {f : String → α → Except ε β} {e : ε}
    (h : traverseIn f t.entries = .error e) : t.traverse f = .error e := by
  rw [traverse]
  split
  · rename_i he
    exact congrArg _ (Except.error.inj (he.symm.trans h))
  · rename_i he
    cases he.symm.trans h

private theorem exists_traverse_of_ok {f : String → α → Except ε β} {l : List (String × β)}
    (h : traverseIn f t.entries = .ok l) : ∃ u, t.traverse f = .ok u := by
  rw [traverse]
  split
  · rename_i he
    cases he.symm.trans h
  · exact ⟨_, rfl⟩

/-- **Traversals, forwards.** The value of a key is replaced by what the step makes of it. -/
theorem find?_traverse {f : String → α → Except ε β} (h : t.traverse f = .ok u)
    (hv : t.find? k = some v) : ∃ w, u.find? k = some w ∧ f k v = .ok w := by
  rcases findIn_traverseIn (traverseIn_of_traverse h) k with ⟨-, hnone⟩ | ⟨v', w, hv', hw, hf⟩
  · exact absurd (hnone.symm.trans hv) (by simp)
  · obtain rfl : v' = v := Option.some.inj (hv'.symm.trans hv)
    exact ⟨w, hw, hf⟩

/-- **Traversals, backwards.** What is found afterwards was made of a value of the same key. -/
theorem exists_find?_of_traverse {f : String → α → Except ε β} (h : t.traverse f = .ok u)
    (hw : u.find? k = some w) : ∃ v, t.find? k = some v ∧ f k v = .ok w := by
  obtain ⟨v, hv⟩ := find?_isSome_of_keys_eq (keys_traverse h).symm hw
  obtain ⟨w', hw', hf⟩ := find?_traverse h hv
  obtain rfl : w' = w := Option.some.inj (hw'.symm.trans hw)
  exact ⟨v, hv, hf⟩

private theorem traverseIn_cases (f : String → α → Except ε β) (l : List (String × α)) :
    (∃ l', traverseIn f l = .ok l') ∨ ∃ x ∈ l, ∃ e, f x.1 x.2 = .error e ∧
      traverseIn f l = .error e := by
  induction l with
  | nil => exact .inl ⟨[], rfl⟩
  | cons x l ih =>
    rw [traverseIn]
    cases hx : f x.1 x.2 with
    | error e => exact .inr ⟨x, List.mem_cons_self, e, hx, rfl⟩
    | ok w =>
      rcases ih with ⟨l', hl'⟩ | ⟨y, hy, e, hfault, he⟩
      · rw [hl']
        exact .inl ⟨_, rfl⟩
      · rw [he]
        exact .inr ⟨y, List.mem_cons_of_mem x hy, e, hfault, rfl⟩

/-- **Traversals.** A traversal ends with a table, or with the error of one of its steps. -/
theorem traverse_cases (f : String → α → Except ε β) (t : Table α) :
    (∃ u, t.traverse f = .ok u) ∨
      ∃ k v e, t.find? k = some v ∧ f k v = .error e ∧ t.traverse f = .error e := by
  rcases traverseIn_cases f t.entries with ⟨l, hl⟩ | ⟨⟨k, v⟩, hmem, e, hfault, he⟩
  · exact .inl (exists_traverse_of_ok hl)
  · exact .inr ⟨k, v, e, find?_eq_some_iff.2 hmem, hfault, traverse_eq_error he⟩

/-- A traversal whose steps all return returns. -/
theorem exists_traverse {f : String → α → Except ε β}
    (h : ∀ k v, t.find? k = some v → ∃ w, f k v = .ok w) : ∃ u, t.traverse f = .ok u := by
  rcases traverse_cases f t with hu | ⟨k, v, e, hv, hfault, -⟩
  · exact hu
  · obtain ⟨w, hw⟩ := h k v hv
    cases hfault.symm.trans hw

/-- Only the range stops a traversal whose steps only the range stops. -/
theorem returns_traverse {f : String → α → Except Fault β}
    (h : ∀ k v, t.find? k = some v → Returns (f k v) fun _ => True) :
    Returns (t.traverse f) fun u => t.traverse f = .ok u := by
  intro hr
  rcases traverse_cases f t with ⟨u, hu⟩ | ⟨k, v, e, hv, hfault, he⟩
  · exact ⟨u, hu, hu⟩
  · -- a step that fails without leaving the range would have returned
    have hin : InRange (f k v) := by
      intro x hx
      cases hfault.symm.trans hx
      exact hr x he
    obtain ⟨w, hw, -⟩ := h k v hv hin
    cases hfault.symm.trans hw

/-! ### Sums of amounts -/

variable {a b c : Table Money} {m m' : Money}

/-- The sum of a table of amounts, in cents. -/
def cents (t : Table Money) : ℕ := (t.values.map Money.cents).sum

/-- All amounts of a table are in one currency. -/
def InCurrency (c : Currency) (t : Table Money) : Prop := ∀ k m, t.find? k = some m → m.currency = c

theorem inCurrency_iff {c : Currency} : a.InCurrency c ↔ ∀ m ∈ a.values, m.currency = c := by
  constructor
  · intro h m hm
    obtain ⟨k, hk⟩ := mem_values_iff.1 hm
    exact h k m hk
  · intro h k m hk
    exact h m (mem_values_iff.2 ⟨k, hk⟩)

/-- The amount for a key, in cents; nothing for a key that is not listed. -/
def centsAt (t : Table Money) (k : String) : ℕ := ((t.find? k).map Money.cents).getD 0

theorem centsAt_of_find? (h : a.find? k = some m) : a.centsAt k = m.cents := by
  simp [centsAt, h]

theorem centsAt_insert (t : Table Money) (k key : String) (m : Money) :
    (t.insert k m).centsAt key = if key = k then m.cents else t.centsAt key := by
  rw [centsAt, find?_insert]
  split_ifs <;> rfl

private theorem sum_cents_eq (l : List (String × Money)) (h : (l.map Prod.fst).Nodup) :
    (l.map fun e => e.2.cents).sum =
      ((l.map Prod.fst).map fun k => ((findIn k l).map Money.cents).getD 0).sum := by
  rw [List.map_map]
  congr 1
  refine List.map_congr_left fun e he => ?_
  simp [findIn_eq_some_iff h |>.2 he]

/-- The sum of a table is the sum over its keys. -/
theorem cents_eq_sum_centsAt (t : Table Money) : t.cents = (t.keys.map t.centsAt).sum := by
  rw [cents, values, List.map_map]
  exact sum_cents_eq t.entries t.nodup

/-- The sum of a table is the sum over any keys among which its own are. -/
theorem cents_eq_sum_of_keys_subset {l : List String} (hl : l.Nodup) (h : a.keys ⊆ l) :
    a.cents = (l.map a.centsAt).sum := by
  rw [cents_eq_sum_centsAt, ← List.sum_toFinset _ a.nodup_keys, ← List.sum_toFinset _ hl]
  refine Finset.sum_subset (fun k hk => ?_) fun k _ hk => ?_
  · exact List.mem_toFinset.2 (h (List.mem_toFinset.1 hk))
  · -- a key of the list that the table does not have adds nothing
    rw [List.mem_toFinset] at hk
    rw [centsAt, find?_eq_none_iff.2 hk]
    rfl

/-- Amounts that add up for every key add up in sum. -/
theorem cents_add_cents_eq (hb : b.keys = a.keys) (hc : c.keys = a.keys)
    (h : ∀ k ∈ a.keys, b.centsAt k + c.centsAt k = a.centsAt k) :
    b.cents + c.cents = a.cents := by
  rw [cents_eq_sum_centsAt, cents_eq_sum_centsAt, cents_eq_sum_centsAt, hb, hc,
    ← List.sum_map_add]
  congr 1
  exact List.map_congr_left h

/-- Amounts that are at most others, key by key, are at most the others in sum; the others may have
further keys. -/
theorem cents_le_cents (hkeys : a.keys ⊆ b.keys) (h : ∀ k ∈ a.keys, a.centsAt k ≤ b.centsAt k) :
    a.cents ≤ b.cents := by
  rw [cents_eq_sum_centsAt, cents_eq_sum_centsAt]
  calc (a.keys.map a.centsAt).sum ≤ (a.keys.map b.centsAt).sum := List.sum_le_sum h
    _ ≤ (b.keys.map b.centsAt).sum := by
        -- further keys add amounts that are not negative
        obtain ⟨l, hperm, hsub⟩ := a.nodup_keys.subperm hkeys
        rw [← (hperm.map _).sum_eq]
        exact (hsub.map _).sum_le_sum fun _ _ => Nat.zero_le _

/-- No amount is more than the sum of all. -/
theorem centsAt_le_cents (t : Table Money) (k : String) : t.centsAt k ≤ t.cents := by
  by_cases hk : k ∈ t.keys
  · rw [cents_eq_sum_centsAt]
    exact List.single_le_sum (fun _ _ => Nat.zero_le _) _ (List.mem_map_of_mem hk)
  · simp [centsAt, find?_eq_none_iff.2 hk]

/-- A table has no cents if it has none anywhere. -/
theorem cents_eq_zero_iff (t : Table Money) : t.cents = 0 ↔ ∀ k, t.centsAt k = 0 := by
  constructor
  · intro h k
    exact Nat.le_zero.1 (h ▸ t.centsAt_le_cents k)
  · intro h
    rw [cents_eq_sum_centsAt, List.sum_eq_zero_iff]
    intro n hn
    obtain ⟨k, -, rfl⟩ := List.mem_map.1 hn
    exact h k

private theorem sum_insertIn (l : List (String × Money)) (h : findIn k l = some m) :
    ((insertIn k m' l).map fun e => e.2.cents).sum + m.cents =
      (l.map fun e => e.2.cents).sum + m'.cents := by
  induction l with
  | nil => cases h
  | cons e l ih =>
    obtain ⟨key, x⟩ := e
    rw [findIn] at h
    rw [insertIn]
    split_ifs at h ⊢ with hk
    · cases h
      simp only [List.map_cons, List.sum_cons]
      omega
    · have := ih h
      simp only [List.map_cons, List.sum_cons]
      omega

/-- Writing to a listed key changes the sum by what it changes for the key. -/
theorem cents_insert (h : a.find? k = some m) (m' : Money) :
    (a.insert k m').cents + m.cents = a.cents + m'.cents := by
  rw [cents, cents, values, values, List.map_map, List.map_map]
  exact sum_insertIn a.entries h

/-! ### Amounts within caps -/

/-- Amounts **within caps**: they have the keys of the caps, are in one currency, and none is above
its cap. -/
structure Within (c : Currency) (caps t : Table Money) : Prop where
  keys : t.keys = caps.keys
  currency : t.InCurrency c
  le_cap : ∀ k, t.centsAt k ≤ caps.centsAt k

variable {cur : Currency} {caps amounts : Table Money}

/-- Writing an amount up to its cap keeps amounts within their caps. -/
theorem Within.insert (h : Within cur caps amounts) (hk : k ∈ caps.keys) (hcur : m.currency = cur)
    (hle : m.cents ≤ caps.centsAt k) : Within cur caps (amounts.insert k m) where
  keys := by rw [keys_insert, h.keys, if_pos hk]
  currency := by
    intro key x hx
    rw [find?_insert] at hx
    split_ifs at hx with hkey
    · cases hx
      exact hcur
    · exact h.currency key x hx
  le_cap := by
    intro key
    rw [centsAt_insert]
    split_ifs with hkey
    · rw [hkey]
      exact hle
    · exact h.le_cap key

/-- Amounts within caps add up to at most the sum of the caps. -/
theorem Within.cents_le (h : Within cur caps amounts) : amounts.cents ≤ caps.cents :=
  cents_le_cents (by rw [h.keys]; exact fun _ hk => hk) fun k _ => h.le_cap k

/-- Amounts are within caps if each is found to be. -/
theorem within_of_find? (hkeys : amounts.keys = caps.keys)
    (h : ∀ k m, amounts.find? k = some m →
      m.currency = cur ∧ ∃ cap, caps.find? k = some cap ∧ m.cents ≤ cap.cents) :
    Within cur caps amounts where
  keys := hkeys
  currency := fun k m hm => (h k m hm).1
  le_cap := by
    intro k
    by_cases hk : k ∈ amounts.keys
    · obtain ⟨m, hm⟩ := exists_find?_of_mem_keys hk
      obtain ⟨-, cap, hcap, hle⟩ := h k m hm
      rwa [centsAt_of_find? hm, centsAt_of_find? hcap]
    · rw [centsAt, find?_eq_none_iff.2 hk]
      exact Nat.zero_le _

/-! ### Differences -/

/-- A table **splits** into what is taken and what is left, without a cent created or lost for any
key. -/
structure Splits (whole taken left : Table Money) : Prop where
  taken_keys : taken.keys = whole.keys
  left_keys : left.keys = whole.keys
  centsAt : ∀ k, left.centsAt k + taken.centsAt k = whole.centsAt k

/-- What a table splits into adds up to its sum. -/
theorem Splits.cents (h : Splits a b c) : c.cents + b.cents = a.cents :=
  cents_add_cents_eq h.left_keys h.taken_keys fun k _ => h.centsAt k

end Settlement.Table
