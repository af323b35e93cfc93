import Mathlib.Algebra.BigOperators.Group.Finset.Basic
import Mathlib.Algebra.BigOperators.Group.Finset.Piecewise
import Mathlib.Algebra.GroupWithZero.Nat
import Mathlib.Algebra.Order.BigOperators.Group.List
import Mathlib.Algebra.Order.Group.Nat
import Mathlib.Data.List.Dedup

/-!
# Sums by key

Selections, write-offs and paid items come in lists in which an item may be mentioned more than
once. `sumAt` adds up a number over all mentions of one item. A further mention changes the sum of
its own item only (`sumAt_concat`), and the sums of all items make up the sum of the list
(`sum_sumAt`).
-/

namespace Settlement

variable {α : Type} {key : α → String} {f : α → ℕ} {l : List α} {k : String}

/-- The sum of a number over the members of a list with a key. -/
def sumAt (key : α → String) (f : α → ℕ) (l : List α) (k : String) : ℕ :=
  ((l.filter fun a => key a = k).map f).sum

theorem sumAt_cons (a : α) (l : List α) (k : String) :
    sumAt key f (a :: l) k = (if key a = k then f a else 0) + sumAt key f l k := by
  rw [sumAt, sumAt, List.filter_cons]
  by_cases h : key a = k <;> simp [h]

theorem sumAt_concat (l : List α) (a : α) (k : String) :
    sumAt key f (l ++ [a]) k = sumAt key f l k + if key a = k then f a else 0 := by
  rw [sumAt, sumAt, List.filter_append, List.map_append, List.sum_append]
  by_cases h : key a = k <;> simp [h]

/-- Nothing is summed up for a key that no member has. -/
theorem sumAt_eq_zero (h : k ∉ l.map key) : sumAt key f l k = 0 := by
  have hnone : l.filter (fun a => key a = k) = [] := by
    rw [List.filter_eq_nil_iff]
    intro a ha heq
    exact h (List.mem_map.2 ⟨a, ha, of_decide_eq_true heq⟩)
  rw [sumAt, hnone]
  rfl

/-- If all numbers are positive, the members have the keys with a positive sum. -/
theorem mem_map_iff_sumAt_pos (hf : ∀ a, 0 < f a) : k ∈ l.map key ↔ 0 < sumAt key f l k := by
  constructor
  · intro hk
    obtain ⟨a, ha, rfl⟩ := List.mem_map.1 hk
    have hmem : f a ∈ (l.filter fun b => key b = key a).map f :=
      List.mem_map_of_mem (List.mem_filter.2 ⟨ha, decide_eq_true rfl⟩)
    exact (hf a).trans_le (List.single_le_sum (fun _ _ => Nat.zero_le _) _ hmem)
  · intro hpos
    by_contra hk
    exact hpos.ne' (sumAt_eq_zero hk)

/-- The sum for a key that only one member has is the number of that member. -/
theorem sumAt_of_mem (hl : (l.map key).Nodup) {a : α} (ha : a ∈ l) :
    sumAt key f l (key a) = f a := by
  induction l with
  | nil => cases ha
  | cons b l ih =>
    rw [List.map_cons, List.nodup_cons] at hl
    rw [sumAt_cons]
    rcases List.mem_cons.1 ha with rfl | hmem
    · rw [if_pos rfl, sumAt_eq_zero hl.1, Nat.add_zero]
    · have hne : key b ≠ key a := fun heq => hl.1 (heq ▸ List.mem_map_of_mem hmem)
      rw [if_neg hne, ih hl.2 hmem, Nat.zero_add]

private theorem sum_ite_eq {keys : List String} (hkeys : keys.Nodup) (hk : k ∈ keys) (n : ℕ) :
    (keys.map fun key => if k = key then n else 0).sum = n := by
  rw [← List.sum_toFinset _ hkeys, Finset.sum_ite_eq, if_pos (List.mem_toFinset.2 hk)]

/-- **All keys.** The sums for all keys make up the sum of the list. -/
theorem sum_sumAt {keys : List String} (hkeys : keys.Nodup) (h : ∀ a ∈ l, key a ∈ keys) :
    (keys.map (sumAt key f l)).sum = (l.map f).sum := by
  induction l with
  | nil =>
    refine List.sum_eq_zero_iff.2 fun n hn => ?_
    obtain ⟨k, -, rfl⟩ := List.mem_map.1 hn
    rfl
  | cons a l ih =>
    have hsplit : (keys.map (sumAt key f (a :: l))).sum =
        (keys.map fun k => if key a = k then f a else 0).sum + (keys.map (sumAt key f l)).sum := by
      rw [← List.sum_map_add]
      congr 1
      exact List.map_congr_left fun k _ => sumAt_cons a l k
    rw [hsplit, sum_ite_eq hkeys (h a List.mem_cons_self),
      ih fun b hb => h b (List.mem_cons_of_mem a hb), List.map_cons, List.sum_cons]

end Settlement
