import Mathlib.Data.List.Basic
import Settlement.Allocation.Remainder
import Settlement.Proofs.Magnitude
import Settlement.Proofs.Outcome

/-!
# The ranking of shares

Shares are ranked by what they lost by rounding (`Distribution.rank_eq_ok_iff`), and ties go to the
smaller id. The order of ids by code units tells any two of them apart (`unitsLE_antisymm`), as a
text is read back from its units (`units_injective`), and losses are compared by their values
(`Decimal.le_iff`). A ranking of shares with different ids is therefore one list, in whichever order
the shares are handed in (`Distribution.mergeSort_addsBefore_eq`,
`Distribution.mergeSort_removesBefore_eq`).
-/

namespace Settlement

/-! ### Texts and their code units -/

namespace Text

/-- The units of a character say where it ends. -/
private theorem charUnits_append_inj {c d : Char} {l m : List ℕ}
    (h : charUnits c ++ l = charUnits d ++ m) : c = d ∧ l = m := by
  have hc : c.toNat < 0xD800 ∨ 0xDFFF < c.toNat ∧ c.toNat < 0x110000 := c.valid
  have hd : d.toNat < 0xD800 ∨ 0xDFFF < d.toNat ∧ d.toNat < 0x110000 := d.valid
  rw [charUnits, charUnits] at h
  -- no character stands for itself with the first unit of a pair
  split_ifs at h with hcsmall hdsmall hdsmall <;>
    simp only [List.cons_append, List.nil_append, List.cons.injEq] at h
  · exact ⟨Char.toNat_inj.1 h.1, h.2⟩
  · omega
  · omega
  · exact ⟨Char.toNat_inj.1 (by omega), h.2.2⟩

private theorem charUnits_ne_nil (c : Char) : charUnits c ≠ [] := by
  rw [charUnits]
  split_ifs <;> exact List.cons_ne_nil _ _

private theorem flatMap_charUnits_injective : Function.Injective (List.flatMap charUnits) := by
  intro l m h
  induction l generalizing m with
  | nil =>
    cases m with
    | nil => rfl
    | cons d m => simp [charUnits_ne_nil] at h
  | cons c l ih =>
    cases m with
    | nil => simp [charUnits_ne_nil] at h
    | cons d m =>
      obtain ⟨rfl, hrest⟩ := charUnits_append_inj h
      rw [ih hrest]

/-- **Code units.** Different texts have different code units. -/
theorem units_injective : Function.Injective units := fun _ _ h =>
  String.toList_injective (flatMap_charUnits_injective h)

/-- Texts that are compared as equal are equal. -/
theorem eq_of_unitsCompare {s t : String} (h : unitsCompare s t = .eq) : s = t :=
  units_injective (Std.LawfulEqCmp.eq_of_compare h)

/-- **Order of texts.** Two texts of which none comes after the other are equal. -/
theorem unitsLE_antisymm {s t : String} (hst : unitsLE s t = true) (hts : unitsLE t s = true) :
    s = t :=
  eq_of_unitsCompare
    (@Std.OrientedCmp.isLE_antisymm _ (List.compareLex compare) _ (units s) (units t) hst hts)

end Text

/-! ### Decimals by value -/

namespace Decimal

/-- **Comparison.** Numerals are compared by their values, whatever their exponents. -/
theorem le_iff {x y : Decimal} : x.le y = true ↔ x.value ≤ y.value := by
  have hpow : (0 : ℚ) < 10 ^ min x.exponent y.exponent := by positivity
  rw [le, decide_eq_true_iff, ← x.scaled_mul (min_le_left x.exponent y.exponent),
    ← y.scaled_mul (min_le_right x.exponent y.exponent), mul_le_mul_iff_left₀ hpow, Int.cast_le]

end Decimal

/-! ### Rankings -/

namespace Distribution

/-- **Losses.** A share is ranked under its id. What it loses is its raw amount less what this is
rounded to in cents, the difference taken at twenty-eight digits. -/
theorem rank_eq_ok_iff {c : Currency} {share : Share} {ranked : Ranked} :
    rank c share = .ok ranked ↔ ranked.id = share.id ∧ ∃ raw rounded,
      share.raw = .finite raw ∧ Money.ofDecimal c raw = .ok rounded ∧
        Precision.exact.subtract raw rounded.amount = .ok ranked.loss := by
  constructor
  · intro h
    obtain ⟨raw, hraw, h⟩ := bind_eq_ok_iff.1 h
    obtain ⟨rounded, hrounded, h⟩ := bind_eq_ok_iff.1 h
    obtain ⟨loss, hloss, h⟩ := bind_eq_ok_iff.1 h
    cases h
    refine ⟨rfl, raw, rounded, ?_, hrounded, mapError_eq_ok_iff.1 hloss⟩
    cases hshare : share.raw <;> rw [hshare] at hraw <;> cases hraw
    rfl
  · rintro ⟨hid, raw, rounded, hraw, hrounded, hloss⟩
    refine bind_eq_ok_iff.2 ⟨raw, by rw [hraw]; rfl, bind_eq_ok_iff.2 ⟨rounded, hrounded, ?_⟩⟩
    refine bind_eq_ok_iff.2 ⟨ranked.loss, mapError_eq_ok_iff.2 hloss, ?_⟩
    rw [← hid]

/-- An order of shares **by** a key: the smaller key comes first, and of equal keys the smaller
id. -/
private def OrdersBy (key : Ranked → ℚ) (le : Ranked → Ranked → Bool) : Prop :=
  ∀ a b, le a b = true ↔ key a < key b ∨ key a = key b ∧ Text.unitsLE a.id b.id = true

private theorem ordersBy_addsBefore : OrdersBy (fun r => -r.loss.value) Ranked.addsBefore := by
  intro a b
  rw [Ranked.addsBefore]
  simp only [Bool.and_eq_true, Decimal.le_iff, neg_lt_neg_iff, neg_inj]
  split_ifs with h
  · have heq := le_antisymm h.1 h.2
    simp [heq]
  · rw [Decimal.le_iff]
    grind

private theorem ordersBy_removesBefore : OrdersBy (fun r => r.loss.value) Ranked.removesBefore := by
  intro a b
  rw [Ranked.removesBefore]
  simp only [Bool.and_eq_true, Decimal.le_iff]
  split_ifs with h
  · have heq := le_antisymm h.1 h.2
    simp [heq]
  · rw [Decimal.le_iff]
    grind

variable {key : Ranked → ℚ} {le : Ranked → Ranked → Bool} {l m : List Ranked}

private theorem OrdersBy.trans (h : OrdersBy key le) (a b c : Ranked) (hab : le a b = true)
    (hbc : le b c = true) : le a c = true := by
  rw [h] at hab hbc ⊢
  rcases hab with hab | ⟨hab, huab⟩
  · rcases hbc with hbc | ⟨hbc, -⟩
    · exact .inl (hab.trans hbc)
    · exact .inl (hbc ▸ hab)
  · rcases hbc with hbc | ⟨hbc, hubc⟩
    · exact .inl (hab ▸ hbc)
    · exact .inr ⟨hab.trans hbc, Text.unitsLE_trans huab hubc⟩

private theorem OrdersBy.total (h : OrdersBy key le) (a b : Ranked) :
    (le a b || le b a) = true := by
  rw [Bool.or_eq_true, h, h]
  rcases lt_trichotomy (key a) (key b) with hlt | heq | hgt
  · exact .inl (.inl hlt)
  · rcases Text.unitsLE_total a.id b.id with hab | hba
    · exact .inl (.inr ⟨heq, hab⟩)
    · exact .inr (.inr ⟨heq.symm, hba⟩)
  · exact .inr (.inl hgt)

private theorem OrdersBy.id_eq (h : OrdersBy key le) {a b : Ranked} (hab : le a b = true)
    (hba : le b a = true) : a.id = b.id := by
  rw [h] at hab hba
  rcases hab with hab | ⟨heq, huab⟩
  · rcases hba with hba | ⟨heq, -⟩
    · exact absurd hab hba.not_gt
    · exact absurd hab heq.symm.not_lt
  · rcases hba with hba | ⟨-, huba⟩
    · exact absurd heq hba.ne'
    · exact Text.unitsLE_antisymm huab huba

/-- Lists that are sorted by an order that tells their members apart are equal once they have the
same members. -/
private theorem OrdersBy.mergeSort_eq (h : OrdersBy key le) (hperm : l.Perm m)
    (hids : (l.map Ranked.id).Nodup) : l.mergeSort le = m.mergeSort le := by
  have hsorted := List.pairwise_mergeSort h.trans h.total
  refine List.Perm.eq_of_pairwise (fun a b ha hb hab hba => ?_) (hsorted l) (hsorted m)
    (((List.mergeSort_perm l le).trans hperm).trans (List.mergeSort_perm m le).symm)
  rw [List.mem_mergeSort] at ha hb
  exact List.inj_on_of_nodup_map hids ha (hperm.mem_iff.2 hb) (h.id_eq hab hba)

/-- Before others in the order of adding come shares with larger losses, and of equal losses those
with smaller ids. -/
theorem addsBefore_iff {a b : Ranked} : a.addsBefore b = true ↔
    b.loss.value < a.loss.value ∨
      a.loss.value = b.loss.value ∧ Text.unitsLE a.id b.id = true := by
  rw [ordersBy_addsBefore, neg_lt_neg_iff, neg_inj]

/-- Before others in the order of removing come shares with smaller losses, and of equal losses
those with smaller ids. -/
theorem removesBefore_iff {a b : Ranked} : a.removesBefore b = true ↔
    a.loss.value < b.loss.value ∨
      a.loss.value = b.loss.value ∧ Text.unitsLE a.id b.id = true :=
  ordersBy_removesBefore a b

/-- A ranking for adding is sorted in the order of adding. -/
theorem pairwise_addsBefore (l : List Ranked) :
    (l.mergeSort Ranked.addsBefore).Pairwise fun a b => a.addsBefore b = true :=
  List.pairwise_mergeSort ordersBy_addsBefore.trans ordersBy_addsBefore.total l

/-- A ranking for removing is sorted in the order of removing. -/
theorem pairwise_removesBefore (l : List Ranked) :
    (l.mergeSort Ranked.removesBefore).Pairwise fun a b => a.removesBefore b = true :=
  List.pairwise_mergeSort ordersBy_removesBefore.trans ordersBy_removesBefore.total l

/-- **Adding.** The order in which cents are added does not depend on the order of the shares. -/
theorem mergeSort_addsBefore_eq (hperm : l.Perm m) (hids : (l.map Ranked.id).Nodup) :
    l.mergeSort Ranked.addsBefore = m.mergeSort Ranked.addsBefore :=
  ordersBy_addsBefore.mergeSort_eq hperm hids

/-- **Removing.** The order in which cents are removed does not depend on the order of the
shares. -/
theorem mergeSort_removesBefore_eq (hperm : l.Perm m) (hids : (l.map Ranked.id).Nodup) :
    l.mergeSort Ranked.removesBefore = m.mergeSort Ranked.removesBefore :=
  ordersBy_removesBefore.mergeSort_eq hperm hids

end Distribution

end Settlement
