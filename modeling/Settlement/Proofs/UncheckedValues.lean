import Settlement.Proofs.Amounts
import Settlement.WriteOff.Basic

/-!
# What is made of unchecked values

Items, selections and write-offs are made of values that are checked one after the other. Each of
them is made of the values that it holds, and of no others.
-/

namespace Settlement

variable {s : String} {n : ℤ} {m : Money} {reason : Reason} {note : Value}

/-! ### Checks -/

theorem requireItemId_eq_ok_iff {id : { id : String // Text.isBlankText id = false }} :
    requireItemId (.text s) = .ok id ↔ id.1 = s := by
  rw [requireItemId]
  split_ifs with h
  · rw [Except.ok.injEq, Subtype.ext_iff]
    exact eq_comm
  · refine ⟨nofun, fun hid => absurd (hid ▸ id.2) h⟩

theorem requireQuantity_eq_ok_iff {quantity : { n : ℕ // 0 < n }} :
    requireQuantity (.whole n) = .ok quantity ↔ (quantity.1 : ℤ) = n := by
  have hpos := quantity.2
  rw [requireQuantity]
  split_ifs with h
  · rw [Except.ok.injEq, Subtype.ext_iff]
    dsimp only
    omega
  · refine ⟨nofun, fun hn => ?_⟩
    omega

theorem requireItemId_eq_error_iff {f : Fault} :
    requireItemId (.text s) = .error f ↔ Text.isBlankText s = true ∧ f = .itemId (.text s) := by
  rw [requireItemId]
  split_ifs with h
  · exact iff_of_false nofun fun hblank => Bool.false_ne_true (h.symm.trans hblank.1)
  · rw [Except.error.injEq, and_iff_right (Bool.not_eq_false _ ▸ h), eq_comm]

theorem requireQuantity_eq_error_iff {f : Fault} :
    requireQuantity (.whole n) = .error f ↔ n ≤ 0 ∧ f = .quantityNotPositive n := by
  rw [requireQuantity]
  split_ifs with h
  · refine iff_of_false nofun fun hle => ?_
    omega
  · rw [Except.error.injEq, and_iff_right (by omega), eq_comm]

theorem requireRemaining_eq_ok_iff {remaining : ℕ} :
    Item.requireRemaining s (.whole n) = .ok remaining ↔ (remaining : ℤ) = n := by
  rw [Item.requireRemaining]
  split_ifs with h
  · refine ⟨nofun, fun hn => ?_⟩
    omega
  · rw [Except.ok.injEq]
    omega

theorem positive_eq_ok_iff {zero : Fault} {g : Given Money.Positive} :
    (Given.given m).positive zero = .ok g ↔ ∃ p : Money.Positive, g = .given p ∧ p.1 = m := by
  rw [Given.positive]
  split_ifs with h
  · rw [Except.ok.injEq]
    constructor
    · rintro rfl
      exact ⟨_, rfl, rfl⟩
    · rintro ⟨p, rfl, rfl⟩
      rfl
  · refine ⟨nofun, ?_⟩
    rintro ⟨p, -, rfl⟩
    exact absurd p.2 h

/-! ### Items, selections and write-offs -/

/-- **Items.** An item consists of the values that it is made of. -/
theorem Item.ofValues_eq_ok_iff {item : Item} :
    Item.ofValues (.text s) (.given m) (.whole n) = .ok item ↔
      item.id = s ∧ item.unitPrice = m ∧ (item.remaining : ℤ) = n := by
  constructor
  · intro h
    obtain ⟨id, hid, h⟩ := bind_eq_ok_iff.1 h
    obtain ⟨g, hg, h⟩ := bind_eq_ok_iff.1 h
    obtain ⟨remaining, hremaining, h⟩ := bind_eq_ok_iff.1 h
    obtain ⟨price, rfl, hprice⟩ := positive_eq_ok_iff.1 hg
    cases h
    exact ⟨requireItemId_eq_ok_iff.1 hid, hprice, requireRemaining_eq_ok_iff.1 hremaining⟩
  · rintro ⟨rfl, rfl, hremaining⟩
    refine bind_eq_ok_iff.2 ⟨⟨_, item.id_notBlank⟩, requireItemId_eq_ok_iff.2 rfl, ?_⟩
    refine bind_eq_ok_iff.2 ⟨_, positive_eq_ok_iff.2 ⟨⟨_, item.unitPrice_pos⟩, rfl, rfl⟩, ?_⟩
    exact bind_eq_ok_iff.2 ⟨_, requireRemaining_eq_ok_iff.2 hremaining, rfl⟩

/-- **Selections.** A selection consists of the id and the quantity that it is made of. -/
theorem Selection.ofValues_eq_ok_iff {sel : Selection} :
    Selection.ofValues (.text s) (.whole n) = .ok sel ↔ sel.id = s ∧ (sel.quantity : ℤ) = n := by
  constructor
  · intro h
    obtain ⟨id, hid, h⟩ := bind_eq_ok_iff.1 h
    obtain ⟨quantity, hquantity, h⟩ := bind_eq_ok_iff.1 h
    cases h
    exact ⟨requireItemId_eq_ok_iff.1 hid, requireQuantity_eq_ok_iff.1 hquantity⟩
  · rintro ⟨rfl, hquantity⟩
    refine bind_eq_ok_iff.2 ⟨⟨_, sel.id_notBlank⟩, requireItemId_eq_ok_iff.2 rfl, ?_⟩
    exact bind_eq_ok_iff.2 ⟨⟨_, sel.quantity_pos⟩, requireQuantity_eq_ok_iff.2 hquantity, rfl⟩

/-- No selection is made of a blank id, nor of a quantity that is not positive; the id is looked at
first. -/
theorem Selection.ofValues_eq_error_iff {f : Fault} :
    Selection.ofValues (.text s) (.whole n) = .error f ↔
      Text.isBlankText s = true ∧ f = .itemId (.text s) ∨
        Text.isBlankText s = false ∧ n ≤ 0 ∧ f = .quantityNotPositive n := by
  rw [Selection.ofValues, bind_eq_error_iff, requireItemId_eq_error_iff]
  refine or_congr_right ⟨?_, ?_⟩
  · rintro ⟨id, hid, h⟩
    rcases bind_eq_error_iff.1 h with hquantity | ⟨quantity, -, h⟩
    · exact ⟨requireItemId_eq_ok_iff.1 hid ▸ id.2, requireQuantity_eq_error_iff.1 hquantity⟩
    · cases h
  · rintro ⟨hid, hquantity⟩
    refine ⟨⟨s, hid⟩, requireItemId_eq_ok_iff.2 rfl, ?_⟩
    exact bind_eq_error_iff.2 (.inl (requireQuantity_eq_error_iff.2 hquantity))

/-- **Write-offs of a tab.** A write-off consists of the values that it is made of, its note as it
is kept. -/
theorem WriteOff.ofValues_eq_ok_iff {w : WriteOff} :
    WriteOff.ofValues (.given m) (.given reason) note = .ok w ↔
      w.amount = m ∧ w.reason = reason ∧ Note.normalize "WriteOff" note = .ok w.note := by
  constructor
  · intro h
    obtain ⟨reason, hreason, h⟩ := bind_eq_ok_iff.1 h
    obtain ⟨g, hg, h⟩ := bind_eq_ok_iff.1 h
    obtain ⟨note, hnote, h⟩ := bind_eq_ok_iff.1 h
    obtain ⟨amount, rfl, hamount⟩ := positive_eq_ok_iff.1 hg
    cases hreason
    cases h
    exact ⟨hamount, rfl, hnote⟩
  · rintro ⟨rfl, rfl, hnote⟩
    refine bind_eq_ok_iff.2 ⟨w.reason, rfl, ?_⟩
    refine bind_eq_ok_iff.2 ⟨_, positive_eq_ok_iff.2 ⟨⟨_, w.amount_pos⟩, rfl, rfl⟩, ?_⟩
    exact bind_eq_ok_iff.2 ⟨_, hnote, rfl⟩

/-- **Write-offs of items.** The same holds of a write-off of a quantity of an item. -/
theorem ItemWriteOff.ofValues_eq_ok_iff {w : ItemWriteOff} :
    ItemWriteOff.ofValues (.text s) (.whole n) (.given m) (.given reason) note = .ok w ↔
      w.id = s ∧ (w.quantity : ℤ) = n ∧ w.amount = m ∧ w.reason = reason ∧
        Note.normalize "ItemWriteOff" note = .ok w.note := by
  constructor
  · intro h
    obtain ⟨id, hid, h⟩ := bind_eq_ok_iff.1 h
    obtain ⟨reason, hreason, h⟩ := bind_eq_ok_iff.1 h
    obtain ⟨quantity, hquantity, h⟩ := bind_eq_ok_iff.1 h
    obtain ⟨g, hg, h⟩ := bind_eq_ok_iff.1 h
    obtain ⟨note, hnote, h⟩ := bind_eq_ok_iff.1 h
    obtain ⟨amount, rfl, hamount⟩ := positive_eq_ok_iff.1 hg
    cases hreason
    cases h
    exact ⟨requireItemId_eq_ok_iff.1 hid, requireQuantity_eq_ok_iff.1 hquantity, hamount, rfl,
      hnote⟩
  · rintro ⟨rfl, hquantity, rfl, rfl, hnote⟩
    refine bind_eq_ok_iff.2 ⟨⟨_, w.id_notBlank⟩, requireItemId_eq_ok_iff.2 rfl, ?_⟩
    refine bind_eq_ok_iff.2 ⟨w.reason, rfl, ?_⟩
    refine bind_eq_ok_iff.2 ⟨⟨_, w.quantity_pos⟩, requireQuantity_eq_ok_iff.2 hquantity, ?_⟩
    refine bind_eq_ok_iff.2 ⟨_, positive_eq_ok_iff.2 ⟨⟨_, w.amount_pos⟩, rfl, rfl⟩, ?_⟩
    exact bind_eq_ok_iff.2 ⟨_, hnote, rfl⟩

end Settlement
