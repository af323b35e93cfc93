import Settlement.Proofs.Apportionment

/-!
# What shares lose by rounding

Shares are ranked by the difference between a share and its cents. The difference is exact: a share
has ten digits, and what it loses is written with the same unit and is no larger than the share, so
that twenty-eight digits hold it (`represents_abs_sub_cents`). Two shares therefore tie only if they
lost the same amount, and `loss_of_rank` says which.
-/

namespace Settlement

/-- What a share loses by rounding to cents. -/
def lossOf (total part whole : ℕ) : ℚ :=
  proportionOf total part whole - shareCents total part whole / 100

/-- Rounding to cents moves a number by no more than itself: up only from half a cent on. -/
private theorem abs_sub_cents_le {x : ℚ} (hx : 0 ≤ x) :
    |x - Rounding.halfUp.nearest (x * 100) / 100| ≤ x := by
  obtain ⟨n, hn⟩ : ∃ n, n = Rounding.halfUp.nearest (x * 100) := ⟨_, rfl⟩
  have hround := Rounding.halfUp.nearest_sub_half_le (x := x * 100) (by positivity)
  rw [← hn] at hround ⊢
  have htwice : (n : ℚ) / 100 ≤ 2 * x := by
    rcases Nat.eq_zero_or_pos n with hzero | hpos
    · rw [hzero, Nat.cast_zero, zero_div]
      positivity
    · have hone : (1 : ℚ) ≤ n := by exact_mod_cast hpos
      linarith
  have hnonneg : (0 : ℚ) ≤ n / 100 := by positivity
  rw [abs_le]
  constructor <;> linarith

/-- A number with a unit of at least a cent is rounded to itself. -/
private theorem sub_cents_eq_zero {d : ℕ} {e : ℤ} (he : -2 ≤ e) :
    (d * 10 ^ e : ℚ) - Rounding.halfUp.nearest (d * 10 ^ e * 100) / 100 = 0 := by
  obtain ⟨k, hk⟩ := Int.le.dest he
  have hcents : (d * 10 ^ e * 100 : ℚ) = (d * 10 ^ k : ℕ) := by
    rw [← hk, zpow_add₀ (by norm_num), zpow_natCast]
    push_cast
    norm_num
    ring
  rw [hcents, Rounding.nearest_natCast, ← hcents]
  ring

/-- **Losses.** What a number of ten digits loses by rounding to cents has no more digits. -/
theorem represents_abs_sub_cents {x : ℚ} (hx : 0 ≤ x) (h : Precision.working.Represents x) :
    Precision.exact.Represents |x - Rounding.halfUp.nearest (x * 100) / 100| := by
  obtain ⟨d, e, hd, he, hde⟩ := h
  have hexponent : Precision.exact.leastExponent ≤ Precision.working.leastExponent := by decide
  rcases le_or_gt (-2) e with hcents | hfine
  · rw [hde, sub_cents_eq_zero hcents, abs_zero]
    exact ⟨0, e, Nat.zero_le _, hexponent.trans he, by simp⟩
  · -- below a cent, the loss is counted in the unit of the share
    have hle := abs_sub_cents_le hx
    obtain ⟨n, hn⟩ : ∃ n, n = Rounding.halfUp.nearest (x * 100) := ⟨_, rfl⟩
    obtain ⟨k, hk⟩ := Int.le.dest hfine.le
    have hunit : (0 : ℚ) < 10 ^ e := by positivity
    have hloss : |x - n / 100| = ((d : ℤ) - n * 10 ^ k).natAbs * 10 ^ e := by
      have hscaled : (n / 100 : ℚ) = n * 10 ^ k * 10 ^ e := by
        rw [mul_assoc, ← zpow_natCast, ← zpow_add₀ (by norm_num), add_comm, hk]
        norm_num
        ring
      rw [hde, hscaled, ← sub_mul, abs_mul, abs_of_pos hunit, Nat.cast_natAbs]
      push_cast
      rfl
    rw [← hn] at hle ⊢
    refine ⟨((d : ℤ) - n * 10 ^ k).natAbs, e, ?_, hexponent.trans he, hloss⟩
    rw [hloss, hde, mul_le_mul_iff_left₀ hunit, Nat.cast_le] at hle
    exact hle.trans (hd.trans (by decide))

/-- The proportion of amounts has ten digits. -/
private theorem represents_proportionOf (t p w : ℕ) :
    Precision.working.Represents (proportionOf t p w) := by
  rcases (div_nonneg (Precision.nearest_nonneg ..) (by positivity) :
    (0 : ℚ) ≤ Precision.exact.nearest (t / 100 * (p / 100)) / (w / 100)).eq_or_lt with hzero | hpos
  · rw [proportionOf, ← hzero, Precision.nearest_zero]
    exact ⟨0, 0, Nat.zero_le _, by decide, by simp⟩
  · exact Precision.working.represents_nearest hpos

namespace Distribution

/-- **Ranks.** A proportional share is ranked by its exact loss. -/
theorem loss_of_rank {c : Currency} {id : String} {x : Decimal} {r : Ranked} {t p w : ℕ}
    (hneg : x.negative = false) (hmag : x.magnitude = proportionOf t p w)
    (h : rank c ⟨id, .finite x⟩ = .ok r) : r.id = id ∧ r.loss.value = lossOf t p w := by
  obtain ⟨hid, raw, m, hraw, hm, hloss⟩ := rank_eq_ok_iff.1 h
  cases hraw
  obtain ⟨z, hz, hexact⟩ :=
    Precision.exists_subtract (p := .exact) (by decide) (magnitude_add_amount_le hm)
  rw [hz] at hloss
  cases hloss
  have hvalue : x.value - m.amount.value = lossOf t p w := by
    rw [Decimal.value, hneg, Money.value_amount, Money.cents_ofDecimal hm, hmag, lossOf,
      shareCents]
    rfl
  refine ⟨hid, (hexact ?_).trans hvalue⟩
  rw [hvalue, lossOf, shareCents]
  exact represents_abs_sub_cents (Precision.nearest_nonneg ..) (represents_proportionOf t p w)

end Distribution

end Settlement
