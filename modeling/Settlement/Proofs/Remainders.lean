import Settlement.Proofs.Apportionment
import Settlement.Proofs.RoundedShares

/-!
# Small remainders

An allocation rounds each share by itself, and what the roundings miss of the total is moved cent by
cent. Where every cap is written with ten digits and the caps cover the total, no rounded share is
above its cap (`roundedShare_eq`), so that holding it down changes nothing, and each is off by at
most 0.56 cents. The cents to move are therefore at most 0.56 for each cap, however large the total
is (`plan_remainder_le`).
-/

namespace Settlement.Allocation

open Settlement.Distribution

variable {total totalCap cap : Money} {caps rounded : Table Money} {raw : Table Decimal}
  {id : String} {x : Decimal} {p : Plan}

/-! ### Shares below their caps -/

/-- A share that is at most its cap stays as it is rounded. -/
private theorem roundedShare_eq (hcur : cap.currency = total.currency)
    (hraw : raw.find? id = some x) (hneg : x.negative = false)
    (hle : Rounding.halfUp.nearest (x.magnitude * 100) ≤ cap.cents) :
    ∃ share, Money.ofDecimal total.currency x = .ok share ∧
      roundedShare total raw id cap = .ok share := by
  obtain ⟨share, hshare⟩ := Money.exists_ofDecimal (c := total.currency) hneg
    (hle.trans_lt cap.lt_bound)
  have hcents := Money.cents_ofDecimal hshare
  have hmin : share.min cap = .ok share := by
    rw [Money.min_eq_ok_iff]
    refine ⟨(Money.currency_ofDecimal hshare).trans hcur.symm, rfl, ?_⟩
    rw [min_eq_left (hcents ▸ hle)]
  refine ⟨share, hshare, ?_⟩
  rw [roundedShare, hraw]
  exact bind_eq_ok_iff.2 ⟨share, hshare, hmin⟩

/-- **Clamping.** Under caps of ten digits that cover the total, each share is rounded to
`shareCents`, and holding it down to its cap leaves it as it is. -/
private theorem exists_share (hcaps : caps.InCurrency total.currency) (hpos : 0 < caps.cents)
    (hle : total.cents ≤ caps.cents) (h : planShares total caps = .ok p)
    (hcap : caps.find? id = some cap) (hsmall : cap.cents < 10 ^ 10) :
    ∃ x share, (⟨id, .finite x⟩ : Share) ∈ p.shares ∧
      Money.ofDecimal total.currency x = .ok share ∧ p.rounded.find? id = some share ∧
      share.cents = shareCents total.cents cap.cents caps.cents ∧ share.cents ≤ cap.cents := by
  obtain ⟨totalCap, raw, hsum, hraw, hshares, hrounded⟩ := exists_parts hcaps h
  rw [← hsum] at hpos hle ⊢
  obtain ⟨raw', hraw', hall⟩ := exists_rawShares total caps hpos
  cases hraw.symm.trans hraw'
  obtain ⟨x, hx, hneg, hmag⟩ := hall id cap hcap
  have hshare : Rounding.halfUp.nearest (x.magnitude * 100) ≤ cap.cents := by
    rw [hmag]
    exact shareCents_le hpos hle hsmall
  obtain ⟨share, hof, hheld⟩ := roundedShare_eq (hcaps id cap hcap) hx hneg hshare
  obtain ⟨m, hm, hmade⟩ := Table.find?_traverse hrounded hcap
  cases hheld.symm.trans hmade
  have hcents := Money.cents_ofDecimal hof
  refine ⟨x, share, ?_, hof, hm, ?_, hcents ▸ hshare⟩
  · rw [hshares]
    exact List.mem_map.2 ⟨(id, x), Table.find?_eq_some_iff.1 hx, rfl⟩
  · rw [hcents, hmag, shareCents]

/-! ### The sum of the errors -/

/-- Numbers that are each close to a rational add up to a number close to the sum. -/
private theorem abs_sum_sub_sum_le {f : String → ℕ} {g : String → ℚ} {e : ℚ} {l : List String}
    (h : ∀ k ∈ l, |(f k : ℚ) - g k| ≤ e) :
    |((l.map f).sum : ℚ) - (l.map g).sum| ≤ e * l.length := by
  induction l with
  | nil => simp
  | cons k l ih =>
    have hfirst := abs_le.1 (h k List.mem_cons_self)
    have hrest := abs_le.1 (ih fun k' hk' => h k' (List.mem_cons_of_mem k hk'))
    simp only [List.map_cons, List.sum_cons, List.length_cons, Nat.cast_add, Nat.cast_one]
    rw [abs_le]
    constructor <;> linarith

/-- Exact shares add up to the share of the sum. -/
private theorem sum_exact_shares (f : String → ℕ) (t w : ℕ) (l : List String) :
    (l.map fun k => (t * f k / w : ℚ)).sum = t * (l.map f).sum / w := by
  induction l with
  | nil => simp
  | cons k l ih =>
    simp only [List.map_cons, List.sum_cons, Nat.cast_add, ih]
    ring

/-- **The remainder.** It is at most 0.56 cents for each cap. -/
private theorem abs_remainder_le (hcaps : caps.InCurrency total.currency) (hpos : 0 < caps.cents)
    (hle : total.cents ≤ caps.cents)
    (hsmall : ∀ id cap, caps.find? id = some cap → cap.cents < 10 ^ 10)
    (h : planShares total caps = .ok p) (hsound : p.Sound total caps) :
    |(p.remainder : ℚ)| ≤ 56 / 100 * caps.size := by
  have hclose : ∀ k ∈ caps.keys,
      |(p.rounded.centsAt k : ℚ) - total.cents * caps.centsAt k / caps.cents| ≤ 56 / 100 := by
    intro k hk
    obtain ⟨cap, hcap⟩ := Table.exists_find?_of_mem_keys hk
    obtain ⟨x, share, -, -, hshare, hcents, hshareLe⟩ :=
      exists_share hcaps hpos hle h hcap (hsmall k cap hcap)
    rw [Table.centsAt_of_find? hshare, Table.centsAt_of_find? hcap, hcents]
    exact abs_shareCents_sub_le hpos (hcents ▸ hshareLe.trans_lt (hsmall k cap hcap))
  have hgiven : (caps.keys.map p.rounded.centsAt).sum = p.rounded.cents := by
    rw [Table.cents_eq_sum_centsAt, hsound.within.keys]
  have hexact : (caps.keys.map fun k =>
      (total.cents * caps.centsAt k / caps.cents : ℚ)).sum = total.cents := by
    have hne : (caps.cents : ℚ) ≠ 0 := by exact_mod_cast hpos.ne'
    rw [sum_exact_shares, ← Table.cents_eq_sum_centsAt, mul_div_cancel_right₀ _ hne]
  have hsize : caps.keys.length = caps.size := List.length_map ..
  have hsum := abs_sum_sub_sum_le hclose
  rw [hgiven, hexact, hsize, abs_sub_comm] at hsum
  rw [hsound.remainder]
  exact_mod_cast hsum

/-! ### Moving the remainder -/

/-- A plan is settled by moving as many cents as its remainder has. -/
private theorem settle_eq (hsound : p.Sound total caps) :
    ∃ ids, let o := p.settle total.currency.code
      (o.current, o.fault) =
        if 0 < p.remainder then
          addCents (.oneCent total.currency) (.ofMoney caps) ids p.remainder.natAbs p.rounded
        else removeCents (.oneCent total.currency) ids p.remainder.natAbs p.rounded := by
  rcases eq_or_ne p.remainder 0 with hzero | hne
  · -- nothing is left to move
    refine ⟨[], ?_⟩
    rw [Plan.settle, if_pos hzero, hzero]
    rfl
  obtain ⟨ranking, -, -, hsettle⟩ := hsound.exists_settle hne
  rw [hsettle, move]
  split_ifs
  · exact ⟨_, rfl⟩
  · exact ⟨_, rfl⟩

/-- **Small remainders.** Let caps cover a total, each of them written with ten digits. A plan for
the total exists exactly if the caps have a sum. In it no share is held down to its cap, and the
remainder is at most 0.56 cents for each cap. Settling the plan moves that many cents, one at a
time. -/
theorem plan_remainder_le (total : Money) (caps : Table Money)
    (hcaps : caps.InCurrency total.currency) (hpos : 0 < total.cents)
    (hle : total.cents ≤ caps.cents)
    (hsmall : ∀ id cap, caps.find? id = some cap → cap.cents ≤ 9999999999) :
    ((∃ p, plan total.currency.code total caps = .ok p) ↔ caps.cents < Money.bound) ∧
    ∀ p, plan total.currency.code total caps = .ok p →
      (∀ id cap, caps.find? id = some cap → ∃ x share, (⟨id, .finite x⟩ : Share) ∈ p.shares ∧
        Money.ofDecimal total.currency x = .ok share ∧ p.rounded.find? id = some share) ∧
      |(p.remainder : ℚ)| ≤ 56 / 100 * caps.size ∧
      ∃ (ids : List String) (n : ℕ), (n : ℚ) ≤ 56 / 100 * caps.size ∧
        let o := p.settle total.currency.code
        (o.current, o.fault) =
          if 0 < p.remainder then
            addCents (.oneCent total.currency) (.ofMoney caps) ids n p.rounded
          else removeCents (.oneCent total.currency) ids n p.rounded := by
  have hcapspos : 0 < caps.cents := hpos.trans_le hle
  have hsmall' : ∀ id cap, caps.find? id = some cap → cap.cents < 10 ^ 10 := fun id cap hcap =>
    (hsmall id cap hcap).trans_lt (by norm_num)
  have hzero : ¬ total.isZero = true := by
    rw [Money.isZero_iff]
    omega
  rw [plan_eq hcaps, if_neg hzero]
  rcases planShares_cases hcaps with ⟨p, hp, hsound, -⟩ | ⟨-, hnone⟩ | ⟨⟨x, hx⟩, hrange⟩
  · refine ⟨⟨fun _ => ?_, fun _ => ⟨p, hp⟩⟩, fun p' hp' => ?_⟩
    · obtain ⟨totalCap, -, hsum, -⟩ := exists_parts hcaps hp
      exact hsum ▸ totalCap.lt_bound
    · cases hp.symm.trans hp'
      have hremainder := abs_remainder_le hcaps hcapspos hle hsmall' hp hsound
      refine ⟨fun id cap hcap => ?_, hremainder, ?_⟩
      · obtain ⟨x, share, hmem, hof, hfind, -⟩ :=
          exists_share hcaps hcapspos hle hp hcap (hsmall' id cap hcap)
        exact ⟨x, share, hmem, hof, hfind⟩
      · obtain ⟨ids, hmoved⟩ := settle_eq hsound
        refine ⟨ids, p.remainder.natAbs, ?_, hmoved⟩
        rwa [Nat.cast_natAbs, Int.cast_abs]
  · omega
  · -- no share is out of range, as each is at most its cap
    refine ⟨⟨?_, fun hlt => ?_⟩, fun p hp => ?_⟩
    · rintro ⟨p, hp⟩
      cases hx.symm.trans hp
    · rcases hrange with hsum | ⟨id, cap, hcap, hshare⟩
      · omega
      · have hshareLe := shareCents_le hcapspos hle (hsmall' id cap hcap)
        have := cap.lt_bound
        omega
    · cases hx.symm.trans hp

/-- One euro over three caps of one euro: each share is 33 cents, and one cent is left to move. -/
theorem plan_remainder_le_one_euro :
    let euro := Money.euro 100 (by decide)
    let caps := Table.ofList [("tea", euro), ("cake", euro), ("milk", euro)]
    ∃ p, plan euro.currency.code euro caps = .ok p ∧ p.remainder = 1 ∧
      |(p.remainder : ℚ)| ≤ 56 / 100 * 3 := by
  intro euro caps
  have hsmall : ∀ id cap, caps.find? id = some cap → cap.cents ≤ 9999999999 := fun id cap hcap =>
    (by decide : ∀ m ∈ caps.values, m.cents ≤ 9999999999) cap (Table.mem_values_iff.2 ⟨id, hcap⟩)
  obtain ⟨-, hclose⟩ := plan_remainder_le euro caps
    (Table.inCurrency_iff.2 (by decide)) (by decide) (by decide) hsmall
  obtain ⟨p, hp, hremainder⟩ := exists_of_toOption
    (r := plan euro.currency.code euro caps) (f := fun p => p.remainder) (v := 1)
    (by decide +kernel)
  exact ⟨p, hp, hremainder, (hclose p hp).2.1⟩

end Settlement.Allocation
