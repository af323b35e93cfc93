import Settlement.Allocation.Remainder
import Settlement.Proofs.Amounts
import Settlement.Proofs.Ranking

/-!
# Cents that are moved keep an allocation within its caps

A distribution moves one cent at a time. What a move preserves is that the allocation stays
`Within` its caps: it has an amount for each of them, in one currency, and none above its cap.
Adding a cent raises the sum by one or finds every item at its cap (`addCent_cases`); removing one
lowers the sum by one or finds every item at zero (`removeCent_cases`).

A run of moves (`repeatStep_cases`) therefore ends with the sum that was asked for. It finds no
place for a cent only where the caps add up to less than that (`run_cases`); besides, only a cap
next to the bound of money can stop it.
-/

namespace Settlement.Distribution

open Table (Within)

/-! ### Counting the cents of a remainder -/

/-- A numeral whose magnitude is whole is read as that whole number. -/
private theorem whole?_of_magnitude {x : Decimal} {n : ℕ} (h : x.magnitude = n) :
    whole? x = some (if x.negative then -(n : ℤ) else n) := by
  rw [Decimal.magnitude] at h
  rw [whole?]
  rcases Nat.eq_zero_or_pos x.coefficient with hzero | hpos
  · obtain rfl : n = 0 := by
      rw [hzero, Nat.cast_zero, zero_mul] at h
      exact_mod_cast h.symm
    simp [Decimal.isZero, Decimal.scaled, hzero]
  · have hnz : x.isZero = false := by
      rw [Decimal.isZero, beq_eq_false_iff_ne]
      exact hpos.ne'
    by_cases hexp : 0 ≤ x.exponent
    · -- no places after the point
      have hcoeff : x.coefficient * pow10 (x.exponent - 0).toNat = n := by
        rw [sub_zero, ← Nat.cast_inj (R := ℚ), ← h]
        push_cast
        rw [cast_pow10, ← zpow_natCast, Int.toNat_of_nonneg hexp]
      rw [if_pos (by simp [hexp]), Decimal.scaled, hcoeff]
    · -- the places after the point are all zero
      have hcoeff : x.coefficient = n * pow10 x.exponent.natAbs := by
        have hneg : x.exponent = -(x.exponent.natAbs : ℤ) := by omega
        rw [hneg, zpow_neg, zpow_natCast, ← div_eq_mul_inv, div_eq_iff (by positivity)] at h
        rw [← Nat.cast_inj (R := ℚ), h]
        push_cast
        rw [cast_pow10]
      have hn : 0 < n := Nat.pos_of_mul_pos_right (hcoeff ▸ hpos)
      have hpow := pow10_pos x.exponent.natAbs
      have hdigits : ¬ digitCount x.coefficient ≤ x.exponent.natAbs := by
        intro hle
        have hlt := (lt_pow10_digitCount x.coefficient).trans_le (pow10_le_pow10 hle)
        rw [hcoeff] at hlt
        exact absurd hlt (not_lt.2 (Nat.le_mul_of_pos_left _ hn))
      rw [if_neg (by simp [hexp, hnz]), if_neg hdigits, if_neg (by simp [hcoeff])]
      simp only [hcoeff]
      push_cast
      rw [Int.mul_ediv_cancel _ (by exact_mod_cast hpow.ne')]

/-- Dividing hundredths by a hundredth yields their number, if it is written with few enough
digits. -/
private theorem exists_divide_cent {x : Decimal} {n : ℕ} (h : x.magnitude = n / 100)
    (hdigits : Precision.exact.Represents n) (hrange : (n : ℚ) ≤ 10 ^ maxExponent) :
    ∃ z, Precision.exact.divide x ⟨false, 1, -2⟩ = .ok z ∧
      z.negative = x.negative ∧ z.magnitude = n := by
  have hquot : x.magnitude / (⟨false, 1, -2⟩ : Decimal).magnitude = n := by
    have hcent : (⟨false, 1, -2⟩ : Decimal).magnitude = 1 / 100 := by
      rw [Decimal.magnitude, zpow_neg]
      norm_num
    rw [h, hcent, div_div_div_cancel_right₀ (by norm_num), div_one]
  obtain ⟨z, hz, hneg, hmag⟩ := Precision.exists_divide (p := .exact) (by decide)
    (x := x) (y := ⟨false, 1, -2⟩) (by decide) (hquot ▸ hrange)
  refine ⟨z, hz, ?_, ?_⟩
  · rw [hneg, Bool.bne_false]
  · rw [hmag, hquot, Precision.nearest_of_represents (by decide) (Nat.cast_nonneg _) hdigits]

/-- **Remainders.** A remainder of whole cents is counted exactly, however it is written, if its
number of cents is written with few enough digits. -/
theorem wholeCents_of_magnitude {x : Decimal} {n : ℕ} (h : x.magnitude = n / 100)
    (hdigits : Precision.exact.Represents n) (hrange : (n : ℚ) ≤ 10 ^ maxExponent) :
    wholeCents (.finite x) = .ok (if x.negative then -(n : ℤ) else n) := by
  obtain ⟨z, hz, hneg, hmag⟩ := exists_divide_cent h hdigits hrange
  have hdivide : (Precision.exact.divideNumeric (.finite x)
      (.finite ⟨false, 1, -2⟩)).mapError Fault.trap = .ok (.finite z) := by
    rw [Precision.divideNumeric, hz]
    rfl
  rw [wholeCents, bind_of_eq_ok hdivide]
  simp only [whole?_of_magnitude hmag, hneg]

/-- A remainder of fewer cents than the bound of money is counted exactly. -/
theorem wholeCents_ofHundredths {n : ℤ} (h : n.natAbs < Money.bound) :
    wholeCents (.finite (.ofHundredths n)) = .ok n := by
  have hdigits : Precision.exact.Represents n.natAbs :=
    ⟨n.natAbs, 0, h.le, by decide, by simp⟩
  rw [wholeCents_of_magnitude (Decimal.magnitude_ofHundredths n) hdigits
    (Money.cast_le_zpow_maxExponent h.le (by decide))]
  simp only [Decimal.ofHundredths, decide_eq_true_eq]
  split_ifs with hn <;> congr 1 <;> omega

/-! ### The ranking -/

/-- A share that amounts to money is in range together with its rounding. -/
theorem magnitude_add_amount_le {c : Currency} {x : Decimal} {m : Money}
    (h : Money.ofDecimal c x = .ok m) :
    x.magnitude + m.amount.magnitude ≤ 10 ^ maxExponent := by
  have hround := Rounding.halfUp.le_nearest_add_half (x.magnitude * 100)
  rw [← Money.cents_ofDecimal h] at hround
  have hlt : (m.cents : ℚ) + 1 ≤ 10 ^ 28 := by exact_mod_cast m.lt_bound
  have hm := m.magnitude_amount_le
  calc x.magnitude + m.amount.magnitude ≤ 10 ^ (27 : ℤ) := by
        norm_num at hlt hm ⊢
        linarith
    _ ≤ 10 ^ maxExponent := zpow_le_zpow_right₀ (by norm_num) (by decide)

/-- A share that amounts to money is ranked, under its own id. -/
theorem exists_rank {c : Currency} {id : String} {x : Decimal} {m : Money}
    (h : Money.ofDecimal c x = .ok m) : ∃ r, rank c ⟨id, .finite x⟩ = .ok r ∧ r.id = id := by
  obtain ⟨z, hz, -⟩ :=
    Precision.exists_subtract (p := .exact) (by decide) (magnitude_add_amount_le h)
  exact ⟨⟨id, z⟩, rank_eq_ok_iff.2 ⟨rfl, x, m, rfl, h, hz⟩, rfl⟩

/-- Shares that can be ranked are prepared in their order. -/
theorem exists_prepare {c : Currency} {shares : List Share}
    (h : ∀ s ∈ shares, ∃ r, rank c s = .ok r ∧ r.id = s.id) :
    ∃ ranking, prepare c.code shares = .ok (c, ranking) ∧
      ranking.map Ranked.id = shares.map Share.id := by
  have hmap : ∃ ranking, shares.mapM (rank c) = .ok ranking ∧
      ranking.map Ranked.id = shares.map Share.id := by
    induction shares with
    | nil => exact ⟨[], rfl, rfl⟩
    | cons s shares ih =>
      obtain ⟨r, hr, hid⟩ := h s List.mem_cons_self
      obtain ⟨rs, hrs, hids⟩ := ih fun s' hs' => h s' (List.mem_cons_of_mem s hs')
      refine ⟨r :: rs, ?_, by rw [List.map_cons, List.map_cons, hid, hids]⟩
      rw [List.mapM_cons]
      exact bind_eq_ok_iff.2 ⟨r, hr, bind_eq_ok_iff.2 ⟨rs, hrs, rfl⟩⟩
  obtain ⟨ranking, hranking, hids⟩ := hmap
  exact ⟨ranking, bind_eq_ok_iff.2 ⟨c, c.ofCode_code, bind_eq_ok_iff.2 ⟨ranking, hranking, rfl⟩⟩,
    hids⟩

/-- What is prepared are the ranks of shares. -/
theorem exists_share_of_prepare {c : Currency} {code : String} {shares : List Share}
    {ranking : List Ranked} (h : prepare code shares = .ok (c, ranking)) {r : Ranked}
    (hr : r ∈ ranking) : ∃ s ∈ shares, rank c s = .ok r := by
  obtain ⟨c', -, h⟩ := bind_eq_ok_iff.1 h
  obtain ⟨ranking', hranking, h⟩ := bind_eq_ok_iff.1 h
  cases h
  exact exists_mem_of_mapM hranking hr

/-! ### One cent -/

variable {c : Currency} {caps t u : Table Money} {ids : List String} {id : String} {m now : Money}

/-- The current amount of an item with a cap. -/
private theorem exists_currentOf (h : Within c caps t) (hid : id ∈ caps.keys) :
    ∃ now, currentOf t id = .ok now ∧ t.find? id = some now ∧ now.currency = c := by
  obtain ⟨now, hnow⟩ := Table.exists_find?_of_mem_keys (h.keys ▸ hid)
  refine ⟨now, ?_, hnow, h.currency id now hnow⟩
  rw [currentOf, hnow]

/-- What a look at the first item of a ranking decides. -/
theorem addCent_cons {cent next : Money} {allCaps : Caps} {cap : Given Money} {b : Bool}
    (hnow : currentOf t id = .ok now) (hcap : allCaps.require id = .ok cap)
    (hnext : now.plus cent = .ok next) (hb : next.isWithin cap = .ok b) :
    addCent cent allCaps t (id :: ids) =
      if b then .ok (some (t.insert id next)) else addCent cent allCaps t ids := by
  rw [addCent, hnow, hcap]
  simp only [bind, Except.bind, hnext, hb]

/-- **Adding a cent.** A cent is added to one item, or each item is at its cap already, or the caps
reach up to the bound of money. -/
theorem addCent_cases (hcaps : caps.InCurrency c) (h : Within c caps t)
    (hids : ∀ id ∈ ids, id ∈ caps.keys) :
    (∃ u, addCent (.oneCent c) (.ofMoney caps) t ids = .ok (some u) ∧ Within c caps u ∧
        u.cents = t.cents + 1) ∨
      (addCent (.oneCent c) (.ofMoney caps) t ids = .ok none ∧
        ∀ id ∈ ids, caps.centsAt id ≤ t.centsAt id) ∨
      (∃ x, addCent (.oneCent c) (.ofMoney caps) t ids = .error (.amountOutOfRange x)) ∧
        Money.bound ≤ caps.cents + 1 := by
  induction ids with
  | nil => exact .inr (.inl ⟨rfl, by simp⟩)
  | cons id ids ih =>
    have hid := hids id List.mem_cons_self
    obtain ⟨now, hcurrent, hnow, hcur⟩ := exists_currentOf h hid
    obtain ⟨cap, hcap⟩ := Table.exists_find?_of_mem_keys hid
    have hreq : (Caps.ofMoney caps).require id = .ok (.given cap) := by
      rw [Caps.require_ofMoney, hcap]
    have hle := h.le_cap id
    have hsum := caps.centsAt_le_cents id
    rw [Table.centsAt_of_find? hnow] at hle
    rcases lt_or_ge (now.cents + 1) Money.bound with hlt | hge
    · obtain ⟨next, hnext⟩ : ∃ next, now.plus (.oneCent c) = .ok next :=
        ⟨⟨c, now.cents + 1, hlt⟩, Money.plus_eq_ok_iff.2 ⟨hcur, hcur.symm, rfl⟩⟩
      obtain ⟨-, hnextcur, hnextcents⟩ := Money.plus_eq_ok_iff.1 hnext
      rw [hcur] at hnextcur
      rw [Money.cents_oneCent] at hnextcents
      have hwithin := Money.isWithin_given (hnextcur.trans (hcaps id cap hcap).symm)
      rw [addCent_cons hcurrent hreq hnext hwithin]
      by_cases hroom : next.cents ≤ cap.cents
      · -- the item has room
        rw [if_pos (decide_eq_true hroom)]
        have hinsert := Table.cents_insert hnow next
        refine .inl ⟨_, rfl, h.insert hid hnextcur ?_, by omega⟩
        rwa [Table.centsAt_of_find? hcap]
      · -- the item is at its cap, and the others decide
        rw [if_neg (by simpa using hroom)]
        have hfull : caps.centsAt id ≤ t.centsAt id := by
          rw [Table.centsAt_of_find? hnow, Table.centsAt_of_find? hcap]
          omega
        refine (ih fun id' hid' => hids id' (List.mem_cons_of_mem id hid')).imp_right
          (Or.imp_left ?_)
        rintro ⟨hnone, hall⟩
        exact ⟨hnone, List.forall_mem_cons.2 ⟨hfull, hall⟩⟩
    · -- the sum is made before it is compared with the cap
      obtain ⟨x, hx⟩ := Money.plus_eq_error (b := .oneCent c) hcur hge
      refine .inr (.inr ⟨⟨x, ?_⟩, by omega⟩)
      rw [addCent, hcurrent, hreq]
      simp only [bind, Except.bind, hx]

/-- The first item of a ranking gives a cent if it holds one. -/
theorem removeCent_of_le (cent : Money) (ids : List String) (hnow : currentOf t id = .ok now)
    (hcur : now.currency = cent.currency) (hheld : cent.cents ≤ now.cents) :
    ∃ next, now.minus cent = .ok next ∧
      removeCent cent t (id :: ids) = .ok (some (t.insert id next)) := by
  have hcmp : now.compare cent = .ok (Ord.compare now.cents cent.cents) :=
    Money.compare_eq_ok_iff.2 ⟨hcur, rfl⟩
  obtain ⟨next, hnext⟩ := Money.exists_minus hcur hheld
  refine ⟨next, hnext, ?_⟩
  rw [removeCent, hnow]
  simp only [bind, Except.bind, hcmp]
  rw [if_pos (Nat.isGE_compare.2 hheld), hnext]

/-- The first item of a ranking is passed over if it holds too little. -/
theorem removeCent_of_lt (cent : Money) (ids : List String) (hnow : currentOf t id = .ok now)
    (hcur : now.currency = cent.currency) (hheld : now.cents < cent.cents) :
    removeCent cent t (id :: ids) = removeCent cent t ids := by
  have hcmp : now.compare cent = .ok (Ord.compare now.cents cent.cents) :=
    Money.compare_eq_ok_iff.2 ⟨hcur, rfl⟩
  rw [removeCent, hnow]
  simp only [bind, Except.bind, hcmp]
  rw [if_neg (Nat.isGE_compare.not.2 (not_le.2 hheld))]

/-- **Removing a cent.** A cent is taken from one item, or each item holds none. -/
theorem removeCent_cases (h : Within c caps t) (hids : ∀ id ∈ ids, id ∈ caps.keys) :
    (∃ u, removeCent (.oneCent c) t ids = .ok (some u) ∧ Within c caps u ∧
        u.cents + 1 = t.cents) ∨
      (removeCent (.oneCent c) t ids = .ok none ∧ ∀ id ∈ ids, t.centsAt id = 0) := by
  induction ids with
  | nil => exact .inr ⟨rfl, by simp⟩
  | cons id ids ih =>
    have hid := hids id List.mem_cons_self
    obtain ⟨now, hcurrent, hnow, hcur⟩ := exists_currentOf h hid
    have hle := h.le_cap id
    rw [Table.centsAt_of_find? hnow] at hle
    by_cases hheld : 1 ≤ now.cents
    · -- the item holds a cent
      obtain ⟨next, hnext, hstep⟩ := removeCent_of_le (.oneCent c) ids hcurrent hcur hheld
      obtain ⟨-, -, hnextcur, hnextcents⟩ := Money.minus_eq_ok_iff.1 hnext
      rw [hcur] at hnextcur
      rw [Money.cents_oneCent] at hnextcents
      have hinsert := Table.cents_insert hnow next
      exact .inl ⟨_, hstep, h.insert hid hnextcur (by omega), by omega⟩
    · -- the item holds nothing, and the others decide
      have hzero : t.centsAt id = 0 := by
        rw [Table.centsAt_of_find? hnow]
        omega
      rw [removeCent_of_lt (.oneCent c) ids hcurrent hcur (not_le.1 hheld)]
      refine (ih fun id' hid' => hids id' (List.mem_cons_of_mem id hid')).imp_right ?_
      rintro ⟨hnone, hall⟩
      exact ⟨hnone, List.forall_mem_cons.2 ⟨hzero, hall⟩⟩

/-! ### A run of cents -/

/-- **Runs.** What a step hands on to the next one holds after all of them; otherwise the run ends
where a step finds no place or fails. -/
theorem repeatStep_cases (step : Table Money → Except Fault (Option (Table Money))) (stuck : Fault)
    (Inv : ℕ → Table Money → Prop)
    (hstep : ∀ n t u, Inv (n + 1) t → step t = .ok (some u) → Inv n u) {n : ℕ} (h : Inv n t) :
    (∃ u, repeatStep step stuck n t = (u, none) ∧ Inv 0 u) ∨
      (∃ u k, repeatStep step stuck n t = (u, some stuck) ∧ Inv (k + 1) u ∧ step u = .ok none) ∨
      ∃ u k f, repeatStep step stuck n t = (u, some f) ∧ Inv (k + 1) u ∧ step u = .error f := by
  induction n generalizing t with
  | zero => exact .inl ⟨t, rfl, h⟩
  | succ n ih =>
    rw [repeatStep]
    cases hs : step t with
    | error f => exact .inr (.inr ⟨t, n, f, rfl, h, hs⟩)
    | ok next =>
      cases next with
      | none => exact .inr (.inl ⟨t, n, rfl, h, hs⟩)
      | some u => exact ih (hstep n t u h hs)

/-- A table whose amounts reach all caps has their sum. -/
private theorem cents_eq_of_full (h : Within c caps t) (hids : ids.Perm caps.keys)
    (hfull : ∀ id ∈ ids, caps.centsAt id ≤ t.centsAt id) : t.cents = caps.cents := by
  refine le_antisymm h.cents_le (Table.cents_le_cents (by rw [h.keys]; exact fun _ hk => hk) ?_)
  exact fun k hk => hfull k (hids.mem_iff.2 hk)

/-- A table without amounts has no sum. -/
private theorem cents_eq_zero (h : Within c caps t) (hids : ids.Perm caps.keys)
    (hnone : ∀ id ∈ ids, t.centsAt id = 0) : t.cents = 0 := by
  rw [Table.cents_eq_sum_centsAt, List.sum_eq_zero_iff]
  intro n hn
  obtain ⟨k, hk, rfl⟩ := List.mem_map.1 hn
  exact hnone k (hids.mem_iff.2 (h.keys ▸ hk))

/-- **Adding cents.** All of them find their place unless the caps add up to less than what is
asked for, or reach up to the bound of money. -/
theorem addCents_cases (hcaps : caps.InCurrency c) (hids : ids.Perm caps.keys)
    (h : Within c caps t) (n : ℕ) :
    (∃ u, addCents (.oneCent c) (.ofMoney caps) ids n t = (u, none) ∧ Within c caps u ∧
        u.cents = t.cents + n) ∨
      (∃ u, addCents (.oneCent c) (.ofMoney caps) ids n t = (u, some (.noHeadroom ids)) ∧
        caps.cents < t.cents + n) ∨
      ∃ u x, addCents (.oneCent c) (.ofMoney caps) ids n t = (u, some (.amountOutOfRange x)) ∧
        Money.bound ≤ caps.cents + 1 := by
  have hmem : ∀ id ∈ ids, id ∈ caps.keys := fun id hid => hids.mem_iff.1 hid
  -- the sum and the cents that are still to come make up what is asked for
  rcases repeatStep_cases (fun t => addCent (.oneCent c) (.ofMoney caps) t ids) (.noHeadroom ids)
    (fun k u => Within c caps u ∧ u.cents + k = t.cents + n)
    (by
      rintro k u v ⟨hu, hsum⟩ hv
      rcases addCent_cases hcaps hu hmem with ⟨v', hv', hwithin, hcents⟩ | ⟨hnone, -⟩ |
        ⟨⟨x, hx⟩, -⟩
      · cases hv.symm.trans hv'
        exact ⟨hwithin, by omega⟩
      · cases hv.symm.trans hnone
      · cases hv.symm.trans hx)
    ⟨h, rfl⟩ with ⟨u, hrun, hu, hsum⟩ | ⟨u, k, hrun, ⟨hu, hsum⟩, hstuck⟩ |
      ⟨u, k, f, hrun, ⟨hu, hsum⟩, hfault⟩
  · exact .inl ⟨u, hrun, hu, hsum⟩
  · -- a run that is stuck has reached all caps, with a cent still to come
    refine .inr (.inl ⟨u, hrun, ?_⟩)
    rcases addCent_cases hcaps hu hmem with ⟨v, hv, -⟩ | ⟨-, hfull⟩ | ⟨⟨x, hx⟩, -⟩
    · cases hstuck.symm.trans hv
    · have := cents_eq_of_full hu hids hfull
      omega
    · cases hstuck.symm.trans hx
  · rcases addCent_cases hcaps hu hmem with ⟨v, hv, -⟩ | ⟨hnone, -⟩ | ⟨⟨x, hx⟩, hbound⟩
    · cases hfault.symm.trans hv
    · cases hfault.symm.trans hnone
    · cases hfault.symm.trans hx
      exact .inr (.inr ⟨u, x, hrun, hbound⟩)

/-- **Removing cents.** As many cents as are held can be removed. -/
theorem exists_removeCents (hids : ids.Perm caps.keys) (h : Within c caps t) {n : ℕ}
    (hn : n ≤ t.cents) :
    ∃ u, removeCents (.oneCent c) ids n t = (u, none) ∧ Within c caps u ∧
      u.cents + n = t.cents := by
  have hmem : ∀ id ∈ ids, id ∈ caps.keys := fun id hid => hids.mem_iff.1 hid
  -- what is held covers the cents that are still to be removed
  rcases repeatStep_cases (fun t => removeCent (.oneCent c) t ids) (.nothingHeld ids)
    (fun k u => Within c caps u ∧ u.cents + n = t.cents + k)
    (by
      rintro k u v ⟨hu, hsum⟩ hv
      rcases removeCent_cases hu hmem with ⟨v', hv', hwithin, hcents⟩ | ⟨hnone, -⟩
      · cases hv.symm.trans hv'
        exact ⟨hwithin, by omega⟩
      · cases hv.symm.trans hnone)
    ⟨h, rfl⟩ with ⟨u, hrun, hu, hsum⟩ | ⟨u, k, hrun, ⟨hu, hsum⟩, hstuck⟩ |
      ⟨u, k, f, hrun, ⟨hu, hsum⟩, hfault⟩
  · exact ⟨u, hrun, hu, hsum⟩
  · -- a run that is stuck holds nothing, with a cent still to be removed
    exfalso
    rcases removeCent_cases hu hmem with ⟨v, hv, -⟩ | ⟨-, hzero⟩
    · cases hstuck.symm.trans hv
    · have := cents_eq_zero hu hids hzero
      omega
  · exfalso
    rcases removeCent_cases hu hmem with ⟨v, hv, -⟩ | ⟨hnone, -⟩
    · cases hfault.symm.trans hv
    · cases hfault.symm.trans hnone

/-! ### A whole distribution -/

/-- **Moving cents.** The sum becomes what is asked for unless the caps add up to less than that, or
reach up to the bound of money. -/
theorem move_cases {ranking : List Ranked} (hcaps : caps.InCurrency c)
    (hranking : (ranking.map Ranked.id).Perm caps.keys) (h : Within c caps t) (cents : ℤ)
    (hcents : 0 ≤ t.cents + cents) :
    (∃ u, (move c cents (.ofMoney caps) ranking t).result = .ok u ∧ Within c caps u ∧
        (u.cents : ℤ) = t.cents + cents) ∨
      (∃ ids, (move c cents (.ofMoney caps) ranking t).result = .error (.noHeadroom ids) ∧
        (caps.cents : ℤ) < t.cents + cents) ∨
      ∃ x, (move c cents (.ofMoney caps) ranking t).result = .error (.amountOutOfRange x) ∧
        Money.bound ≤ caps.cents + 1 := by
  rw [move]
  by_cases hpos : 0 < cents
  · simp only [if_pos hpos]
    have hids : ((ranking.mergeSort Ranked.addsBefore).map Ranked.id).Perm caps.keys :=
      ((List.mergeSort_perm ranking _).map _).trans hranking
    have hsum : ((t.cents + cents.natAbs : ℕ) : ℤ) = t.cents + cents := by omega
    rcases addCents_cases hcaps hids h cents.natAbs with ⟨u, hu, hwithin, hucents⟩ | ⟨u, hu, hlt⟩ |
      ⟨u, x, hu, hbound⟩
    · exact .inl ⟨u, by rw [hu]; rfl, hwithin, by omega⟩
    · exact .inr (.inl ⟨_, by rw [hu]; rfl, by omega⟩)
    · exact .inr (.inr ⟨x, by rw [hu]; rfl, hbound⟩)
  · simp only [if_neg hpos]
    have hids : ((ranking.mergeSort Ranked.removesBefore).map Ranked.id).Perm caps.keys :=
      ((List.mergeSort_perm ranking _).map _).trans hranking
    obtain ⟨u, hu, hwithin, hucents⟩ :=
      exists_removeCents hids h (n := cents.natAbs) (by omega)
    exact .inl ⟨u, by rw [hu]; rfl, hwithin, by omega⟩

/-- A remainder that is counted is moved, once the shares are ranked. -/
theorem run_eq_move {code : String} {remainder : Numeric} {allCaps : Caps}
    {shares : List Share} {ranking : List Ranked} {cents : ℤ}
    (hcount : wholeCents remainder = .ok cents) (hne : cents ≠ 0)
    (hprepare : prepare code shares = .ok (c, ranking)) :
    run code remainder allCaps shares t = move c cents allCaps ranking t := by
  rw [run, hcount, hprepare]
  split
  · rename_i heq
    cases heq
  · rename_i heq
    exact absurd (Except.ok.inj heq) hne
  · rename_i heq
    cases heq
    rfl

/-- **Distributions.** A table of shares that amount to money gets the sum of the total, unless the
caps add up to less than the total, or reach up to the bound of money. -/
theorem run_cases {shares : List Share} (hcaps : caps.InCurrency c)
    (hids : shares.map Share.id = caps.keys)
    (hshares : ∀ s ∈ shares, ∃ r, rank c s = .ok r ∧ r.id = s.id) (h : Within c caps t)
    (ht : t.cents < Money.bound) (total : Money) :
    (∃ u, (run c.code (.finite (.ofHundredths (total.cents - t.cents))) (.ofMoney caps) shares
        t).result = .ok u ∧ Within c caps u ∧ u.cents = total.cents) ∨
      (∃ ids, (run c.code (.finite (.ofHundredths (total.cents - t.cents))) (.ofMoney caps) shares
        t).result = .error (.noHeadroom ids) ∧ caps.cents < total.cents) ∨
      ∃ x, (run c.code (.finite (.ofHundredths (total.cents - t.cents))) (.ofMoney caps) shares
        t).result = .error (.amountOutOfRange x) ∧ Money.bound ≤ caps.cents + 1 := by
  have htotal := total.lt_bound
  have hcount := wholeCents_ofHundredths (n := total.cents - t.cents) (by omega)
  by_cases hzero : (total.cents - t.cents : ℤ) = 0
  · rw [hzero] at hcount ⊢
    rw [run, hcount]
    exact .inl ⟨t, rfl, h, by omega⟩
  · obtain ⟨ranking, hprepare, hranking⟩ := exists_prepare hshares
    rw [run_eq_move hcount hzero hprepare]
    have hperm : (ranking.map Ranked.id).Perm caps.keys := by rw [hranking, hids]
    rcases move_cases hcaps hperm h (total.cents - t.cents) (by omega) with
      ⟨u, hu, hwithin, hsum⟩ | ⟨ids, hids, hlt⟩ | hrange
    · exact .inl ⟨u, hu, hwithin, by omega⟩
    · exact .inr (.inl ⟨ids, hids, by omega⟩)
    · exact .inr (.inr hrange)

end Settlement.Distribution
