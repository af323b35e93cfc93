import Settlement.Proofs.WriteOffSums

/-!
# What a scope takes of item write-offs

A scope of some units takes of the write-offs of an item the amount per unit, ten digits of it, for
each unit that is written off, rounded once and held down to its cap. `roundedCents` is this number
of cents (`within_eq_ok_iff`); below `10 ^ 18` units the product is exact, and `takenCents` is the
same number (`cents_of_within`).

A scope takes more the larger it is (`exists_forItem_le`). What matters to a quote is that it keeps
more of its price as well (`net_le_net`): the unit that is written off at more than its price is
written off in the smaller scope already.
-/

namespace Settlement.WrittenOff

variable {c : Currency} {table t : Table WrittenOff} {w : WrittenOff} {id : String}
  {quantity : ℕ} {cap m : Money}

/-! ### Collected write-offs -/

/-- **Collected** write-offs: every sum is in the currency, and of a positive quantity. -/
def Collected (c : Currency) (table : Table WrittenOff) : Prop :=
  ∀ id w, table.find? id = some w → w.amount.currency = c ∧ 0 < w.quantity

/-- What is collected is collected in the currency. -/
theorem collected_of_collect {l : List ItemWriteOff} (h : collect c l = .ok t) :
    Collected c t := by
  intro id w hw
  have hsums := sums_of_collect h
  refine ⟨hsums.currency id w hw, ?_⟩
  rw [hsums.quantity id w hw]
  exact (mem_map_iff_sumAt_pos ItemWriteOff.quantity_pos).1
    ((hsums.mem_keys id).1 (Table.mem_keys_of_find? hw))

/-! ### What a scope takes -/

/-- The amount per unit, as a number of ten digits. -/
def unitValue (w : WrittenOff) : ℚ := Precision.working.nearest (w.amount.cents / 100 / w.quantity)

/-- What a scope takes before it is held down to its cap, in cents. -/
def takenCents (w : WrittenOff) (quantity : ℕ) : ℕ :=
  Rounding.halfUp.nearest (w.unitValue * (min quantity w.quantity : ℕ) * 100)

/-- What a scope takes before it is held down to its cap, in cents, where units are so many that
their product with the amount per unit is rounded to twenty-eight digits. -/
def roundedCents (w : WrittenOff) (quantity : ℕ) : ℕ :=
  Rounding.halfUp.nearest
    (Precision.exact.nearest (w.unitValue * (min quantity w.quantity : ℕ)) * 100)

theorem unitValue_nonneg (w : WrittenOff) : 0 ≤ w.unitValue := Precision.nearest_nonneg ..

private theorem perUnit_le (hw : 0 < w.quantity) :
    w.amount.amount.magnitude / (Decimal.ofNat w.quantity).magnitude ≤ 10 ^ (26 : ℤ) := by
  have hone : (1 : ℚ) ≤ w.quantity := by exact_mod_cast hw
  rw [Decimal.magnitude_ofNat]
  exact (div_le_self w.amount.amount.magnitude_nonneg hone).trans w.amount.magnitude_amount_le

/-- Written-off units are worth at most twice their amount, however many they are. -/
private theorem unitValue_mul_le (hw : 0 < w.quantity) {n : ℕ} (hn : n ≤ w.quantity) :
    w.unitValue * n ≤ 10 ^ (27 : ℤ) := by
  have hw' : (0 : ℚ) < w.quantity := by exact_mod_cast hw
  have hn' : (n : ℚ) ≤ w.quantity := by exact_mod_cast hn
  have hbound := w.amount.magnitude_amount_le
  rw [Money.magnitude_amount] at hbound
  have hdouble : w.unitValue ≤ 2 * (w.amount.cents / 100 / w.quantity) :=
    Precision.working.nearest_le_two_mul (by positivity)
  calc w.unitValue * n ≤ 2 * (w.amount.cents / 100 / w.quantity) * w.quantity :=
        mul_le_mul hdouble hn' (Nat.cast_nonneg n) (by positivity)
    _ = 2 * (w.amount.cents / 100) := by field_simp
    _ ≤ 10 ^ (27 : ℤ) := by
        norm_num at hbound ⊢
        linarith

theorem exists_perUnit (hw : 0 < w.quantity) :
    ∃ x, w.perUnit = .ok x ∧ x.negative = false ∧ x.magnitude = w.unitValue := by
  obtain ⟨x, hx, hneg, hmag⟩ := Precision.exists_divide (p := .working) (by decide)
    (x := w.amount.amount) (y := .ofNat w.quantity) hw
    ((perUnit_le hw).trans (zpow_le_zpow_right₀ (by norm_num) (by decide)))
  refine ⟨x, ?_, ?_, ?_⟩
  · rw [perUnit, hx]
    rfl
  · rw [hneg, Money.negative_amount]
    rfl
  · rw [hmag, Money.magnitude_amount, Decimal.magnitude_ofNat, unitValue]

/-- Fewer than `10 ^ 18` units of ten digits have an exact product. -/
private theorem nearest_unitValue_mul {n : ℕ} (hn : n < 10 ^ 18) :
    Precision.exact.nearest (w.unitValue * n) = w.unitValue * n := by
  refine Precision.nearest_of_represents (by decide)
    (mul_nonneg w.unitValue_nonneg (Nat.cast_nonneg n)) ?_
  rcases Nat.eq_zero_or_pos w.amount.cents with hzero | hpos
  · have hnone : w.unitValue = 0 := by simp [unitValue, hzero]
    exact ⟨0, 0, Nat.zero_le _, by decide, by simp [hnone]⟩
  rcases Nat.eq_zero_or_pos w.quantity with hzero | hquantity
  · have hnone : w.unitValue = 0 := by simp [unitValue, hzero]
    exact ⟨0, 0, Nat.zero_le _, by decide, by simp [hnone]⟩
  · obtain ⟨k, e, hk, he, hvalue⟩ := Precision.working.represents_nearest
      (x := w.amount.cents / 100 / w.quantity) (by positivity)
    have hleast : Precision.exact.leastExponent ≤ Precision.working.leastExponent := by decide
    refine ⟨k * n, e, ?_, hleast.trans he, ?_⟩
    · calc k * n ≤ 10 ^ Precision.working.digits * 10 ^ 18 := Nat.mul_le_mul hk hn.le
        _ = 10 ^ Precision.exact.digits := by decide
    · rw [unitValue, hvalue]
      push_cast
      ring

private theorem exists_product (hw : 0 < w.quantity) {x : Decimal} {n : ℕ} (hn : n ≤ w.quantity)
    (hneg : x.negative = false) (hmag : x.magnitude = w.unitValue) :
    ∃ y, Precision.exact.multiply x (.ofNat n) = .ok y ∧ y.negative = false ∧
      y.magnitude = Precision.exact.nearest (w.unitValue * n) := by
  have hle : x.magnitude * (Decimal.ofNat n).magnitude ≤ 10 ^ maxExponent := by
    rw [hmag, Decimal.magnitude_ofNat]
    exact (unitValue_mul_le hw hn).trans (zpow_le_zpow_right₀ (by norm_num) (by decide))
  obtain ⟨y, hy, hyneg, hymag⟩ := Precision.exists_multiply (p := .exact) (by decide) hle
  refine ⟨y, hy, ?_, ?_⟩
  · rw [hyneg, hneg]
    rfl
  · rw [hymag, hmag, Decimal.magnitude_ofNat]

/-- What a scope takes is in the currency of its cap, and at most the cap. -/
theorem le_cap_of_within (h : w.within c quantity (.given cap) = .ok m) :
    m.currency = c ∧ m.cents ≤ cap.cents := by
  obtain ⟨x, -, h⟩ := bind_eq_ok_iff.1 h
  obtain ⟨y, -, h⟩ := bind_eq_ok_iff.1 h
  obtain ⟨amount, hamount, h⟩ := bind_eq_ok_iff.1 h
  rw [Money.heldTo_given] at h
  obtain ⟨-, hcur, hcents⟩ := Money.min_eq_ok_iff.1 h
  exact ⟨hcur.trans (Money.currency_ofDecimal hamount), hcents ▸ min_le_right _ _⟩

/-- What a scope takes is the money of one product, held down to the cap. -/
private theorem within_eq (c : Currency) (hw : 0 < w.quantity) (quantity : ℕ) (cap : Money) :
    ∃ y : Decimal, y.negative = false ∧
      Rounding.halfUp.nearest (y.magnitude * 100) = w.roundedCents quantity ∧
      w.within c quantity (.given cap) = (do (← Money.ofDecimal c y).min cap) := by
  obtain ⟨x, hx, hneg, hmag⟩ := exists_perUnit hw
  obtain ⟨y, hy, hyneg, hymag⟩ := exists_product hw (min_le_right quantity w.quantity) hneg hmag
  refine ⟨y, hyneg, by rw [hymag, roundedCents], ?_⟩
  rw [within, hx]
  simp only [bind, Except.bind, hy]
  rfl

/-- **Scopes.** A scope takes what `roundedCents` counts, up to a cap in its currency, if that is in
range. -/
theorem within_eq_ok_iff (hw : 0 < w.quantity) :
    w.within c quantity (.given cap) = .ok m ↔ cap.currency = c ∧
      w.roundedCents quantity < Money.bound ∧ m.currency = c ∧
      m.cents = min (w.roundedCents quantity) cap.cents := by
  obtain ⟨y, hneg, hround, hscope⟩ := within_eq c hw quantity cap
  have hamount : ∀ amount, Money.ofDecimal c y = .ok amount ↔
      amount.currency = c ∧ amount.cents = w.roundedCents quantity := by
    intro amount
    rw [Money.ofDecimal_eq_ok_iff, hround, hneg]
    simp
  rw [hscope, bind_eq_ok_iff]
  simp only [hamount, Money.min_eq_ok_iff]
  constructor
  · rintro ⟨amount, ⟨hcur, hcents⟩, hcap, hm, hmin⟩
    exact ⟨hcap.symm.trans hcur, hcents ▸ amount.lt_bound, hm.trans hcur, hcents ▸ hmin⟩
  · rintro ⟨hcap, hlt, hm, hmin⟩
    exact ⟨⟨c, _, hlt⟩, ⟨rfl, rfl⟩, hcap.symm, hm, hmin⟩

/-- Only the range stops a scope. -/
theorem returns_within (hw : 0 < w.quantity) (hcap : cap.currency = c) :
    Returns (w.within c quantity (.given cap)) fun _ => True := by
  obtain ⟨y, hneg, -, hscope⟩ := within_eq c hw quantity cap
  rw [hscope]
  refine (Money.returns_ofDecimal hneg).bind fun amount hamount => Returns.of_exists ?_
  exact Money.exists_min ((Money.currency_ofDecimal hamount).trans hcap.symm)

/-- Fewer than `10 ^ 18` units are multiplied exactly. -/
theorem roundedCents_eq_takenCents (hquantity : quantity < 10 ^ 18) :
    w.roundedCents quantity = w.takenCents quantity := by
  rw [roundedCents, takenCents,
    nearest_unitValue_mul ((min_le_left quantity w.quantity).trans_lt hquantity)]

/-- Below `10 ^ 18` units a scope takes what `takenCents` counts, up to its cap. -/
theorem cents_of_within (hw : 0 < w.quantity) (hquantity : quantity < 10 ^ 18)
    (h : w.within c quantity (.given cap) = .ok m) :
    m.cents = min (w.takenCents quantity) cap.cents := by
  rw [((within_eq_ok_iff hw).1 h).2.2.2, roundedCents_eq_takenCents hquantity]

/-! ### Larger scopes -/

/-- A larger scope takes at least as much. -/
theorem roundedCents_mono (w : WrittenOff) {q r : ℕ} (hqr : q ≤ r) :
    w.roundedCents q ≤ w.roundedCents r := by
  have hunits : ((min q w.quantity : ℕ) : ℚ) ≤ (min r w.quantity : ℕ) := by
    exact_mod_cast min_le_min_right w.quantity hqr
  have hproduct := mul_le_mul_of_nonneg_left hunits w.unitValue_nonneg
  have hround := Precision.exact.nearest_mono (by decide)
    (mul_nonneg w.unitValue_nonneg (Nat.cast_nonneg _)) hproduct
  exact Rounding.halfUp.nearest_mono
    (mul_nonneg (Precision.nearest_nonneg ..) (by norm_num)) (by linarith)

/-- Each further unit takes at most its price, once a scope takes less than its price. -/
private theorem takenCents_le_add {price q r : ℕ} (hqr : q ≤ r)
    (hless : w.takenCents q < price * q) :
    w.takenCents r ≤ w.takenCents q + price * (r - q) := by
  rcases le_or_gt w.quantity q with hfull | hpart
  · -- nothing more is written off
    rw [takenCents, takenCents, min_eq_right hfull, min_eq_right (hfull.trans hqr)]
    exact Nat.le_add_right _ _
  · set v : ℚ := w.unitValue * 100 with hv
    have hvnonneg : 0 ≤ v := mul_nonneg w.unitValue_nonneg (by norm_num)
    have hq : 0 < q := by
      rcases Nat.eq_zero_or_pos q with rfl | hpos
      · simp at hless
      · exact hpos
    have hq' : (0 : ℚ) < q := by exact_mod_cast hq
    -- rounding up to less than the price means less than the price for each unit
    have hvprice : v < price := by
      have hround :=
        Rounding.halfUp.le_nearest_add_half (w.unitValue * (min q w.quantity : ℕ) * 100)
      rw [← takenCents, min_eq_left hpart.le] at hround
      have hless' : (w.takenCents q : ℚ) + 1 ≤ price * q := by exact_mod_cast hless
      have hvq : v * q < price * q := by
        rw [hv]
        linarith
      exact lt_of_mul_lt_mul_right hvq hq'.le
    -- the larger scope has `d` more units that are written off
    obtain ⟨d, hd⟩ := Nat.le.dest (le_min hqr hpart.le : q ≤ min r w.quantity)
    have hsplit : w.unitValue * (min r w.quantity : ℕ) * 100 ≤
        w.unitValue * (min q w.quantity : ℕ) * 100 + (price * d : ℕ) := by
      rw [← hd, min_eq_left hpart.le]
      have hvd : v * d ≤ price * d := mul_le_mul_of_nonneg_right hvprice.le (Nat.cast_nonneg d)
      push_cast
      rw [hv] at hvd
      linarith
    have hnonneg : ∀ n : ℕ, 0 ≤ w.unitValue * n * 100 := fun n =>
      mul_nonneg (mul_nonneg w.unitValue_nonneg (Nat.cast_nonneg n)) (by norm_num)
    calc w.takenCents r
        ≤ Rounding.halfUp.nearest (w.unitValue * (min q w.quantity : ℕ) * 100 + (price * d : ℕ)) :=
          Rounding.halfUp.nearest_mono (hnonneg _) hsplit
      _ = w.takenCents q + price * d := Rounding.nearest_halfUp_add_natCast (hnonneg _) _
      _ ≤ w.takenCents q + price * (r - q) :=
          Nat.add_le_add_left (Nat.mul_le_mul_left _ (by omega)) _

/-- **Larger scopes.** A larger scope keeps at least as much of its price as a smaller one. -/
theorem net_le_net (w : WrittenOff) (price : ℕ) {q r : ℕ} (hqr : q ≤ r) :
    price * q - min (w.takenCents q) (price * q) ≤
      price * r - min (w.takenCents r) (price * r) := by
  have hprice : price * r = price * q + price * (r - q) := by
    rw [← Nat.mul_add, Nat.add_sub_cancel' hqr]
  rcases lt_or_ge (w.takenCents q) (price * q) with hless | hall
  · have := takenCents_le_add hqr hless
    omega
  · omega

/-! ### All items -/

variable {quantities : Table ℕ} {gross off : Table Money}

theorem forItem_of_ok (h : forItem c table id quantity (.given cap) = .ok m) :
    m.currency = c ∧ m.cents ≤ cap.cents := by
  rw [forItem] at h
  split_ifs at h
  · cases h
    exact ⟨rfl, Nat.zero_le _⟩
  · split at h
    · cases h
      exact ⟨rfl, Nat.zero_le _⟩
    · exact le_cap_of_within h

/-- What is taken for an item, in cents. -/
def offCents (table : Table WrittenOff) (id : String) (quantity cap : ℕ) : ℕ :=
  match table.find? id with
  | none => 0
  | some w => min (w.takenCents quantity) cap

/-- **Larger scopes**, with or without write-offs of the item. -/
theorem net_offCents_le (table : Table WrittenOff) (id : String) (price : ℕ) {q r : ℕ}
    (hqr : q ≤ r) :
    price * q - offCents table id q (price * q) ≤ price * r - offCents table id r (price * r) := by
  rw [offCents, offCents]
  split
  · exact Nat.mul_le_mul_left price hqr
  · exact net_le_net _ price hqr

theorem cents_of_forItem (htable : Collected c table) (hpos : 0 < quantity)
    (hquantity : quantity < 10 ^ 18)
    (h : forItem c table id quantity (.given cap) = .ok m) :
    m.cents = offCents table id quantity cap.cents := by
  rw [forItem, if_neg hpos.ne'] at h
  cases hfind : table.find? id with
  | none =>
    simp only [hfind, Except.ok.injEq] at h
    rw [← h, offCents, hfind, Money.cents_zero]
  | some w =>
    simp only [hfind] at h
    rw [offCents, hfind]
    exact cents_of_within (htable id w hfind).2 hquantity h

theorem returns_forItem (htable : Collected c table) (hcap : cap.currency = c) :
    Returns (forItem c table id quantity (.given cap)) fun _ => True := by
  rw [forItem]
  split_ifs
  · exact .ok trivial
  · split
    · exact .ok trivial
    · rename_i w hw
      exact returns_within (htable id w hw).2 hcap

/-- **Growth.** A larger scope takes at least as much of the write-offs of an item, under the same cap
or a larger one; and a smaller scope is in range if a larger one is. -/
theorem exists_forItem_le (htable : Collected c table) {q r : ℕ} {cap' m' : Money} (hqr : q ≤ r)
    (hcap : cap.currency = c) (hle : cap.cents ≤ cap'.cents)
    (h : forItem c table id r (.given cap') = .ok m') :
    ∃ m, forItem c table id q (.given cap) = .ok m ∧ m.cents ≤ m'.cents := by
  rcases Nat.eq_zero_or_pos q with rfl | hpos
  · exact ⟨.zero c, if_pos rfl, Nat.zero_le _⟩
  · rw [forItem, if_neg (hpos.trans_le hqr).ne'] at h
    rw [forItem, if_neg hpos.ne']
    cases hfind : table.find? id with
    | none => exact ⟨.zero c, rfl, Nat.zero_le _⟩
    | some w =>
      simp only [hfind] at h
      have hw := (htable id w hfind).2
      obtain ⟨-, hlt, -, hcents⟩ := (within_eq_ok_iff hw).1 h
      have hmono := w.roundedCents_mono hqr
      exact ⟨⟨c, min (w.roundedCents q) cap.cents, by omega⟩,
        (within_eq_ok_iff hw).2 ⟨hcap, by omega, rfl, rfl⟩, hcents ▸ min_le_min hmono hle⟩

/-- **Allocations, item by item.** Each item of a scope takes its part below the cap of the item. -/
theorem find?_allocate (h : allocate c table quantities (.ofMoney gross) = .ok off)
    (hid : quantities.find? id = some quantity) :
    ∃ cap m, gross.find? id = some cap ∧ off.find? id = some m ∧
      forItem c table id quantity (.given cap) = .ok m := by
  obtain ⟨m, hm, h⟩ := Table.find?_traverse h hid
  obtain ⟨given, hgiven, h⟩ := bind_eq_ok_iff.1 h
  rw [Caps.require_ofMoney] at hgiven
  split at hgiven
  · cases hgiven
  · rename_i cap hcap
    cases hgiven
    exact ⟨cap, m, hcap, hm, h⟩

/-- What is taken is within the prices of the scope. -/
theorem within_of_allocate (hkeys : gross.keys = quantities.keys)
    (h : allocate c table quantities (.ofMoney gross) = .ok off) : Table.Within c gross off := by
  have hoff : off.keys = quantities.keys := Table.keys_traverse h
  refine Table.within_of_find? (hoff.trans hkeys.symm) fun id m hm => ?_
  obtain ⟨n, hn⟩ := Table.find?_isSome_of_keys_eq hoff.symm hm
  obtain ⟨cap, m', hcap, hm', hfor⟩ := find?_allocate h hn
  cases hm.symm.trans hm'
  obtain ⟨hcur, hle⟩ := forItem_of_ok hfor
  exact ⟨hcur, cap, hcap, hle⟩

/-- There is an allocation to a scope if there is one to each of its items. -/
theorem exists_allocate (hkeys : gross.keys = quantities.keys)
    (h : ∀ id n cap, quantities.find? id = some n → gross.find? id = some cap →
      ∃ m, forItem c table id n (.given cap) = .ok m) :
    ∃ off, allocate c table quantities (.ofMoney gross) = .ok off := by
  refine Table.exists_traverse fun id n hn => ?_
  obtain ⟨cap, hcap⟩ := Table.find?_isSome_of_keys_eq hkeys hn
  rw [Caps.require_ofMoney, hcap]
  exact h id n cap hn hcap

/-- Only the range stops an allocation to a scope. -/
theorem returns_allocate (htable : Collected c table) (hgross : gross.InCurrency c)
    (hkeys : gross.keys = quantities.keys) :
    Returns (allocate c table quantities (.ofMoney gross)) fun off =>
      allocate c table quantities (.ofMoney gross) = .ok off := by
  refine Table.returns_traverse fun id n hn => ?_
  obtain ⟨cap, hcap⟩ := Table.find?_isSome_of_keys_eq hkeys hn
  have hreq : (Caps.ofMoney gross).require id = .ok (.given cap) := by
    rw [Caps.require_ofMoney, hcap]
  rw [hreq]
  exact returns_forItem htable (hgross id cap hcap)

end Settlement.WrittenOff
