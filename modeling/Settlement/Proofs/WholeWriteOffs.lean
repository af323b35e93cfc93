import Settlement.Proofs.WriteOffs

/-!
# Write-offs that are taken whole

A scope that holds all written-off units of an item takes the amount per unit as often as the amount
was divided by. The amount per unit has ten digits, so that the product comes back to the amount
within a part of `10 ^ -9`, which is less than half a cent of an amount below `10 ^ 9` cents:
rounded to cents it is the amount again (`roundedCents_whole`).

This holds for as many units as a numeral can count. Where they are so many that the amount per unit
loses digits to the least exponent, what is lost of it is below half a unit of that exponent, and too
little for half a cent even times all units.
-/

namespace Settlement.WrittenOff

variable {c : Currency} {table : Table WrittenOff} {w : WrittenOff} {l : List ItemWriteOff}
  {id : String} {quantity : ℕ} {cap m : Money}

/-! ### There and back -/

/-- The amount per unit, times the units, errs by a part of `10 ^ -9` of the amount at most, or by a
part of ten where the amount per unit loses digits to the least exponent. -/
private theorem abs_unitValue_mul_sub_le (hamount : 0 < w.amount.cents) (hw : 0 < w.quantity)
    (hexp : (w.quantity : ℚ) < 10 ^ (maxExponent + 1)) :
    |w.unitValue * w.quantity - w.amount.cents / 100| ≤
      max ((w.amount.cents : ℚ) / 100 * 10 ^ (-9 : ℤ)) (10 ^ (-8 : ℤ)) / 2 := by
  have hw' : (0 : ℚ) < w.quantity := by exact_mod_cast hw
  have hamount' : (0 : ℚ) < w.amount.cents := by exact_mod_cast hamount
  set x : ℚ := w.amount.cents / 100 / w.quantity with hx_def
  have hx : 0 < x := by positivity
  have hmul : x * w.quantity = w.amount.cents / 100 := div_mul_cancel₀ _ hw'.ne'
  have herr : |w.unitValue - x| ≤
      max (x * 10 ^ (-9 : ℤ)) (10 ^ Precision.working.leastExponent) / 2 :=
    Precision.working.abs_nearest_sub_le_max hx
  have hleast : (10 : ℚ) ^ Precision.working.leastExponent * w.quantity ≤ 10 ^ (-8 : ℤ) := by
    calc (10 : ℚ) ^ Precision.working.leastExponent * w.quantity
        ≤ 10 ^ Precision.working.leastExponent * 10 ^ (maxExponent + 1) :=
          mul_le_mul_of_nonneg_left hexp.le (by positivity)
      _ = 10 ^ (-8 : ℤ) := by
          rw [← zpow_add₀ (by norm_num)]
          congr 1
  calc |w.unitValue * w.quantity - w.amount.cents / 100| = |w.unitValue - x| * w.quantity := by
        rw [← hmul, ← sub_mul, abs_mul, abs_of_pos hw']
    _ ≤ max (x * 10 ^ (-9 : ℤ)) (10 ^ Precision.working.leastExponent) / 2 * w.quantity :=
        mul_le_mul_of_nonneg_right herr hw'.le
    _ = max ((w.amount.cents : ℚ) / 100 * 10 ^ (-9 : ℤ))
          (10 ^ Precision.working.leastExponent * w.quantity) / 2 := by
        rw [div_mul_eq_mul_div, max_mul_of_nonneg _ _ hw'.le, mul_right_comm, hmul]
    _ ≤ max ((w.amount.cents : ℚ) / 100 * 10 ^ (-9 : ℤ)) (10 ^ (-8 : ℤ)) / 2 :=
        div_le_div_of_nonneg_right (max_le_max le_rfl hleast) (by norm_num)

/-- Below `10 ^ 9` cents, the amount per unit comes back to the amount. -/
private theorem nearest_unitValue_mul_quantity (hamount : 0 < w.amount.cents)
    (hw : 0 < w.quantity) (hexp : (w.quantity : ℚ) < 10 ^ (maxExponent + 1))
    (hsmall : w.amount.cents < 10 ^ 9) :
    Rounding.halfUp.nearest (Precision.exact.nearest (w.unitValue * w.quantity) * 100) =
      w.amount.cents := by
  have hone : (1 : ℚ) ≤ w.amount.cents := by exact_mod_cast hamount
  have hless : (w.amount.cents : ℚ) ≤ 999999999 := by
    exact_mod_cast (show w.amount.cents ≤ 999999999 by omega)
  have herr := abs_unitValue_mul_sub_le hamount hw hexp
  -- the error is below half a cent, and below half of the amount
  have hcent : max ((w.amount.cents : ℚ) / 100 * 10 ^ (-9 : ℤ)) (10 ^ (-8 : ℤ)) ≤
      999999999 / 100000000000 := max_le (by norm_num; linarith) (by norm_num)
  have hpart : max ((w.amount.cents : ℚ) / 100 * 10 ^ (-9 : ℤ)) (10 ^ (-8 : ℤ)) ≤
      w.amount.cents / 100 := max_le (by norm_num; linarith) (by norm_num; linarith)
  obtain ⟨hlower, hupper⟩ := abs_le.1 herr
  have hlarge : (10 : ℚ) ^ (-maxExponent) ≤ w.unitValue * w.quantity := by
    calc (10 : ℚ) ^ (-maxExponent) ≤ 10 ^ (-3 : ℤ) :=
          zpow_le_zpow_right₀ (by norm_num) (by decide)
      _ ≤ w.unitValue * w.quantity := by
          norm_num
          linarith
  have hround : |Precision.exact.nearest (w.unitValue * w.quantity) - w.unitValue * w.quantity| ≤
      w.unitValue * w.quantity * 10 ^ (-27 : ℤ) / 2 :=
    Precision.exact.abs_nearest_sub_le_mul hlarge
  obtain ⟨hroundLower, hroundUpper⟩ := abs_le.1 hround
  norm_num at hroundLower hroundUpper
  refine Rounding.halfUp.nearest_eq_of_abs_sub_lt
    (mul_nonneg (Precision.nearest_nonneg ..) (by norm_num)) ?_
  rw [abs_lt]
  constructor <;> linarith

/-- **Whole amounts.** A scope that holds all written-off units takes their amount, before it is held
down to its cap. -/
theorem roundedCents_whole (hamount : 0 < w.amount.cents) (hw : 0 < w.quantity)
    (hexp : (w.quantity : ℚ) < 10 ^ (maxExponent + 1)) (hsmall : w.amount.cents < 10 ^ 9)
    (hle : w.quantity ≤ quantity) : w.roundedCents quantity = w.amount.cents := by
  rw [roundedCents, min_eq_right hle, nearest_unitValue_mul_quantity hamount hw hexp hsmall]

/-! ### Items with and without write-offs -/

/-- **Whole amounts**, of an item with or without write-offs. -/
theorem exists_forItem_whole (hsums : Sums c l table) (hcap : cap.currency = c)
    (hexp : (quantityOf l id : ℚ) < 10 ^ (maxExponent + 1)) (hsmall : amountOf l id < 10 ^ 9)
    (hle : quantityOf l id ≤ quantity) :
    ∃ m, forItem c table id quantity (.given cap) = .ok m ∧
      m.cents = min (amountOf l id) cap.cents := by
  by_cases hid : id ∈ l.map ItemWriteOff.id
  · obtain ⟨w, hw⟩ := Table.exists_find?_of_mem_keys ((hsums.mem_keys id).2 hid)
    have hamount := hsums.amount id w hw
    have hquantity := hsums.quantity id w hw
    have hpos : 0 < quantityOf l id :=
      (mem_map_iff_sumAt_pos ItemWriteOff.quantity_pos).1 hid
    have hamountpos : 0 < amountOf l id :=
      (mem_map_iff_sumAt_pos ItemWriteOff.amount_pos).1 hid
    rw [forItem, if_neg (hpos.trans_le hle).ne']
    simp only [hw]
    rw [← hquantity] at hpos hexp hle
    rw [← hamount] at hamountpos hsmall ⊢
    have hwhole := roundedCents_whole hamountpos hpos hexp hsmall hle
    have hlt := w.amount.lt_bound
    refine ⟨⟨c, min w.amount.cents cap.cents, (min_le_left _ _).trans_lt hlt⟩, ?_, rfl⟩
    rw [within_eq_ok_iff hpos, hwhole]
    exact ⟨hcap, hlt, rfl, rfl⟩
  · -- nothing is taken of an item that is not written off
    have hnone := Table.find?_eq_none_iff.2 (mt (hsums.mem_keys id).1 hid)
    refine ⟨.zero c, ?_, ?_⟩
    · rw [forItem]
      simp only [hnone, ite_self]
    · rw [amountOf, sumAt_eq_zero hid, Nat.zero_min, Money.cents_zero]

/-- Once a scope holds all written-off units, further units make no difference to it. -/
theorem forItem_of_quantityOf_le (hsums : Sums c l table) (hle : quantityOf l id ≤ quantity)
    (cap : Given Money) :
    forItem c table id quantity cap = forItem c table id (quantityOf l id) cap := by
  rw [forItem, forItem]
  cases hfind : table.find? id with
  | none => simp only [ite_self]
  | some w =>
    have hid := (hsums.mem_keys id).1 (Table.mem_keys_of_find? hfind)
    have hpos : 0 < quantityOf l id :=
      (mem_map_iff_sumAt_pos ItemWriteOff.quantity_pos).1 hid
    rw [if_neg (hpos.trans_le hle).ne', if_neg hpos.ne']
    simp only [within, hsums.quantity id w hfind, min_self, min_eq_right hle]

/-! ### Scopes -/

/-- **Scopes.** Write-offs in one currency are collected exactly if the sum for each item is in range.
A scope is then allocated what each of its items takes. An item takes

* its whole written-off amount, up to the cap, in a scope of all its written-off units, if the
  amount is below `10 ^ 9` cents and its units can be counted by a numeral;
* never more than the cap, in any scope, and something unless it leaves the range;
* at least as much in a larger scope, under the same cap;
* the same in all scopes of all its written-off units. -/
theorem allocate_items (hcur : ∀ w ∈ l, w.amount.currency = c) :
    ((∃ table, collect c l = .ok table) ↔ ∀ id, amountOf l id < Money.bound) ∧
    ∀ table, collect c l = .ok table →
      (∀ quantities gross : Table _, gross.keys = quantities.keys →
        ((∃ off, allocate c table quantities (.ofMoney gross) = .ok off) ↔
          ∀ id q cap, quantities.find? id = some q → gross.find? id = some cap →
            ∃ m, forItem c table id q (.given cap) = .ok m) ∧
        ∀ off, allocate c table quantities (.ofMoney gross) = .ok off →
          ∀ id q, quantities.find? id = some q → ∃ cap m, gross.find? id = some cap ∧
            off.find? id = some m ∧ forItem c table id q (.given cap) = .ok m) ∧
      ∀ id cap, cap.currency = c →
        (amountOf l id < 10 ^ 9 → (quantityOf l id : ℚ) < 10 ^ (maxExponent + 1) →
          ∀ q, quantityOf l id ≤ q → ∃ m, forItem c table id q (.given cap) = .ok m ∧
            m.currency = c ∧ m.cents = min (amountOf l id) cap.cents) ∧
        (∀ q, Returns (forItem c table id q (.given cap)) fun m =>
          m.currency = c ∧ m.cents ≤ cap.cents) ∧
        (∀ q r m', q ≤ r → forItem c table id r (.given cap) = .ok m' →
          ∃ m, forItem c table id q (.given cap) = .ok m ∧ m.cents ≤ m'.cents) ∧
        ∀ q, quantityOf l id ≤ q →
          forItem c table id q (.given cap) = forItem c table id (quantityOf l id) (.given cap) := by
  refine ⟨exists_collect_iff hcur, fun table htable => ?_⟩
  have hsums := sums_of_collect htable
  have hcollected := collected_of_collect htable
  refine ⟨fun quantities gross hkeys => ⟨⟨?_, exists_allocate hkeys⟩, ?_⟩,
    fun id cap hcap => ⟨fun hsmall hexp q hle => ?_, fun q => ?_, fun q r m' hqr h => ?_,
      fun q hle => forItem_of_quantityOf_le hsums hle _⟩⟩
  · rintro ⟨off, hoff⟩ id q cap hq hprice
    obtain ⟨cap', m, hprice', -, hm⟩ := find?_allocate hoff hq
    cases hprice.symm.trans hprice'
    exact ⟨m, hm⟩
  · exact fun off hoff id q hq => find?_allocate hoff hq
  · obtain ⟨m, hm, hcents⟩ := exists_forItem_whole hsums hcap hexp hsmall hle
    exact ⟨m, hm, (forItem_of_ok hm).1, hcents⟩
  · exact (returns_forItem hcollected hcap).eq_ok.mono fun m hm => forItem_of_ok hm
  · exact exists_forItem_le hcollected hqr hcap le_rfl h

/-- Ten euro over three units are a third of ten euro for each unit, which has no end; four units
take ten euro. -/
theorem allocate_items_thirds :
    let l : List ItemWriteOff :=
      [⟨"tea", 3, Money.euro 1000 (by decide), .discount, none, by decide, by decide, by decide⟩]
    let cap : Money := Money.euro 1200 (by decide)
    ∃ table, collect cap.currency l = .ok table ∧
      ∃ m, forItem cap.currency table "tea" 4 (.given cap) = .ok m ∧ m.cents = 1000 := by
  intro l cap
  have hexp : (quantityOf l "tea" : ℚ) < 10 ^ (maxExponent + 1) := by
    calc (quantityOf l "tea" : ℚ) = (3 : ℕ) := congrArg Nat.cast (by decide)
      _ < 10 ^ (1 : ℤ) := by norm_num
      _ ≤ 10 ^ (maxExponent + 1) := zpow_le_zpow_right₀ (by norm_num) (by decide)
  obtain ⟨table, htable⟩ : ∃ table, collect cap.currency l = .ok table := ⟨_, rfl⟩
  obtain ⟨-, hscopes⟩ := allocate_items (l := l) (c := cap.currency) (by decide)
  obtain ⟨-, hitems⟩ := hscopes table htable
  obtain ⟨m, hm, -, hcents⟩ := (hitems "tea" cap rfl).1 (by decide) hexp 4 (by decide)
  exact ⟨table, htable, m, hm, hcents⟩

end Settlement.WrittenOff
