import Settlement.Allocation.Proportional
import Settlement.Proofs.Distribution
import Settlement.Proofs.Proportion

/-!
# Proportional allocation conserves the total

An allocation that succeeds gives out exactly the total, within the caps. Rounded shares that are
held down to their caps are `Within` them (`planShares_cases`), and the distribution of the
remainder keeps them there, so that only four ends are left (`allocate_cases`): the allocation, no
cap above zero, caps that add up to less than the total, and amounts out of range.
-/

namespace Settlement.Allocation

open Settlement.Distribution
open Table (Within)

/-- A **sound** plan for a total: its roundings are within the caps, its remainder is what they miss
of the total, and its shares can be ranked. -/
structure Plan.Sound (total : Money) (caps : Table Money) (p : Plan) : Prop where
  caps_eq : p.caps = caps
  ids : p.remainder ≠ 0 → p.shares.map Share.id = caps.keys
  ranked : ∀ s ∈ p.shares, ∃ r, rank total.currency s = .ok r ∧ r.id = s.id
  within : Within total.currency caps p.rounded
  remainder : p.remainder = total.cents - p.rounded.cents
  lt_bound : p.rounded.cents < Money.bound

/-- Totals and caps that are well within the range of money, with a tenth of it to spare. -/
def Moderate (total : Money) (caps : Table Money) : Prop :=
  total.cents ≤ 9 * 10 ^ 27 ∧ caps.cents ≤ 9 * 10 ^ 27

variable {total totalCap cap : Money} {caps : Table Money} {id : String}

/-! ### The plan -/

/-- Every cap has a share in the total. -/
theorem exists_rawShares (total : Money) (caps : Table Money) (h : 0 < totalCap.cents) :
    ∃ raw, caps.traverse (fun _ cap => rawShare total totalCap cap) = .ok raw ∧
      ∀ id cap, caps.find? id = some cap → ∃ x, raw.find? id = some x ∧ x.negative = false ∧
        x.magnitude = proportionOf total.cents cap.cents totalCap.cents := by
  obtain ⟨raw, hraw⟩ := Table.exists_traverse (t := caps)
    (f := fun _ cap => rawShare total totalCap cap) fun id cap _ => by
      obtain ⟨x, hx, -⟩ := exists_proportion total cap h
      exact ⟨x, hx⟩
  refine ⟨raw, hraw, fun id cap hcap => ?_⟩
  obtain ⟨x, hfind, hx⟩ := Table.find?_traverse hraw hcap
  obtain ⟨x', hx', hneg, hmag⟩ := exists_proportion total cap h
  cases hx.symm.trans hx'
  exact ⟨x, hfind, hneg, hmag⟩

/-- The share of one cap, rounded to cents and held down to the cap. -/
def roundedShare (total : Money) (raw : Table Decimal) (id : String) (cap : Money) :
    Except Fault Money :=
  match raw.find? id with
  | none => .error (.missingAllocation id)
  | some x => do (← Money.ofDecimal total.currency x).min cap

private theorem roundedShare_cases {raw : Table Decimal} {x : Decimal}
    (hcap : cap.currency = total.currency) (hraw : raw.find? id = some x)
    (hneg : x.negative = false) :
    (∃ m share, roundedShare total raw id cap = .ok m ∧
        Money.ofDecimal total.currency x = .ok share ∧ m.currency = total.currency ∧
        m.cents ≤ cap.cents) ∨
      (∃ y, roundedShare total raw id cap = .error (.amountOutOfRange y)) ∧
        Money.bound ≤ Rounding.halfUp.nearest (x.magnitude * 100) := by
  rw [roundedShare, hraw]
  rcases Money.ofDecimal_cases total.currency hneg with ⟨share, hshare⟩ | ⟨⟨y, hy⟩, hbound⟩
  · have hcur := Money.currency_ofDecimal hshare
    obtain ⟨m, hm⟩ := Money.exists_min (hcur.trans hcap.symm)
    obtain ⟨-, hmcur, hmcents⟩ := Money.min_eq_ok_iff.1 hm
    exact .inl ⟨m, share, bind_eq_ok_iff.2 ⟨share, hshare, hm⟩, hshare, hmcur.trans hcur,
      hmcents ▸ min_le_right _ _⟩
  · refine .inr ⟨⟨y, ?_⟩, hbound⟩
    simp only [hy, bind, Except.bind]

/-- A plan is made of the rounded shares and their sum, once the shares are known. -/
private theorem planShares_eq {raw : Table Decimal}
    (hsum : Money.sum total.currency "caps" caps.values = .ok totalCap)
    (hpos : 0 < totalCap.cents)
    (hraw : caps.traverse (fun _ cap => rawShare total totalCap cap) = .ok raw) :
    planShares total caps = (do
      let rounded ← caps.traverse (roundedShare total raw)
      let given ← Money.sum total.currency Money.sumContext rounded.values
      .ok ⟨caps, raw.entries.map fun e => ⟨e.1, .finite e.2⟩, rounded,
        total.cents - given.cents⟩) := by
  rw [planShares, hsum]
  simp only [bind, Except.bind, Money.isZero_eq_false_iff.2 hpos, hraw]
  rfl

/-- A table of **roundings**: each amount is made of a share that amounts to money, and is at most
the cap of its item. -/
private def Rounds (total : Money) (caps : Table Money) (raw : Table Decimal)
    (rounded : Table Money) : Prop :=
  ∀ id m, rounded.find? id = some m → ∃ cap x share, caps.find? id = some cap ∧
    raw.find? id = some x ∧ Money.ofDecimal total.currency x = .ok share ∧
    m.currency = total.currency ∧ m.cents ≤ cap.cents

private theorem rounds_of_traverse {raw : Table Decimal} {rounded : Table Money}
    (hcaps : caps.InCurrency total.currency)
    (hraw : ∀ id cap, caps.find? id = some cap →
      ∃ x, raw.find? id = some x ∧ x.negative = false)
    (h : caps.traverse (roundedShare total raw) = .ok rounded) :
    Rounds total caps raw rounded := by
  intro id m hm
  obtain ⟨cap, hcap, hmade⟩ := Table.exists_find?_of_traverse h hm
  obtain ⟨x, hfind, hneg⟩ := hraw id cap hcap
  rcases roundedShare_cases (hcaps id cap hcap) hfind hneg with
    ⟨m', share, hm', hshare, hcur, hle⟩ | ⟨⟨y, hy⟩, -⟩
  · cases hmade.symm.trans hm'
    exact ⟨cap, x, share, hcap, hfind, hshare, hcur, hle⟩
  · cases hmade.symm.trans hy

private theorem within_of_rounds {raw : Table Decimal} {rounded : Table Money}
    (h : Rounds total caps raw rounded) (hkeys : rounded.keys = caps.keys) :
    Within total.currency caps rounded := by
  refine Table.within_of_find? hkeys fun id m hm => ?_
  obtain ⟨cap, -, -, hcap, -, -, hcur, hle⟩ := h id m hm
  exact ⟨hcur, cap, hcap, hle⟩

/-- Shares that were rounded can be ranked. -/
private theorem ranked_of_rounds {raw : Table Decimal} {rounded : Table Money}
    (h : Rounds total caps raw rounded) (hkeys : rounded.keys = raw.keys) :
    ∀ s ∈ raw.entries.map fun e => (⟨e.1, .finite e.2⟩ : Share),
      ∃ r, rank total.currency s = .ok r ∧ r.id = s.id := by
  intro s hs
  obtain ⟨⟨id, x⟩, hmem, rfl⟩ := List.mem_map.1 hs
  have hx := Table.find?_eq_some_iff.2 hmem
  obtain ⟨m, hm⟩ := Table.find?_isSome_of_keys_eq hkeys hx
  obtain ⟨-, x', share, -, hx', hshare, -⟩ := h id m hm
  cases hx.symm.trans hx'
  exact exists_rank hshare

/-- Shares that are rounded within the caps make a sound plan. -/
private theorem exists_sound {raw : Table Decimal} {rounded : Table Money}
    (hsum : Money.sum total.currency "caps" caps.values = .ok totalCap)
    (hpos : 0 < totalCap.cents) (htotalCap : totalCap.cents = caps.cents)
    (hraw : caps.traverse (fun _ cap => rawShare total totalCap cap) = .ok raw)
    (hrounded : caps.traverse (roundedShare total raw) = .ok rounded)
    (hrounds : Rounds total caps raw rounded) :
    ∃ p, planShares total caps = .ok p ∧ p.Sound total caps := by
  have hkeys := Table.keys_traverse hrounded
  have hrawkeys := Table.keys_traverse hraw
  have hwithin := within_of_rounds hrounds hkeys
  rcases Money.sum_values_cases Money.sumContext hwithin.currency with
    ⟨given, hgiven⟩ | ⟨-, hbound⟩
  · have hcents := ((Money.sum_values_eq_ok_iff hwithin.currency).1 hgiven).2
    rw [planShares_eq hsum hpos hraw]
    refine ⟨_, bind_eq_ok_iff.2 ⟨rounded, hrounded, bind_eq_ok_iff.2 ⟨given, hgiven, rfl⟩⟩, rfl,
      ?_, ?_, hwithin, ?_, ?_⟩
    · intro _
      rw [List.map_map]
      exact hrawkeys
    · exact ranked_of_rounds hrounds (hkeys.trans hrawkeys.symm)
    · rw [hcents]
    · exact hcents ▸ given.lt_bound
  · -- roundings within the caps have a sum because the caps have one
    have hle := hwithin.cents_le
    have hlt := totalCap.lt_bound
    omega

/-- Amounts of a plan that are **out of range**: the sum of the caps, or the share of one of
them. -/
def OutOfRange (total : Money) (caps : Table Money) : Prop :=
  Money.bound ≤ caps.cents ∨ ∃ id cap, caps.find? id = some cap ∧
    Money.bound ≤ shareCents total.cents cap.cents caps.cents

/-- Moderate totals and caps have no plan with amounts out of range. -/
private theorem Moderate.not_outOfRange (h : Moderate total caps) : ¬ OutOfRange total caps := by
  rintro (hsum | ⟨id, cap, hcap, hshare⟩)
  · exact absurd (h.2.trans_lt (by decide)) (not_lt.2 hsum)
  · rcases Nat.eq_zero_or_pos caps.cents with hzero | hpos
    · -- a share of nothing is nothing
      have hnone : shareCents total.cents cap.cents caps.cents = 0 := by
        rw [hzero, shareCents, proportionOf]
        simp
      have hbound : 0 < Money.bound := pow10_pos _
      omega
    · have hle : cap.cents ≤ caps.cents := by
        rw [← Table.centsAt_of_find? hcap]
        exact caps.centsAt_le_cents id
      exact absurd (shareCents_lt_bound hpos hle h.1) (not_lt.2 hshare)

/-- **Planning.** A total that is not zero has a sound plan unless all caps are zero or an amount is
out of range. -/
theorem planShares_cases (hcaps : caps.InCurrency total.currency) :
    (∃ p, planShares total caps = .ok p ∧ p.Sound total caps ∧ 0 < caps.cents) ∨
      (planShares total caps = .error (.zeroTotalCap total) ∧ caps.cents = 0) ∨
      (∃ x, planShares total caps = .error (.amountOutOfRange x)) ∧ OutOfRange total caps := by
  rcases Money.sum_values_cases "caps" hcaps with ⟨totalCap, hsum⟩ | ⟨⟨x, hx⟩, hbound⟩
  swap
  · -- the caps have no sum
    refine .inr (.inr ⟨⟨x, ?_⟩, .inl hbound⟩)
    rw [planShares, hx]
    rfl
  have htotalCap : totalCap.cents = caps.cents := ((Money.sum_values_eq_ok_iff hcaps).1 hsum).2
  rcases Nat.eq_zero_or_pos caps.cents with hzero | hpos
  · refine .inr (.inl ⟨?_, hzero⟩)
    have hz : totalCap.isZero = true := by
      rw [Money.isZero_iff, htotalCap, hzero]
    rw [planShares, hsum]
    simp only [bind, Except.bind, hz, if_true]
  have htotalpos : 0 < totalCap.cents := htotalCap ▸ hpos
  obtain ⟨raw, hraw, hshares⟩ := exists_rawShares total caps htotalpos
  rcases Table.traverse_cases (roundedShare total raw) caps with
    ⟨rounded, hrounded⟩ | ⟨id, cap, e, hcap, he, hfault⟩
  · have hrounds : Rounds total caps raw rounded := by
      refine rounds_of_traverse hcaps (fun id cap hcap => ?_) hrounded
      obtain ⟨x, hfind, hneg, -⟩ := hshares id cap hcap
      exact ⟨x, hfind, hneg⟩
    obtain ⟨p, hp, hsound⟩ := exists_sound hsum htotalpos htotalCap hraw hrounded hrounds
    exact .inl ⟨p, hp, hsound, hpos⟩
  · -- only a share out of range stops the rounding
    obtain ⟨x, hfind, hneg, hmag⟩ := hshares id cap hcap
    rcases roundedShare_cases (hcaps id cap hcap) hfind hneg with
      ⟨m, share, hm, -⟩ | ⟨⟨y, hy⟩, hbound⟩
    · cases he.symm.trans hm
    · cases he.symm.trans hy
      refine .inr (.inr ⟨⟨y, ?_⟩, .inr ⟨id, cap, hcap, ?_⟩⟩)
      · rw [planShares_eq hsum htotalpos hraw, hfault]
        rfl
      · rwa [hmag, htotalCap, ← shareCents] at hbound

/-- What a plan is made of: the sum of the caps, the shares, and their roundings. -/
theorem exists_parts {p : Plan} (hcaps : caps.InCurrency total.currency)
    (h : planShares total caps = .ok p) :
    ∃ totalCap raw, totalCap.cents = caps.cents ∧
      caps.traverse (fun _ cap => rawShare total totalCap cap) = .ok raw ∧
      p.shares = raw.entries.map (fun e => ⟨e.1, .finite e.2⟩) ∧
      caps.traverse (roundedShare total raw) = .ok p.rounded := by
  obtain ⟨totalCap, hsum, h⟩ := bind_eq_ok_iff.1 h
  split_ifs at h with hzero
  obtain ⟨raw, hraw, h⟩ := bind_eq_ok_iff.1 h
  obtain ⟨rounded, hrounded, h⟩ := bind_eq_ok_iff.1 h
  obtain ⟨given, -, h⟩ := bind_eq_ok_iff.1 h
  cases h
  exact ⟨totalCap, raw, ((Money.sum_values_eq_ok_iff hcaps).1 hsum).2, hraw, rfl, hrounded⟩

/-! ### The allocation -/

/-- **Settling.** A sound plan with a remainder is settled by moving it along the ranking of its
shares. -/
theorem Plan.Sound.exists_settle {p : Plan} (hp : p.Sound total caps) (hne : p.remainder ≠ 0) :
    ∃ ranking, ranking.map Ranked.id = caps.keys ∧
      (∀ r ∈ ranking, ∃ s ∈ p.shares, rank total.currency s = .ok r) ∧
      p.settle total.currency.code =
        move total.currency p.remainder (.ofMoney caps) ranking p.rounded := by
  have hcount : wholeCents (.finite (.ofHundredths p.remainder)) = .ok p.remainder := by
    refine wholeCents_ofHundredths ?_
    have := hp.remainder
    have := hp.lt_bound
    have := total.lt_bound
    omega
  obtain ⟨ranking, hprepare, hids⟩ := exists_prepare hp.ranked
  refine ⟨ranking, hids.trans (hp.ids hne), fun r hr => exists_share_of_prepare hprepare hr, ?_⟩
  rw [Plan.settle, if_neg hne, run_eq_move hcount hne hprepare, hp.caps_eq]

/-- Carrying out a sound plan gives out the total, unless the caps add up to less than the total or
reach up to the bound of money. -/
private theorem settle_cases {p : Plan} (hcaps : caps.InCurrency total.currency)
    (hp : p.Sound total caps) :
    (∃ given, (p.settle total.currency.code).result = .ok given ∧
        Within total.currency caps given ∧ given.cents = total.cents) ∨
      (∃ ids, (p.settle total.currency.code).result = .error (.noHeadroom ids) ∧
        caps.cents < total.cents) ∨
      ∃ x, (p.settle total.currency.code).result = .error (.amountOutOfRange x) ∧
        Money.bound ≤ caps.cents + 1 := by
  have hremainder := hp.remainder
  rw [Plan.settle]
  split_ifs with hzero
  · -- the roundings give out the total already
    exact .inl ⟨p.rounded, rfl, hp.within, by omega⟩
  · rw [hp.remainder, hp.caps_eq]
    exact run_cases hcaps (hp.ids hzero) hp.ranked hp.within hp.lt_bound total

/-- A total of nothing has a sound plan. -/
private theorem sound_of_zero (caps : Table Money) (h : total.cents = 0) :
    Plan.Sound total caps ⟨caps, [], caps.map fun _ _ => .zero total.currency, 0⟩ := by
  have hfind : ∀ id m, (caps.map fun _ _ => Money.zero total.currency).find? id = some m →
      m = .zero total.currency := by
    intro id m hm
    rw [Table.find?_map, Option.map_eq_some_iff] at hm
    obtain ⟨-, -, hm⟩ := hm
    exact hm.symm
  have hnone : ∀ id, (caps.map fun _ _ => Money.zero total.currency).centsAt id = 0 := by
    intro id
    rw [Table.centsAt, Table.find?_map]
    cases caps.find? id <;> rfl
  have hsum : (caps.map fun _ _ => Money.zero total.currency).cents = 0 := by
    rw [Table.cents_eq_sum_centsAt, List.sum_eq_zero_iff]
    intro n hn
    obtain ⟨id, -, rfl⟩ := List.mem_map.1 hn
    exact hnone id
  refine ⟨rfl, fun hne => absurd rfl hne, by simp, ⟨Table.keys_map .., ?_, ?_⟩, ?_, ?_⟩
  · intro id m hm
    rw [hfind id m hm, Money.currency_zero]
  · intro id
    rw [hnone]
    exact Nat.zero_le _
  · rw [hsum, h]
    rfl
  · rw [hsum]
    exact pow10_pos _

/-- A plan for a total in the currency of its caps: none of the caps is refused. -/
theorem plan_eq (hcaps : caps.InCurrency total.currency) :
    plan total.currency.code total caps =
      if total.isZero then .ok ⟨caps, [], caps.map fun _ _ => .zero total.currency, 0⟩
      else planShares total caps := by
  obtain ⟨u, hu⟩ := Table.exists_traverse (t := caps)
    (f := fun id cap => cap.requireCurrency total.currency.code s!"cap for item '{id}'")
    fun id cap hcap => ⟨(), Money.requireCurrency_eq_ok_iff.2 (congrArg _ (hcaps id cap hcap))⟩
  rw [plan, (Money.requireCurrency_eq_ok_iff (u := ())).2 rfl]
  simp only [bind, Except.bind, hu]

/-- **Ends of an allocation.** It gives out the total within the caps, or there is a cause: all caps
are zero, they add up to less than the total, or amounts are out of range. -/
theorem allocate_cases (hcaps : caps.InCurrency total.currency) :
    (∃ given, allocate total.currency.code total caps = .ok given ∧
        Within total.currency caps given ∧ given.cents = total.cents) ∨
      (allocate total.currency.code total caps = .error (.zeroTotalCap total) ∧
        caps.cents = 0 ∧ 0 < total.cents) ∨
      (∃ ids, allocate total.currency.code total caps = .error (.noHeadroom ids) ∧
        0 < caps.cents ∧ caps.cents < total.cents) ∨
      (∃ x, allocate total.currency.code total caps = .error (.amountOutOfRange x)) ∧
        ¬ Moderate total caps := by
  rw [allocate, plan_eq hcaps]
  by_cases hzero : total.isZero = true
  · rw [if_pos hzero]
    rw [Money.isZero_iff] at hzero
    have hsound := sound_of_zero caps hzero
    have hgiven : (0 : ℤ) = total.cents - (caps.map fun _ _ => Money.zero total.currency).cents :=
      hsound.remainder
    exact .inl ⟨caps.map fun _ _ => .zero total.currency, rfl, hsound.within, by omega⟩
  · rw [if_neg hzero]
    have hpos : 0 < total.cents := by
      rw [Money.isZero_iff] at hzero
      omega
    rcases planShares_cases hcaps with ⟨p, hp, hsound, hcapspos⟩ | ⟨hp, hnone⟩ | ⟨⟨x, hx⟩, hlarge⟩
    · rw [hp]
      rcases settle_cases hcaps hsound with hok | ⟨ids, hids, hlt⟩ | ⟨x, hx, hbound⟩
      · exact .inl hok
      · exact .inr (.inr (.inl ⟨ids, hids, hcapspos, hlt⟩))
      · refine .inr (.inr (.inr ⟨⟨x, hx⟩, fun h => ?_⟩))
        have hmoderate := h.2.trans_lt (by decide : 9 * 10 ^ 27 < Money.bound - 1)
        omega
    · rw [hp]
      exact .inr (.inl ⟨rfl, hnone, hpos⟩)
    · rw [hx]
      exact .inr (.inr (.inr ⟨⟨x, rfl⟩, fun h => h.not_outOfRange hlarge⟩))

/-- A total of nothing is given out whatever the caps add up to. -/
theorem allocate_of_zero (hcaps : caps.InCurrency total.currency) (h : total.cents = 0) :
    allocate total.currency.code total caps = .ok (caps.map fun _ _ => .zero total.currency) := by
  rw [allocate, plan_eq hcaps, if_pos ((Money.isZero_iff total).2 h)]
  rfl

/-- What is given out is within the caps, and adds up to the total. -/
theorem within_of_allocate {given : Table Money} (hcaps : caps.InCurrency total.currency)
    (h : allocate total.currency.code total caps = .ok given) :
    Within total.currency caps given ∧ given.cents = total.cents := by
  rcases allocate_cases hcaps with ⟨given', hgiven, hwithin, hsum⟩ | ⟨hfault, -⟩ |
    ⟨ids, hfault, -⟩ | ⟨⟨x, hfault⟩, -⟩
  · cases h.symm.trans hgiven
    exact ⟨hwithin, hsum⟩
  · cases h.symm.trans hfault
  · cases h.symm.trans hfault
  · cases h.symm.trans hfault

/-- **Proportional allocation.** What is given out has the keys of the caps in their order, no
amount above its cap, and exactly the total as its sum. While amounts stay in range, there is an
allocation if and only if the total is at most the sum of the caps; otherwise the total finds no cap
above zero, or a part of it finds no headroom. Amounts stay in range if the total and the caps are
moderate. -/
theorem allocate_contract (total : Money) (caps : Table Money)
    (hcaps : caps.InCurrency total.currency) :
    (∀ given, allocate total.currency.code total caps = .ok given →
      given.keys = caps.keys ∧
        (∀ id cap, caps.find? id = some cap → ∃ m, given.find? id = some m ∧
          m.currency = total.currency ∧ 0 ≤ m.cents ∧ m.cents ≤ cap.cents) ∧
        given.cents = total.cents) ∧
    (InRange (allocate total.currency.code total caps) →
      ((∃ given, allocate total.currency.code total caps = .ok given) ↔
          total.cents ≤ caps.cents) ∧
        (caps.cents = 0 → 0 < total.cents →
          ∃ f, allocate total.currency.code total caps = .error f ∧ f.category = .validation) ∧
        (0 < caps.cents → caps.cents < total.cents →
          ∃ f, allocate total.currency.code total caps = .error f ∧ f.category = .allocation)) ∧
    (total.cents ≤ 9 * 10 ^ 27 → caps.cents ≤ 9 * 10 ^ 27 →
      InRange (allocate total.currency.code total caps)) := by
  refine ⟨fun given h => ?_, fun hr => ?_, fun htotal hsum => ?_⟩
  · obtain ⟨hwithin, hsum⟩ := within_of_allocate hcaps h
    refine ⟨hwithin.keys, fun id cap hcap => ?_, hsum⟩
    obtain ⟨m, hm⟩ := Table.find?_isSome_of_keys_eq hwithin.keys hcap
    have hcapped := hwithin.le_cap id
    rw [Table.centsAt_of_find? hm, Table.centsAt_of_find? hcap] at hcapped
    exact ⟨m, hm, hwithin.currency id m hm, Nat.zero_le _, hcapped⟩
  · rcases allocate_cases hcaps with ⟨given, hgiven, hwithin, hsum⟩ | ⟨hfault, hnone, hpos⟩ |
      ⟨ids, hfault, hpos, hlt⟩ | ⟨⟨x, hfault⟩, -⟩
    · have hle := hwithin.cents_le
      exact ⟨⟨fun _ => by omega, fun _ => ⟨given, hgiven⟩⟩, fun _ _ => by omega,
        fun _ _ => by omega⟩
    · refine ⟨⟨?_, fun _ => by omega⟩, fun _ _ => ⟨_, hfault, rfl⟩, fun _ _ => by omega⟩
      rintro ⟨given, hgiven⟩
      cases hfault.symm.trans hgiven
    · refine ⟨⟨?_, fun _ => by omega⟩, fun _ _ => by omega, fun _ _ => ⟨_, hfault, rfl⟩⟩
      rintro ⟨given, hgiven⟩
      cases hfault.symm.trans hgiven
    · exact absurd hfault (hr x)
  · intro x hx
    rcases allocate_cases hcaps with ⟨given, hgiven, -⟩ | ⟨hfault, -⟩ | ⟨ids, hfault, -⟩ |
      ⟨-, hlarge⟩
    · cases hx.symm.trans hgiven
    · cases hx.symm.trans hfault
    · cases hx.symm.trans hfault
    · exact hlarge ⟨htotal, hsum⟩

/-- One euro over caps of fifty cents, seventy-five cents and nothing. -/
theorem allocate_contract_one_euro :
    let total := Money.euro 100 (by decide)
    let caps := Table.ofList [("tea", Money.euro 50 (by decide)),
      ("cake", Money.euro 75 (by decide)), ("water", Money.euro 0 (by decide))]
    ∃ given, allocate total.currency.code total caps = .ok given ∧
      given.keys = ["tea", "cake", "water"] ∧ given.cents = 100 := by
  intro total caps
  obtain ⟨hgiven, hreturns, hrange⟩ :=
    allocate_contract total caps (Table.inCurrency_iff.2 (by decide))
  have hin := hrange (by decide) (by decide)
  obtain ⟨given, hok⟩ := (hreturns hin).1.2 (by decide)
  obtain ⟨hkeys, -, hsum⟩ := hgiven given hok
  exact ⟨given, hok, hkeys, hsum⟩

end Settlement.Allocation
