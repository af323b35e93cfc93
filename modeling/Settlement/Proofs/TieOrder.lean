import Mathlib.Data.String.Basic
import Settlement.Proofs.AllocationOrder
import Settlement.Proofs.Losses

/-!
# How ties are broken

A remainder is moved along a list of ids. `Allocation.exists_ranking` describes the list by the caps
alone: each id stands in it once, larger losses first when cents are added and smaller ones first
when cents are removed, and of equal losses the smaller id. Losses are the exact ones
(`Allocation.lossAt`), and ids are compared by their code units, which is a strict total order; so
there is no second list of this kind (`Ranking.unique`), and caps that are handed over in another
order have their remainder moved along the same one (`Allocation.allocate_of_perm`).

The order by code units is the order by code points among texts of the basic plane
(`Text.unitsLT_iff_lt`). A character beyond it comes before the last characters of the plane
(`Text.unitsLT_of_beyond`).
-/

namespace Settlement

/-! ### The order of ids -/

namespace Text

/-- A text comes **before** another one in the order of code units. -/
def UnitsLT (s t : String) : Prop := unitsCompare s t = .lt

instance (s t : String) : Decidable (UnitsLT s t) :=
  inferInstanceAs (Decidable (unitsCompare s t = .lt))

/-- **Ids.** The order by code units is a strict total order of texts. -/
instance : IsStrictTotalOrder String UnitsLT where
  irrefl s h := by
    have hself : unitsCompare s s = .eq :=
      @Std.ReflCmp.compare_self _ (List.compareLex compare) _ (units s)
    cases hself.symm.trans h
  trans s t u hst htu :=
    @Std.TransCmp.lt_trans _ (List.compareLex compare) _ (units s) (units t) (units u) hst htu
  trichotomous s t hst hts := by
    rw [UnitsLT, unitsCompare_swap, Ordering.swap_eq_lt] at hts
    cases h : unitsCompare s t with
    | lt => exact absurd h hst
    | eq => exact eq_of_unitsCompare h
    | gt => exact absurd h hts

/-- Of two texts, one that does not come after the other comes before it. -/
theorem unitsLT_of_unitsLE {s t : String} (h : unitsLE s t = true) (hne : s ≠ t) : UnitsLT s t := by
  rw [unitsLE] at h
  rw [UnitsLT]
  cases heq : unitsCompare s t with
  | lt => rfl
  | eq => exact absurd (eq_of_unitsCompare heq) hne
  | gt =>
    rw [heq] at h
    cases h

private theorem compareLex_charUnits_iff {l m : List Char} (hl : ∀ c ∈ l, c.toNat < 0x10000)
    (hm : ∀ c ∈ m, c.toNat < 0x10000) :
    List.compareLex compare (l.flatMap charUnits) (m.flatMap charUnits) = .lt ↔ l < m := by
  induction l generalizing m with
  | nil =>
    cases m with
    | nil => exact iff_of_false (fun h => by cases h) (List.lt_irrefl [])
    | cons d m =>
      rw [List.flatMap_cons, charUnits, if_pos (hm d List.mem_cons_self)]
      exact iff_of_true rfl (List.nil_lt_cons d m)
  | cons c l ih =>
    cases m with
    | nil =>
      rw [List.flatMap_cons, charUnits, if_pos (hl c List.mem_cons_self)]
      exact iff_of_false (fun h => by cases h) (List.not_lt_nil _)
    | cons d m =>
      have hrest := ih (m := m) (fun c hc => hl c (List.mem_cons_of_mem _ hc))
        (fun d hd => hm d (List.mem_cons_of_mem _ hd))
      rw [List.flatMap_cons, List.flatMap_cons, charUnits, charUnits,
        if_pos (hl c List.mem_cons_self), if_pos (hm d List.mem_cons_self), List.singleton_append,
        List.singleton_append, List.compareLex_cons_cons, Ordering.then_eq_lt,
        Nat.compare_eq_lt, Nat.compare_eq_eq, hrest, List.cons_lt_cons_iff, Char.toNat_inj]
      rfl

/-- **The basic plane.** Texts without characters beyond U+FFFF are compared by their code
points. -/
theorem unitsLT_iff_lt {s t : String} (hs : ∀ c ∈ s.toList, c.toNat < 0x10000)
    (ht : ∀ c ∈ t.toList, c.toNat < 0x10000) : UnitsLT s t ↔ s < t :=
  (compareLex_charUnits_iff hs ht).trans String.lt_iff_toList_lt.symm

/-- **Beyond the basic plane.** A character beyond U+FFFF comes before U+E000 to U+FFFF, though it
has the larger code point. -/
theorem unitsLT_of_beyond {c d : Char} (hc : 0xE000 ≤ c.toNat) (hplane : c.toNat < 0x10000)
    (hd : 0x10000 ≤ d.toNat) (l m : List Char) :
    String.ofList (c :: l) < String.ofList (d :: m) ∧
      UnitsLT (String.ofList (d :: m)) (String.ofList (c :: l)) := by
  constructor
  · rw [String.lt_iff_toList_lt, String.toList_ofList, String.toList_ofList,
      List.cons_lt_cons_iff]
    exact .inl (show c.toNat < d.toNat by omega)
  · have hvalid : d.toNat < 0xD800 ∨ 0xDFFF < d.toNat ∧ d.toNat < 0x110000 := d.valid
    rw [UnitsLT, unitsCompare, units, units, String.toList_ofList, String.toList_ofList,
      List.flatMap_cons, List.flatMap_cons, charUnits, if_neg (by omega), charUnits,
      if_pos hplane, List.cons_append, List.singleton_append, List.singleton_append,
      List.compareLex_cons_cons, Ordering.then_eq_lt, Nat.compare_eq_lt]
    exact .inl (by omega)

end Text

/-! ### Rankings of ids -/

/-- A list of ids is a **ranking** by a key if each of the ids stands in it once, the smaller key
first, and of equal keys the smaller id. -/
structure Ranking (key : String → ℚ) (keys ids : List String) : Prop where
  perm : ids.Perm keys
  sorted : ids.Pairwise fun a b => key a < key b ∨ key a = key b ∧ Text.UnitsLT a b

/-- **Rankings.** There is one ranking by a key, whatever the order of the ids is. -/
theorem Ranking.unique {key : String → ℚ} {keys keys' ids ids' : List String}
    (h : Ranking key keys ids) (h' : Ranking key keys' ids') (hperm : keys.Perm keys') :
    ids = ids' := by
  refine List.Perm.eq_of_pairwise (fun a b _ _ hab hba => ?_) h.sorted h'.sorted
    (h.perm.trans (hperm.trans h'.perm.symm))
  exfalso
  rcases hab with hab | ⟨hab, huab⟩
  · rcases hba with hba | ⟨hba, -⟩
    · exact lt_asymm hab hba
    · exact hab.ne' hba
  · rcases hba with hba | ⟨-, huba⟩
    · exact hba.ne' hab
    · exact asymm huab huba

namespace Distribution

variable {keys : List String} {ranking : List Ranked}

/-- The key by which ids are ranked: cents are added to larger losses first, and removed from
smaller ones. -/
def rankKey (cents : ℤ) (loss : String → ℚ) (id : String) : ℚ :=
  if 0 < cents then -loss id else loss id

/-- Moves cents **along** a list of ids, one at a time: to the first id that has room for it, or
from the first one that holds one. -/
def moveAlong (cent : Money) (cents : ℤ) (caps : Caps) (ids : List String) (t : Table Money) :
    Table Money × Option Fault :=
  if 0 < cents then addCents cent caps ids cents.natAbs t else removeCents cent ids cents.natAbs t

/-- Ranked shares with different ids that are sorted by a key are a ranking of their ids. -/
private theorem ranking_mergeSort {key : String → ℚ} {le : Ranked → Ranked → Bool}
    (hkeys : ranking.map Ranked.id = keys) (hnodup : keys.Nodup)
    (hsorted : (ranking.mergeSort le).Pairwise fun a b => le a b = true)
    (hle : ∀ a ∈ ranking, ∀ b ∈ ranking, le a b = true →
      key a.id < key b.id ∨ key a.id = key b.id ∧ Text.unitsLE a.id b.id = true) :
    Ranking key keys ((ranking.mergeSort le).map Ranked.id) := by
  have hperm : ((ranking.mergeSort le).map Ranked.id).Perm keys :=
    hkeys ▸ (List.mergeSort_perm ranking le).map Ranked.id
  refine ⟨hperm, List.pairwise_map.2 ?_⟩
  have hdistinct := List.pairwise_map.1 (hperm.nodup_iff.2 hnodup)
  refine (hsorted.and hdistinct).imp_of_mem ?_
  rintro a b ha hb ⟨hab, hne⟩
  rcases hle a (List.mem_mergeSort.1 ha) b (List.mem_mergeSort.1 hb) hab with hlt | ⟨heq, hunits⟩
  · exact .inl hlt
  · exact .inr ⟨heq, Text.unitsLT_of_unitsLE hunits hne⟩

/-- **Moving cents.** Cents are moved along the ranking by the losses of the shares. -/
theorem exists_moveAlong {loss : String → ℚ} (hkeys : ranking.map Ranked.id = keys)
    (hnodup : keys.Nodup) (hloss : ∀ r ∈ ranking, r.loss.value = loss r.id) (c : Currency)
    (cents : ℤ) (caps : Caps) (t : Table Money) :
    ∃ ids, Ranking (rankKey cents loss) keys ids ∧
      let o := move c cents caps ranking t
      (o.current, o.fault) = moveAlong (.oneCent c) cents caps ids t := by
  rw [move]
  by_cases hadd : 0 < cents
  · refine ⟨(ranking.mergeSort Ranked.addsBefore).map Ranked.id, ranking_mergeSort hkeys hnodup
      (pairwise_addsBefore ranking) fun a ha b hb hab => ?_, ?_⟩
    · rw [addsBefore_iff, hloss a ha, hloss b hb] at hab
      simpa only [rankKey, if_pos hadd, neg_lt_neg_iff, neg_inj] using hab
    · simp only [moveAlong, if_pos hadd]
  · refine ⟨(ranking.mergeSort Ranked.removesBefore).map Ranked.id, ranking_mergeSort hkeys hnodup
      (pairwise_removesBefore ranking) fun a ha b hb hab => ?_, ?_⟩
    · rw [removesBefore_iff, hloss a ha, hloss b hb] at hab
      simpa only [rankKey, if_neg hadd] using hab
    · simp only [moveAlong, if_neg hadd]

end Distribution

/-! ### Settling a plan -/

namespace Allocation

open Settlement.Distribution

variable {total : Money} {caps caps' : Table Money} {code : String} {p : Plan}

/-- What the share of an item in a total loses by rounding. -/
def lossAt (total : Money) (caps : Table Money) (id : String) : ℚ :=
  lossOf total.cents (caps.centsAt id) caps.cents

/-- A plan is settled **along** a list of ids if the cents of its remainder are moved along it. -/
def Plan.SettlesAlong (code : String) (p : Plan) (cent : Money) (ids : List String) : Prop :=
  let o := p.settle code
  (o.current, o.fault) = moveAlong cent p.remainder (.ofMoney p.caps) ids p.rounded

/-- Shares of a plan are ranked by their exact losses. -/
private theorem loss_eq_lossAt (hcaps : caps.InCurrency total.currency) (hpos : 0 < caps.cents)
    (h : planShares total caps = .ok p) {s : Share} {r : Ranked} (hs : s ∈ p.shares)
    (hr : rank total.currency s = .ok r) : r.loss.value = lossAt total caps r.id := by
  obtain ⟨totalCap, raw, hsum, hraw, hshares, -⟩ := exists_parts hcaps h
  obtain ⟨raw', hraw', hall⟩ := exists_rawShares total caps (hsum.symm ▸ hpos)
  cases hraw.symm.trans hraw'
  rw [hshares] at hs
  obtain ⟨⟨id, x⟩, hmem, rfl⟩ := List.mem_map.1 hs
  have hx := Table.find?_eq_some_iff.2 hmem
  obtain ⟨cap, hcap⟩ := Table.find?_isSome_of_keys_eq (Table.keys_traverse hraw).symm hx
  obtain ⟨x', hx', hneg, hmag⟩ := hall id cap hcap
  cases hx.symm.trans hx'
  obtain ⟨hid, hloss⟩ := loss_of_rank hneg hmag hr
  rw [hloss, hid, lossAt, Table.centsAt_of_find? hcap, hsum]

/-- A plan that is made is sound, and is made of shares if a remainder is left. -/
private theorem of_plan (h : plan code total caps = .ok p) (hne : p.remainder ≠ 0) :
    total.currency.code = code ∧ caps.InCurrency total.currency ∧
      planShares total caps = .ok p := by
  obtain ⟨u, htotal, hrest⟩ := bind_eq_ok_iff.1 h
  obtain ⟨v, hcaps, hrest⟩ := bind_eq_ok_iff.1 hrest
  have hcode := Money.requireCurrency_eq_ok_iff.1 htotal
  refine ⟨hcode, fun id cap hcap => Money.currency_eq_of_code_eq ?_, ?_⟩
  · obtain ⟨w, -, hrequire⟩ := Table.find?_traverse hcaps hcap
    exact (Money.requireCurrency_eq_ok_iff.1 hrequire).trans hcode.symm
  · split_ifs at hrest
    · cases hrest
      exact absurd rfl hne
    · exact hrest

/-- **Ties.** A remainder is moved along the ranking by the exact losses of the shares. -/
theorem exists_ranking (h : plan code total caps = .ok p) (hne : p.remainder ≠ 0) :
    ∃ ids, Ranking (rankKey p.remainder (lossAt total caps)) caps.keys ids ∧
      p.SettlesAlong code (.oneCent total.currency) ids := by
  obtain ⟨rfl, hcaps, hp⟩ := of_plan h hne
  obtain ⟨p', hp', hsound, hpos⟩ : ∃ p', planShares total caps = .ok p' ∧
      p'.Sound total caps ∧ 0 < caps.cents := by
    rcases planShares_cases hcaps with hsound | ⟨hfault, -⟩ | ⟨⟨x, hfault⟩, -⟩
    · exact hsound
    · cases hp.symm.trans hfault
    · cases hp.symm.trans hfault
  cases hp.symm.trans hp'
  obtain ⟨ranking, hids, hall, hsettle⟩ := hsound.exists_settle hne
  have hloss : ∀ r ∈ ranking, r.loss.value = lossAt total caps r.id := fun r hr => by
    obtain ⟨s, hs, hrank⟩ := hall r hr
    exact loss_eq_lossAt hcaps hpos hp hs hrank
  obtain ⟨ids, hranking, hmoved⟩ := exists_moveAlong hids caps.nodup hloss total.currency
    p.remainder (.ofMoney caps) p.rounded
  refine ⟨ids, hranking, ?_⟩
  rw [Plan.SettlesAlong, hsettle, hsound.caps_eq]
  exact hmoved

/-- **Equal caps** have equal losses, so that their ids are ranked by code units alone. -/
theorem ranking_of_equal_caps {ids : List String} (remainder : ℤ) (total : Money)
    (hperm : ids.Perm caps.keys)
    (hequal : ∀ a ∈ ids, ∀ b ∈ ids, caps.centsAt a = caps.centsAt b)
    (hsorted : ids.Pairwise Text.UnitsLT) :
    Ranking (rankKey remainder (lossAt total caps)) caps.keys ids := by
  refine ⟨hperm, hsorted.imp_of_mem fun {a b} ha hb hab => .inr ⟨?_, hab⟩⟩
  rw [rankKey, rankKey, lossAt, lossAt, hequal a ha b hb]

/-- An allocation is the outcome of moving the remainder of its plan along the ranking. -/
theorem allocate_eq_of_ranking {ids : List String} {given : Table Money}
    (hp : plan code total caps = .ok p) (hne : p.remainder ≠ 0)
    (hids : Ranking (rankKey p.remainder (lossAt total caps)) caps.keys ids)
    (h : moveAlong (.oneCent total.currency) p.remainder (.ofMoney p.caps) ids p.rounded =
      (given, none)) :
    allocate code total caps = .ok given := by
  obtain ⟨ids', hids', hsettles⟩ := exists_ranking hp hne
  obtain rfl := hids.unique hids' (.refl _)
  exact bind_eq_ok_iff.2 ⟨p, hp, result_eq_ok_iff.2 (hsettles.trans h)⟩

/-- Losses do not depend on the order of the caps. -/
private theorem lossAt_congr (h : caps.Agrees caps') (total : Money) :
    lossAt total caps = lossAt total caps' := by
  funext id
  rw [lossAt, lossAt, Table.centsAt, Table.centsAt, h id, h.cents_eq]

/-- Plans for caps in two orders have one remainder, which is moved along one ranking. -/
private theorem exists_common_ranking {p' : Plan} (h : caps.Agrees caps')
    (hp : plan code total caps = .ok p) (hp' : plan code total caps' = .ok p') :
    p.remainder = p'.remainder ∧
      (p.remainder ≠ 0 → ∃ ids, Ranking (rankKey p.remainder (lossAt total caps)) caps.keys ids ∧
        p.SettlesAlong code (.oneCent total.currency) ids ∧
        p'.SettlesAlong code (.oneCent total.currency) ids) := by
  obtain ⟨other, hother, hagrees⟩ := follows_plan h p hp
  cases hp'.symm.trans hother
  refine ⟨hagrees.remainder, fun hne => ?_⟩
  obtain ⟨ids, hranking, hsettles⟩ := exists_ranking hp hne
  obtain ⟨ids', hranking', hsettles'⟩ := exists_ranking hp' (hagrees.remainder ▸ hne)
  rw [← hagrees.remainder, ← lossAt_congr h] at hranking'
  obtain rfl := hranking.unique hranking' (h.entries_perm.map Prod.fst)
  exact ⟨ids, hranking, hsettles, hsettles'⟩

/-- **Caps in another order.** Two tables of caps hold the same entries in two orders. There is an
allocation for one exactly if there is one for the other, and both give each id the same amount.
What the roundings leave over is moved along one and the same list in both: the ids ranked by the
exact losses of their shares, and by code units where losses are equal. That is a strict total order
of ids, and it is the order by code points of ids in the basic plane, but not of others. -/
theorem allocate_of_perm (code : String) (total : Money) (h : caps.entries.Perm caps'.entries) :
    ((∃ given, allocate code total caps = .ok given) ↔
      ∃ given, allocate code total caps' = .ok given) ∧
    (∀ given given', allocate code total caps = .ok given →
      allocate code total caps' = .ok given' → ∀ id, given.find? id = given'.find? id) ∧
    (∀ p p', plan code total caps = .ok p → plan code total caps' = .ok p' →
      p.remainder = p'.remainder ∧
        (p.remainder ≠ 0 → ∃ ids, Ranking (rankKey p.remainder (lossAt total caps)) caps.keys ids ∧
          p.SettlesAlong code (.oneCent total.currency) ids ∧
          p'.SettlesAlong code (.oneCent total.currency) ids)) ∧
    IsStrictTotalOrder String Text.UnitsLT ∧
    (∀ s t : String, (∀ c ∈ s.toList, c.toNat < 0x10000) → (∀ c ∈ t.toList, c.toNat < 0x10000) →
      (Text.UnitsLT s t ↔ s < t)) ∧
    ∃ s t : String, s < t ∧ Text.UnitsLT t s := by
  have hagrees := Table.agrees_of_perm h
  refine ⟨⟨?_, ?_⟩, fun given given' hgiven hgiven' => ?_,
    fun p p' => exists_common_ranking hagrees, inferInstance, fun s t => Text.unitsLT_iff_lt, ?_⟩
  · rintro ⟨given, hgiven⟩
    obtain ⟨given', hgiven', -⟩ := follows_allocate hagrees given hgiven
    exact ⟨given', hgiven'⟩
  · rintro ⟨given', hgiven'⟩
    obtain ⟨given, hgiven, -⟩ := follows_allocate (Table.agrees_of_perm h.symm) given' hgiven'
    exact ⟨given, hgiven⟩
  · obtain ⟨other, hother, hsame⟩ := follows_allocate hagrees given hgiven
    cases hgiven'.symm.trans hother
    exact hsame
  · exact ⟨_, _, Text.unitsLT_of_beyond (c := '\ue000') (d := '😀') (by decide) (by decide)
      (by decide) [] []⟩

/-- One cent over two caps of one cent, in both orders: each share is half a cent, and is rounded
up. The id that comes first by code units gives its cent back, though it has the larger code
point. -/
theorem allocate_of_perm_half_cents :
    let cent := Money.euro 1 (by decide)
    let caps := Table.ofList [("\ue000", cent), ("😀", cent)]
    let caps' := Table.ofList [("😀", cent), ("\ue000", cent)]
    ∃ given given', allocate "EUR" cent caps = .ok given ∧ allocate "EUR" cent caps' = .ok given' ∧
      given.find? "\ue000" = some cent ∧ given'.find? "\ue000" = some cent := by
  intro cent caps caps'
  have hperm : caps.entries.Perm caps'.entries := .swap _ _ _
  obtain ⟨hiff, hsame, -⟩ := allocate_of_perm "EUR" cent hperm
  obtain ⟨p, hp, hparts⟩ := exists_of_toOption (r := plan "EUR" cent caps)
    (f := fun p => (p.remainder, p.rounded.entries)) (v := (-1, caps.entries)) (by decide +kernel)
  obtain ⟨hremainder, hrounded⟩ := Prod.mk.inj hparts
  have hids : Ranking (rankKey p.remainder (lossAt cent caps)) caps.keys ["😀", "\ue000"] :=
    ranking_of_equal_caps p.remainder cent (.swap _ _ _) (by decide) (by decide)
  have hgiven : allocate "EUR" cent caps =
      .ok (Table.ofList [("\ue000", cent), ("😀", .zero cent.currency)]) := by
    refine allocate_eq_of_ranking hp (by rw [hremainder]; decide) hids ?_
    rw [hremainder, Table.ext_entries hrounded]
    rfl
  obtain ⟨given', hgiven'⟩ := hiff.1 ⟨_, hgiven⟩
  exact ⟨_, given', hgiven, hgiven', rfl, (hsame _ given' hgiven hgiven' "\ue000").symm⟩

end Allocation

end Settlement
