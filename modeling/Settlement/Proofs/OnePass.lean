import Settlement.Proofs.Distribution
import Settlement.Proofs.Ranking

/-!
# Distribution in one pass

Cents are moved one at a time, and each starts again at the top of the ranking. What they arrive at
is nevertheless what one pass down the ranking yields, in which every item takes as many of the
cents that are left as it has room for: `onePass`. The invariant is that after `k` cents the
allocation is the one pass of `k` cents. One step keeps it (`Mover.step_onePass`), as the first item
that still has room is the one at which the pass of `k` cents ended, and so does a run of steps
(`Mover.repeatStep_eq`).

Adding and removing cents are the two ways of moving them (`adder`, `remover`): an item has room up
to its cap for the one, and for the other as many cents as it holds.
-/

namespace Settlement.Distribution

/-! ### One pass -/

/-- The cents that an item takes in one pass down a ranking: each item takes as many as it has room
for, while there are cents left. -/
def onePass (room : String → ℕ) : ℕ → List String → String → ℕ
  | _, [], _ => 0
  | left, id :: rest, key =>
    if key = id then min left (room id) else onePass room (left - min left (room id)) rest key

section OnePass

variable {room : String → ℕ} {left : ℕ} {ranking : List String} {key : String}

/-- An item that is not ranked takes nothing. -/
theorem onePass_of_not_mem (h : key ∉ ranking) : onePass room left ranking key = 0 := by
  induction ranking generalizing left with
  | nil => rfl
  | cons id rest ih =>
    rw [List.mem_cons, not_or] at h
    rw [onePass, if_neg h.1, ih h.2]

/-- Without cents nothing is taken. -/
theorem onePass_zero (room : String → ℕ) (ranking : List String) :
    onePass room 0 ranking = fun _ => 0 := by
  funext key
  induction ranking with
  | nil => rfl
  | cons id rest ih =>
    rw [onePass, Nat.zero_min, Nat.zero_sub, ih]
    split_ifs <;> rfl

/-- With cents for all the room there is, each item takes what it has room for. -/
theorem onePass_of_sum_le (h : (ranking.map room).sum ≤ left) (hkey : key ∈ ranking) :
    onePass room left ranking key = room key := by
  induction ranking generalizing left with
  | nil => cases hkey
  | cons id rest ih =>
    rw [List.map_cons, List.sum_cons] at h
    rw [onePass]
    split_ifs with hid
    · rw [hid]
      omega
    · exact ih (by omega) ((List.mem_cons.1 hkey).resolve_left hid)

end OnePass

/-! ### Moving cents along a ranking -/

/-- A **mover** of cents between items: what a step does to the first item of a ranking is known
from what was moved for it before. All its room taken, it is passed over; else it takes one cent
more. -/
structure Mover (ids : List String) where
  /-- One step along a ranking. -/
  step : Table Money → List String → Except Fault (Option (Table Money))
  /-- The cents that may be moved for an item in all. -/
  room : String → ℕ
  /-- The allocations after some cents were moved for each item. -/
  Moved : (String → ℕ) → Table Money → Prop
  nil : ∀ t, step t [] = .ok none
  full : ∀ {moved t id}, Moved moved t → id ∈ ids → moved id = room id →
    ∀ rest, step t (id :: rest) = step t rest
  next : ∀ {moved t id}, Moved moved t → id ∈ ids → moved id < room id →
    ∀ rest, ∃ u, step t (id :: rest) = .ok (some u) ∧
      Moved (Function.update moved id (moved id + 1)) u

namespace Mover

variable {ids ranking : List String} {k n : ℕ} {t : Table Money} {moved : String → ℕ}

/-- A step looks for the item at which the pass of the cents so far ended. The ranking may be the
rest of a longer one, of whose first items nothing is said. -/
private theorem step_cases (M : Mover ids) (hids : ∀ id ∈ ranking, id ∈ ids)
    (hnodup : ranking.Nodup) (ht : M.Moved moved t)
    (hmoved : ∀ key ∈ ranking, moved key = onePass M.room k ranking key) :
    (k < (ranking.map M.room).sum → ∃ u id, id ∈ ranking ∧ M.step t ranking = .ok (some u) ∧
        M.Moved (Function.update moved id (moved id + 1)) u ∧
        ∀ key ∈ ranking,
          Function.update moved id (moved id + 1) key = onePass M.room (k + 1) ranking key) ∧
      ((ranking.map M.room).sum ≤ k → M.step t ranking = .ok none) := by
  induction ranking generalizing k with
  | nil => exact ⟨fun h => absurd h (Nat.not_lt_zero k), fun _ => M.nil t⟩
  | cons id rest ih =>
    obtain ⟨hnot, hnodup⟩ := List.nodup_cons.1 hnodup
    have hid := hids id List.mem_cons_self
    have hfirst := hmoved id List.mem_cons_self
    rw [onePass, if_pos rfl] at hfirst
    have hother : ∀ key ∈ rest, key ≠ id := fun key hkey heq => hnot (heq ▸ hkey)
    rw [List.map_cons, List.sum_cons]
    rcases lt_or_ge k (M.room id) with hroom | hfull
    · -- the pass ended at this item
      refine ⟨fun _ => ?_, fun hle => absurd hle (by omega)⟩
      obtain ⟨u, hu, hmovedu⟩ := M.next ht hid (by omega) rest
      refine ⟨u, id, List.mem_cons_self, hu, hmovedu, fun key hkey => ?_⟩
      rw [onePass]
      split_ifs with hkeyid
      · rw [hkeyid, Function.update_self]
        omega
      · have hnone := hmoved key hkey
        have hleft : k - min k (M.room id) = 0 := by omega
        have hleft' : k + 1 - min (k + 1) (M.room id) = 0 := by omega
        rw [onePass, if_neg hkeyid, hleft] at hnone
        rw [Function.update_of_ne hkeyid, hnone, hleft']
    · -- the item has no room left, and the pass went on
      have hstep := M.full ht hid (by omega) rest
      have hleft : k - min k (M.room id) = k - M.room id := by omega
      have hrest : ∀ key ∈ rest, moved key = onePass M.room (k - M.room id) rest key := by
        intro key hkey
        rw [hmoved key (List.mem_cons_of_mem id hkey), onePass, if_neg (hother key hkey), hleft]
      obtain ⟨hmove, hstuck⟩ :=
        ih (fun key hkey => hids key (List.mem_cons_of_mem id hkey)) hnodup hrest
      rw [hstep]
      refine ⟨fun hlt => ?_, fun hle => hstuck (by omega)⟩
      obtain ⟨u, id', hid', hu, hmovedu, hpass⟩ := hmove (by omega)
      refine ⟨u, id', List.mem_cons_of_mem id hid', hu, hmovedu, fun key hkey => ?_⟩
      rw [onePass]
      split_ifs with hkeyid
      · rw [hkeyid, Function.update_of_ne (hother id' hid').symm]
        omega
      · have hnext : k + 1 - min (k + 1) (M.room id) = k - M.room id + 1 := by omega
        rw [hnext]
        exact hpass key ((List.mem_cons.1 hkey).resolve_left hkeyid)

/-- **One step.** A step leads from the one pass of `k` cents to that of one cent more, or finds no
place if all room is taken. -/
theorem step_onePass (M : Mover ids) (hids : ∀ id ∈ ranking, id ∈ ids) (hnodup : ranking.Nodup)
    (ht : M.Moved (onePass M.room k ranking) t) :
    (k < (ranking.map M.room).sum → ∃ u, M.step t ranking = .ok (some u) ∧
        M.Moved (onePass M.room (k + 1) ranking) u) ∧
      ((ranking.map M.room).sum ≤ k → M.step t ranking = .ok none) := by
  refine (M.step_cases hids hnodup ht fun _ _ => rfl).imp_left fun hmove hlt => ?_
  obtain ⟨u, id, hid, hu, hmovedu, hpass⟩ := hmove hlt
  have heq : Function.update (onePass M.room k ranking) id (onePass M.room k ranking id + 1) =
      onePass M.room (k + 1) ranking := by
    funext key
    by_cases hkey : key ∈ ranking
    · exact hpass key hkey
    · rw [Function.update_of_ne fun (e : key = id) => hkey (e ▸ hid), onePass_of_not_mem hkey,
        onePass_of_not_mem hkey]
  exact ⟨u, hu, heq ▸ hmovedu⟩

/-- **Runs.** Cents that are moved one at a time end where one pass ends; a run is stuck exactly if
there are more cents than there is room. -/
theorem repeatStep_eq (M : Mover ids) (hids : ∀ id ∈ ranking, id ∈ ids) (hnodup : ranking.Nodup)
    (ht : M.Moved (fun _ => 0) t) (stuck : Fault) (n : ℕ) :
    ∃ u, repeatStep (fun t => M.step t ranking) stuck n t =
        (u, if n ≤ (ranking.map M.room).sum then none else some stuck) ∧
      M.Moved (onePass M.room n ranking) u := by
  -- after the first `n - j` cents, with `j` still to come, the pass of those is reached
  rcases repeatStep_cases (fun t => M.step t ranking) stuck
    (fun j u => j ≤ n ∧ n - j ≤ (ranking.map M.room).sum ∧
      M.Moved (onePass M.room (n - j) ranking) u)
    (by
      rintro j u v ⟨hj, -, hu⟩ hv
      obtain ⟨hmove, hstuck⟩ := M.step_onePass hids hnodup hu
      rcases lt_or_ge (n - (j + 1)) (ranking.map M.room).sum with hlt | hge
      · obtain ⟨v', hv', hmoved⟩ := hmove hlt
        cases hv.symm.trans hv'
        have hnext : n - (j + 1) + 1 = n - j := by omega
        exact ⟨by omega, by omega, hnext ▸ hmoved⟩
      · cases hv.symm.trans (hstuck hge))
    (n := n) ⟨le_rfl, by omega, by rwa [Nat.sub_self, onePass_zero]⟩ with
    ⟨u, hrun, -, hle, hu⟩ | ⟨u, j, hrun, ⟨hj, hle, hu⟩, hnone⟩ |
    ⟨u, j, f, hrun, ⟨hj, hle, hu⟩, hfault⟩
  · rw [Nat.sub_zero] at hle hu
    exact ⟨u, by rw [hrun, if_pos hle], hu⟩
  · -- all room is taken, and one cent more is to be moved
    have hall : n - (j + 1) = (ranking.map M.room).sum := by
      refine le_antisymm hle (not_lt.1 fun hlt => ?_)
      obtain ⟨v, hv, -⟩ := (M.step_onePass hids hnodup hu).1 hlt
      cases hnone.symm.trans hv
    have hsame : onePass M.room (n - (j + 1)) ranking = onePass M.room n ranking := by
      funext key
      by_cases hkey : key ∈ ranking
      · rw [onePass_of_sum_le hall.ge hkey, onePass_of_sum_le (by omega) hkey]
      · rw [onePass_of_not_mem hkey, onePass_of_not_mem hkey]
    exact ⟨u, by rw [hrun, if_neg (by omega)], hsame ▸ hu⟩
  · exfalso
    obtain ⟨hmove, hstuck⟩ := M.step_onePass hids hnodup hu
    rcases lt_or_ge (n - (j + 1)) (ranking.map M.room).sum with hlt | hge
    · obtain ⟨v, hv, -⟩ := hmove hlt
      cases hfault.symm.trans hv
    · cases hfault.symm.trans (hstuck hge)

end Mover

/-! ### Amounts that are shifted -/

/-- A table is **shifted** by numbers of cents if each amount has its number of cents more, or fewer
if that is negative. -/
structure Shifted (d : String → ℤ) (t u : Table Money) : Prop where
  keys : u.keys = t.keys
  cents : ∀ id now, t.find? id = some now → ∃ next, u.find? id = some next ∧
    next.currency = now.currency ∧ (next.cents : ℤ) = now.cents + d id

namespace Shifted

variable {d d' : String → ℤ} {t u : Table Money} {id : String} {now next : Money}

theorem refl (t : Table Money) : Shifted (fun _ => 0) t t where
  keys := rfl
  cents _ now h := ⟨now, h, rfl, (Int.add_zero _).symm⟩

/-- Writing an amount shifts its item once more, and no other. -/
theorem insert (h : Shifted d t u) (hnow : u.find? id = some now)
    (hcur : next.currency = now.currency) (hself : d' id = d id + (next.cents - now.cents))
    (hother : ∀ key, key ≠ id → d' key = d key) : Shifted d' t (u.insert id next) where
  keys := by rw [Table.keys_insert, if_pos (Table.mem_keys_of_find? hnow), h.keys]
  cents := by
    intro key start hstart
    obtain ⟨m, hm, hmcur, hmcents⟩ := h.cents key start hstart
    rw [Table.find?_insert]
    split_ifs with hkey
    · rw [hkey, hnow, Option.some.injEq] at hm
      rw [hm] at hcur hself
      refine ⟨next, rfl, hcur.trans hmcur, ?_⟩
      rw [hkey] at hmcents ⊢
      omega
    · exact ⟨m, hm, hmcur, by rw [hother key hkey, hmcents]⟩

/-- An item that is shifted by nothing is left as it was. -/
theorem find?_eq (h : Shifted d t u) (hid : d id = 0) : u.find? id = t.find? id := by
  cases hnow : t.find? id with
  | none =>
    rw [Table.find?_eq_none_iff, h.keys]
    exact Table.find?_eq_none_iff.1 hnow
  | some now =>
    obtain ⟨next, hnext, hcur, hcents⟩ := h.cents id now hnow
    rw [hid] at hcents
    rw [hnext, Money.ext_cents hcur (by omega)]

theorem centsAt (h : Shifted d t u) (hnow : t.find? id = some now) :
    (u.centsAt id : ℤ) = t.centsAt id + d id := by
  obtain ⟨next, hnext, -, hcents⟩ := h.cents id now hnow
  rw [Table.centsAt_of_find? hnow, Table.centsAt_of_find? hnext, hcents]

end Shifted

/-! ### Adding and removing -/

/-- The cents of a cap that is money. -/
def capCents (caps : Caps) (id : String) : ℕ :=
  match caps.find? id with
  | some (.given cap) => cap.cents
  | _ => 0

/-- The cents that an item may be given before it is at its cap. -/
def headroom (caps : Caps) (t : Table Money) (id : String) : ℕ := capCents caps id - t.centsAt id

/-- An item is **capped** if it has a cap and an amount in the currency, and neither of them is the
largest amount that there is. -/
structure Capped (c : Currency) (caps : Caps) (t : Table Money) (id : String) : Prop where
  cap : ∃ cap, caps.find? id = some (.given cap) ∧ cap.currency = c ∧ cap.cents + 1 < Money.bound
  now : ∃ now, t.find? id = some now ∧ now.currency = c ∧ now.cents + 1 < Money.bound

section Movers

variable {c : Currency} {caps : Caps} {t u : Table Money} {ids : List String} {id : String}
  {d : String → ℤ}

/-- The amount of a capped item after it was shifted. -/
private theorem Capped.exists_shifted (hid : Capped c caps t id) (h : Shifted d t u) :
    ∃ now, u.find? id = some now ∧ currentOf u id = .ok now ∧ now.currency = c ∧
      (now.cents : ℤ) = t.centsAt id + d id := by
  obtain ⟨start, hstart, hcur, -⟩ := hid.now
  obtain ⟨now, hnow, hnowcur, hcents⟩ := h.cents id start hstart
  refine ⟨now, hnow, by rw [currentOf, hnow], hnowcur.trans hcur, ?_⟩
  rw [Table.centsAt_of_find? hstart, hcents]

/-- Whether a capped item takes a cent more depends on its cap. -/
private theorem Capped.exists_addCent (hid : Capped c caps t id) (h : Shifted d t u)
    (hle : d id ≤ headroom caps t id) (rest : List String) :
    ∃ now next, u.find? id = some now ∧ next.currency = now.currency ∧
      next.cents = now.cents + 1 ∧ (now.cents : ℤ) = t.centsAt id + d id ∧
      addCent (.oneCent c) caps u (id :: rest) =
        if now.cents < capCents caps id then .ok (some (u.insert id next))
        else addCent (.oneCent c) caps u rest := by
  obtain ⟨cap, hcap, hcapcur, hcaplt⟩ := hid.cap
  obtain ⟨start, hstart, -, hstartlt⟩ := hid.now
  obtain ⟨now, hnow, hcurrent, hcur, hcents⟩ := hid.exists_shifted h
  have hcapcents : capCents caps id = cap.cents := by rw [capCents, hcap]
  have hstartcents := Table.centsAt_of_find? hstart
  rw [headroom, hcapcents, hstartcents] at hle
  have hlt : now.cents + 1 < Money.bound := by omega
  obtain ⟨next, hnext⟩ : ∃ next, now.plus (.oneCent c) = .ok next :=
    ⟨⟨c, now.cents + 1, hlt⟩, Money.plus_eq_ok_iff.2 ⟨hcur, hcur.symm, rfl⟩⟩
  obtain ⟨-, hnextcur, hnextcents⟩ := Money.plus_eq_ok_iff.1 hnext
  have hreq : caps.require id = .ok (.given cap) := by rw [Caps.require, hcap]
  have hwithin := Money.isWithin_given ((hnextcur.trans hcur).trans hcapcur.symm)
  refine ⟨now, next, hnow, hnextcur, hnextcents, hcents, ?_⟩
  rw [addCent_cons hcurrent hreq hnext hwithin, hcapcents, hnextcents, Money.cents_oneCent]
  simp only [decide_eq_true_eq, Nat.succ_le_iff]

/-- **Adding** moves cents to items that are below their caps. -/
def adder (h : ∀ id ∈ ids, Capped c caps t id) : Mover ids where
  step u ids := addCent (.oneCent c) caps u ids
  room := headroom caps t
  Moved moved u := Shifted (fun id => moved id) t u
  nil _ := rfl
  full := by
    intro moved u id hmoved hid hfull rest
    obtain ⟨now, next, -, -, -, hcents, hstep⟩ :=
      (h id hid).exists_addCent hmoved (by exact_mod_cast hfull.le) rest
    rw [headroom] at hfull
    rw [hstep, if_neg (by omega)]
  next := by
    intro moved u id hmoved hid hroom rest
    obtain ⟨now, next, hnow, hcur, hnext, hcents, hstep⟩ :=
      (h id hid).exists_addCent hmoved (by exact_mod_cast hroom.le) rest
    rw [headroom] at hroom
    refine ⟨_, by rw [hstep, if_pos (by omega)], hmoved.insert hnow hcur ?_ fun key hkey => ?_⟩
    · rw [Function.update_self]
      omega
    · rw [Function.update_of_ne hkey]

/-- **Removing** moves cents from items that hold some. -/
def remover (h : ∀ id ∈ ids, Capped c caps t id) : Mover ids where
  step u ids := removeCent (.oneCent c) u ids
  room := t.centsAt
  Moved moved u := Shifted (fun id => -moved id) t u
  nil _ := rfl
  full := by
    intro moved u id hmoved hid hfull rest
    obtain ⟨now, -, hcurrent, hcur, hcents⟩ := (h id hid).exists_shifted hmoved
    exact removeCent_of_lt (.oneCent c) rest hcurrent hcur (by rw [Money.cents_oneCent]; omega)
  next := by
    intro moved u id hmoved hid hroom rest
    obtain ⟨now, hnow, hcurrent, hcur, hcents⟩ := (h id hid).exists_shifted hmoved
    obtain ⟨next, hnext, hstep⟩ := removeCent_of_le (.oneCent c) rest
      hcurrent hcur (by rw [Money.cents_oneCent]; omega)
    obtain ⟨-, -, hnextcur, hnextcents⟩ := Money.minus_eq_ok_iff.1 hnext
    rw [Money.cents_oneCent] at hnextcents
    refine ⟨_, hstep, hmoved.insert hnow hnextcur ?_ fun key hkey => ?_⟩
    · rw [Function.update_self]
      push_cast
      omega
    · rw [Function.update_of_ne hkey]

end Movers

/-! ### A whole distribution -/

section Distributions

variable {c : Currency} {caps : Caps} {current : Table Money} {shares : List Share}
  {ranking order : List Ranked} {n : ℤ}

/-- The value of a number of hundredths says how many they are and with which sign. -/
private theorem magnitude_of_value {x : Decimal} (h : x.value = n / 100) :
    x.magnitude = n.natAbs / 100 ∧ (if x.negative then -(n.natAbs : ℤ) else n.natAbs) = n := by
  have hmag := x.magnitude_nonneg
  rw [Decimal.value] at h
  split_ifs at h ⊢ with hneg
  · have hle : n ≤ 0 := by
      have : (n : ℚ) ≤ 0 := by linarith
      exact_mod_cast this
    have hcast : (n.natAbs : ℚ) = -n := by
      rw [Nat.cast_natAbs, abs_of_nonpos hle, Int.cast_neg]
    exact ⟨by rw [hcast]; linarith, by omega⟩
  · have hge : 0 ≤ n := by
      have : (0 : ℚ) ≤ n := by linarith
      exact_mod_cast this
    have hcast : (n.natAbs : ℚ) = n := by rw [Nat.cast_natAbs, abs_of_nonneg hge]
    exact ⟨by rw [hcast]; linarith, by omega⟩

/-- A remainder of whole cents is counted as its value says. -/
private theorem wholeCents_of_value {x : Decimal} (h : x.value = n / 100)
    (hdigits : Precision.exact.Represents n.natAbs) (hrange : (n.natAbs : ℚ) ≤ 10 ^ maxExponent) :
    wholeCents (.finite x) = .ok n := by
  obtain ⟨hmag, hsign⟩ := magnitude_of_value h
  rw [wholeCents_of_magnitude hmag hdigits hrange, hsign]

/-- The items in the order of a ranking are those of the shares. -/
private theorem ids_perm (hids : ranking.map Ranked.id = shares.map Share.id)
    (horder : order.Perm ranking) : (order.map Ranked.id).Perm (shares.map Share.id) :=
  hids ▸ horder.map Ranked.id

/-- What all shares have room for, in whichever order they are ranked. -/
private theorem sum_room_eq (hids : ranking.map Ranked.id = shares.map Share.id)
    (horder : order.Perm ranking) (room : String → ℕ) :
    ((order.map Ranked.id).map room).sum = (shares.map fun s => room s.id).sum := by
  rw [((ids_perm hids horder).map room).sum_eq, List.map_map]
  rfl

/-- A run of a mover along a ranking of all shares, where `e k` is the change of an amount by `k`
cents: what an item takes in one pass is what changes its amount, and it takes all it has room for
if the run is stuck. -/
private theorem Mover.exists_run (M : Mover (shares.map Share.id)) {e : ℕ → ℤ} (hzero : e 0 = 0)
    (hM : ∀ moved u, M.Moved moved u ↔ Shifted (fun id => e (moved id)) current u)
    (hdistinct : (shares.map Share.id).Nodup)
    (hnow : ∀ s ∈ shares, ∃ now, current.find? s.id = some now)
    (hids : ranking.map Ranked.id = shares.map Share.id) (horder : order.Perm ranking)
    (stuck : Fault) (n : ℕ) :
    ∃ u, repeatStep (fun t => M.step t (order.map Ranked.id)) stuck n current =
        (u, if n ≤ (shares.map fun s => M.room s.id).sum then none else some stuck) ∧
      Shifted (fun id => e (onePass M.room n (order.map Ranked.id) id)) current u ∧
      ((shares.map fun s => M.room s.id).sum < n →
        ∀ s ∈ shares, (u.centsAt s.id : ℤ) = current.centsAt s.id + e (M.room s.id)) ∧
      ∀ id, id ∉ shares.map Share.id → u.find? id = current.find? id := by
  have hperm := ids_perm hids horder
  have hsum := sum_room_eq hids horder M.room
  have hstart : M.Moved (fun _ => 0) current :=
    (hM _ _).2 (by simpa [hzero] using Shifted.refl current)
  obtain ⟨u, hrun, hu⟩ := M.repeatStep_eq (fun id hid => hperm.mem_iff.1 hid)
    (hperm.nodup_iff.2 hdistinct) hstart stuck n
  rw [hsum] at hrun
  rw [hM] at hu
  refine ⟨u, hrun, hu, fun hlt s hs => ?_, fun id hid => hu.find?_eq ?_⟩
  · obtain ⟨now, hnow⟩ := hnow s hs
    have hfull : onePass M.room n (order.map Ranked.id) s.id = M.room s.id :=
      onePass_of_sum_le (hsum ▸ hlt.le) (hperm.mem_iff.2 (List.mem_map_of_mem hs))
    rw [hu.centsAt hnow, hfull]
  · rw [onePass_of_not_mem fun hmem => hid (hperm.mem_iff.1 hmem), hzero]

/-- Cents to add are given out in one pass along the order of adding. -/
private theorem move_add (hdistinct : (shares.map Share.id).Nodup)
    (hcapped : ∀ s ∈ shares, Capped c caps current s.id)
    (hids : ranking.map Ranked.id = shares.map Share.id) (hpos : 0 < n) :
    let o := move c n caps ranking current
    let ids := (ranking.mergeSort Ranked.addsBefore).map Ranked.id
    let room := headroom caps current
    Shifted (fun id => onePass room n.natAbs ids id) current o.current ∧
      o.fault = (if n.natAbs ≤ (shares.map fun s => room s.id).sum then none
        else some (.noHeadroom ids)) ∧
      ((shares.map fun s => room s.id).sum < n.natAbs → ∀ s ∈ shares,
        o.current.centsAt s.id = max (current.centsAt s.id) (capCents caps s.id)) ∧
      ∀ id, id ∉ shares.map Share.id → o.current.find? id = current.find? id := by
  intro o ids room
  obtain ⟨u, hrun, hu, hstuck, hother⟩ := (adder (List.forall_mem_map.2 hcapped)).exists_run
    (e := fun k => k) rfl (fun _ _ => .rfl) hdistinct
    (fun s hs => (hcapped s hs).now.imp fun _ => And.left) hids
    (List.mergeSort_perm ranking _) (.noHeadroom ids) n.natAbs
  have ho : (o.current, o.fault) = addCents (.oneCent c) caps ids n.natAbs current := by
    simp only [o, move, if_pos hpos]
    rfl
  obtain ⟨hcurrent, hfault⟩ := Prod.mk.inj (ho.trans hrun)
  rw [hcurrent, hfault]
  refine ⟨hu, rfl, fun hlt s hs => ?_, hother⟩
  have hcents : (u.centsAt s.id : ℤ) = _ + ((capCents caps s.id - current.centsAt s.id : ℕ) : ℤ) :=
    hstuck hlt s hs
  omega

/-- Cents to remove are taken in one pass along the order of removing. -/
private theorem move_remove (hdistinct : (shares.map Share.id).Nodup)
    (hcapped : ∀ s ∈ shares, Capped c caps current s.id)
    (hids : ranking.map Ranked.id = shares.map Share.id) (hneg : n < 0) :
    let o := move c n caps ranking current
    let ids := (ranking.mergeSort Ranked.removesBefore).map Ranked.id
    let room := current.centsAt
    Shifted (fun id => -onePass room n.natAbs ids id) current o.current ∧
      o.fault = (if n.natAbs ≤ (shares.map fun s => room s.id).sum then none
        else some (.nothingHeld ids)) ∧
      ((shares.map fun s => room s.id).sum < n.natAbs → ∀ s ∈ shares,
        o.current.centsAt s.id = 0) ∧
      ∀ id, id ∉ shares.map Share.id → o.current.find? id = current.find? id := by
  intro o ids room
  obtain ⟨u, hrun, hu, hstuck, hother⟩ := (remover (List.forall_mem_map.2 hcapped)).exists_run
    (e := fun k => -k) rfl (fun _ _ => .rfl) hdistinct
    (fun s hs => (hcapped s hs).now.imp fun _ => And.left) hids
    (List.mergeSort_perm ranking _) (.nothingHeld ids) n.natAbs
  have ho : (o.current, o.fault) = removeCents (.oneCent c) ids n.natAbs current := by
    simp only [o, move, if_neg hneg.not_gt]
    rfl
  obtain ⟨hcurrent, hfault⟩ := Prod.mk.inj (ho.trans hrun)
  rw [hcurrent, hfault]
  refine ⟨hu, rfl, fun hlt s hs => ?_, hother⟩
  have hcents : (u.centsAt s.id : ℤ) = current.centsAt s.id + -(current.centsAt s.id : ℤ) :=
    hstuck hlt s hs
  omega

/-- **One pass.** Take a remainder of `n` whole cents, not zero, that is written with few enough
digits; shares of different items that amount to money; and for each of them a cap and a current
amount in the currency, none of them the largest amount there is. Then the shares can be ranked by
what they lose by rounding: the raw amount of each less what this is rounded to in cents, taken at
twenty-eight digits.

Cents to add are given out in one pass from the largest loss down, ties to the smaller id, each item
taking as many as it has room for below its cap. Cents to remove are taken in one pass from the
smallest loss up, ties again from the smaller id, each item giving as many as it holds. The
distribution fails exactly if there is less room, or less is held, than there are cents, and then it
leaves each ranked item at the larger of its amount and its cap, or at zero. No other item is
touched. -/
theorem run_eq_onePass (c : Currency) (remainder : Decimal) (n : ℤ) (caps : Caps)
    (shares : List Share) (current : Table Money) (hne : n ≠ 0)
    (hvalue : remainder.value = n / 100) (hdigits : Precision.exact.Represents n.natAbs)
    (hrange : (n.natAbs : ℚ) ≤ 10 ^ maxExponent) (hdistinct : (shares.map Share.id).Nodup)
    (hraw : ∀ s ∈ shares, ∃ m, Money.ofNumeric c s.raw = .ok m)
    (hcapped : ∀ s ∈ shares, Capped c caps current s.id) :
    let o := run c.code (.finite remainder) caps shares current
    ∃ ranking, shares.mapM (rank c) = .ok ranking ∧
      List.Forall₂ (fun share ranked => ranked.id = share.id ∧ ∃ raw rounded,
        share.raw = .finite raw ∧ Money.ofDecimal c raw = .ok rounded ∧
          Precision.exact.subtract raw rounded.amount = .ok ranked.loss) shares ranking ∧
      (0 < n → ∃ order : List Ranked, order.Perm ranking ∧
        order.Pairwise (fun a b => b.loss.value < a.loss.value ∨
          a.loss.value = b.loss.value ∧ Text.unitsLE a.id b.id = true) ∧
        let ids := order.map Ranked.id
        let room := headroom caps current
        Shifted (fun id => onePass room n.natAbs ids id) current o.current ∧
        o.fault = (if n.natAbs ≤ (shares.map fun s => room s.id).sum then none
          else some (.noHeadroom ids)) ∧
        ((shares.map fun s => room s.id).sum < n.natAbs → ∀ s ∈ shares,
          o.current.centsAt s.id = max (current.centsAt s.id) (capCents caps s.id))) ∧
      (n < 0 → ∃ order : List Ranked, order.Perm ranking ∧
        order.Pairwise (fun a b => a.loss.value < b.loss.value ∨
          a.loss.value = b.loss.value ∧ Text.unitsLE a.id b.id = true) ∧
        let ids := order.map Ranked.id
        let room := current.centsAt
        Shifted (fun id => -onePass room n.natAbs ids id) current o.current ∧
        o.fault = (if n.natAbs ≤ (shares.map fun s => room s.id).sum then none
          else some (.nothingHeld ids)) ∧
        ((shares.map fun s => room s.id).sum < n.natAbs → ∀ s ∈ shares,
          o.current.centsAt s.id = 0)) ∧
      ∀ id, id ∉ shares.map Share.id → o.current.find? id = current.find? id := by
  intro o
  have hrank : ∀ s ∈ shares, ∃ r, rank c s = .ok r ∧ r.id = s.id := by
    rintro ⟨id, raw⟩ hs
    obtain ⟨m, hm⟩ := hraw _ hs
    obtain ⟨x, hx, hm⟩ := bind_eq_ok_iff.1 hm
    cases raw <;> cases hx
    exact exists_rank hm
  obtain ⟨ranking, hprepare, hids⟩ := exists_prepare hrank
  have ho : o = move c n caps ranking current :=
    run_eq_move (wholeCents_of_value hvalue hdigits hrange) hne hprepare
  rw [ho]
  obtain ⟨c', -, hrest⟩ := bind_eq_ok_iff.1 hprepare
  obtain ⟨ranking', hmapM, heq⟩ := bind_eq_ok_iff.1 hrest
  cases heq
  refine ⟨ranking, hmapM, (mapM_eq_ok_iff.1 hmapM).imp fun _ _ h => rank_eq_ok_iff.1 h, ?_⟩
  rcases lt_or_gt_of_ne hne with hneg | hpos
  · obtain ⟨hmoved, hfault, hstuck, hother⟩ := move_remove hdistinct hcapped hids hneg
    exact ⟨fun hpos => absurd hpos hneg.not_gt, fun _ => ⟨_, List.mergeSort_perm ranking _,
      (pairwise_removesBefore ranking).imp removesBefore_iff.1, hmoved, hfault, hstuck⟩, hother⟩
  · obtain ⟨hmoved, hfault, hstuck, hother⟩ := move_add hdistinct hcapped hids hpos
    exact ⟨fun _ => ⟨_, List.mergeSort_perm ranking _,
      (pairwise_addsBefore ranking).imp addsBefore_iff.1, hmoved, hfault, hstuck⟩,
      fun hneg => absurd hneg hpos.not_gt, hother⟩

/-- There is room for two cents with a tea and for 67 with a cake. Three cents find their place;
seventy do not, and leave both at their caps. -/
theorem run_eq_onePass_tea_and_cake :
    let shares : List Share := [⟨"cake", .finite ⟨false, 333, -3⟩⟩, ⟨"tea", .finite ⟨false, 334, -3⟩⟩]
    let caps := Caps.ofMoney (Table.ofList
      [("cake", Money.euro 100 (by decide)), ("tea", Money.euro 35 (by decide))])
    let current := Table.ofList
      [("cake", Money.euro 33 (by decide)), ("tea", Money.euro 33 (by decide))]
    let three := run "EUR" (.finite ⟨false, 3, -2⟩) caps shares current
    let seventy := run "EUR" (.finite ⟨false, 70, -2⟩) caps shares current
    three.fault = none ∧ seventy.fault.isSome ∧ seventy.current.centsAt "cake" = 100 ∧
      seventy.current.centsAt "tea" = 35 := by
  intro shares caps current three seventy
  have hraw : ∀ s ∈ shares, ∃ m, Money.ofNumeric ⟨"EUR", by decide⟩ s.raw = .ok m := by
    have hcents : ∀ s ∈ shares,
        (Money.ofNumeric ⟨"EUR", by decide⟩ s.raw).toOption.map Money.cents = some 33 := by
      decide +kernel
    exact fun s hs => (exists_of_toOption (hcents s hs)).imp fun _ => And.left
  have hcapped : ∀ s ∈ shares, Capped ⟨"EUR", by decide⟩ caps current s.id := by
    simp only [shares, List.forall_mem_cons]
    exact ⟨⟨⟨_, rfl, rfl, by decide⟩, _, rfl, rfl, by decide⟩,
      ⟨⟨_, rfl, rfl, by decide⟩, _, rfl, rfl, by decide⟩, by simp⟩
  have hvalue : ∀ n : ℕ, (⟨false, n, -2⟩ : Decimal).value = ((n : ℤ) : ℚ) / 100 := by
    intro n
    rw [Decimal.value, if_neg (by simp), Decimal.magnitude, zpow_neg]
    norm_num [div_eq_mul_inv]
  have hdigits : ∀ n : ℕ, n ≤ 100 → Precision.exact.Represents ((n : ℤ).natAbs : ℕ) := fun n hn =>
    ⟨n, 0, hn.trans (by decide), by decide, by simp⟩
  have hrange : ∀ n : ℕ, n ≤ 100 → (((n : ℤ).natAbs : ℕ) : ℚ) ≤ 10 ^ maxExponent := fun n hn =>
    Money.cast_le_zpow_maxExponent (hn.trans (by decide : 100 ≤ pow10 2)) (by decide)
  obtain ⟨_, -, -, hthree, -⟩ := run_eq_onePass ⟨"EUR", by decide⟩ ⟨false, 3, -2⟩ 3 caps shares current
    (by decide) (hvalue 3) (hdigits 3 (by decide)) (hrange 3 (by decide)) (by decide) hraw
    hcapped
  obtain ⟨_, -, -, hseventy, -⟩ := run_eq_onePass ⟨"EUR", by decide⟩ ⟨false, 70, -2⟩ 70 caps shares
    current (by decide) (hvalue 70) (hdigits 70 (by decide)) (hrange 70 (by decide))
    (by decide) hraw hcapped
  obtain ⟨_, -, -, -, hfault, -⟩ := hthree (by decide)
  obtain ⟨_, -, -, -, hstopped, hfull⟩ := hseventy (by decide)
  refine ⟨hfault.trans (if_pos (by decide)), ?_, hfull (by decide) _ List.mem_cons_self,
    hfull (by decide) _ (List.mem_cons_of_mem _ List.mem_cons_self)⟩
  rw [hstopped, if_neg (by decide)]
  rfl

end Distributions

end Settlement.Distribution
