import Mathlib.Data.List.Perm.Basic
import Settlement.Allocation.Proportional
import Settlement.Proofs.Agreement
import Settlement.Proofs.Ranking

/-!
# The order of the caps does not matter

Caps are handed to an allocation in some order, and every table of an allocation keeps it. What each
item is given does not depend on it (`follows_allocate`): shares and their roundings are made item
by item, the ranking is the same list for shares in any order, and a cent is moved along the ranking
by looks at single items.
-/

namespace Settlement

open Table (Agrees)

/-! ### Moving cents -/

namespace Distribution

variable {caps caps' : Caps} {t u : Table Money} {cent : Money} {currency : Currency}
  {code : String} {ranking ranking' : List Ranked} {shares shares' : List Share}

private theorem currentOf_eq (h : t.Agrees u) (id : String) : currentOf t id = currentOf u id := by
  rw [currentOf, currentOf, h id]

/-- A cent that is added to one table is added to any table that agrees. -/
private theorem follows_addCent (hcaps : caps.Agrees caps') (h : t.Agrees u) (ids : List String) :
    Follows (Option.Rel Agrees) (addCent cent caps t ids) (addCent cent caps' u ids) := by
  induction ids with
  | nil => exact .ok .none
  | cons id ids ih =>
    have hreq : caps.require id = caps'.require id := by
      rw [Caps.require, Caps.require, hcaps id]
    rw [addCent, addCent, currentOf_eq h, hreq]
    refine Follows.bind_same fun now _ => Follows.bind_same fun cap _ =>
      Follows.bind_same fun next _ => Follows.bind_same fun fits _ => ?_
    cases fits with
    | true => exact .ok (.some (h.insert id next))
    | false => exact ih

/-- A cent that is removed from one table is removed from any table that agrees. -/
private theorem follows_removeCent (h : t.Agrees u) (ids : List String) :
    Follows (Option.Rel Agrees) (removeCent cent t ids) (removeCent cent u ids) := by
  induction ids with
  | nil => exact .ok .none
  | cons id ids ih =>
    rw [removeCent, removeCent, currentOf_eq h]
    refine Follows.bind_same fun now _ => Follows.bind_same fun order _ => ?_
    split_ifs
    · exact Follows.bind_same fun next _ => .ok (.some (h.insert id next))
    · exact ih

/-- **Runs.** Steps that keep tables in agreement keep them so however often they are taken. -/
private theorem repeatStep_agrees {step step' : Table Money → Except Fault (Option (Table Money))}
    {stuck : Fault} (hstep : ∀ t u, t.Agrees u → Follows (Option.Rel Agrees) (step t) (step' u))
    {n : ℕ} (h : t.Agrees u) {v : Table Money} (hv : repeatStep step stuck n t = (v, none)) :
    ∃ v', repeatStep step' stuck n u = (v', none) ∧ v.Agrees v' := by
  induction n generalizing t u with
  | zero =>
    cases hv
    exact ⟨u, rfl, h⟩
  | succ n ih =>
    rw [repeatStep] at hv
    split at hv
    · rename_i next hnext
      obtain ⟨_, hnext', hrel⟩ := hstep t u h _ hnext
      cases hrel with
      | some hagrees =>
        rw [repeatStep, hnext']
        exact ih hagrees hv
    · cases hv
    · cases hv

/-- A distribution that was not stopped has its allocation as a result. -/
theorem result_eq_ok_iff {o : Outcome} {v : Table Money} :
    o.result = .ok v ↔ (o.current, o.fault) = (v, none) := by
  rw [Outcome.result, Prod.mk.injEq]
  cases o.fault <;> simp

private theorem follows_move (cents : ℤ) (hcaps : caps.Agrees caps') (h : t.Agrees u)
    (hperm : ranking.Perm ranking') (hids : (ranking.map Ranked.id).Nodup) :
    Follows Agrees (move currency cents caps ranking t).result
      (move currency cents caps' ranking' u).result := by
  intro v hv
  rw [result_eq_ok_iff] at hv
  simp only [result_eq_ok_iff]
  rw [move] at hv ⊢
  -- the ranking of one list is the ranking of the other
  rw [← mergeSort_addsBefore_eq hperm hids, ← mergeSort_removesBefore_eq hperm hids]
  split_ifs at hv ⊢
  · exact repeatStep_agrees (fun _ _ h => follows_addCent hcaps h _) h hv
  · exact repeatStep_agrees (fun _ _ h => follows_removeCent h _) h hv

/-! ### Rankings of shares -/

private theorem follows_prepare (hperm : shares.Perm shares')
    (hids : (shares.map Share.id).Nodup) :
    Follows (fun p q => p.1 = q.1 ∧ p.2.Perm q.2 ∧ (p.2.map Ranked.id).Nodup)
      (prepare code shares) (prepare code shares') := by
  refine Follows.bind_same fun currency _ => ?_
  intro p hp
  obtain ⟨ranking, hranking, hp⟩ := bind_eq_ok_iff.1 hp
  cases hp
  have hranks := mapM_eq_ok_iff.1 hranking
  obtain ⟨ranking', hranks', hperm'⟩ := List.perm_comp_forall₂ hperm.symm hranks
  refine ⟨(currency, ranking'), bind_eq_ok_iff.2 ⟨ranking', mapM_eq_ok_iff.2 hranks', rfl⟩, rfl,
    hperm'.symm, ?_⟩
  -- ranked shares keep their ids
  have hsame : ranking.map Ranked.id = shares.map Share.id := by
    rw [← List.forall₂_eq_eq_eq, List.forall₂_map_left_iff, List.forall₂_map_right_iff]
    exact hranks.flip.imp fun _ _ h => (rank_eq_ok_iff.1 h).1
  rwa [hsame]

private theorem follows_run {remainder : Numeric} (hcaps : caps.Agrees caps') (h : t.Agrees u)
    (hperm : shares.Perm shares') (hids : (shares.map Share.id).Nodup) :
    Follows Agrees (run code remainder caps shares t).result
      (run code remainder caps' shares' u).result := by
  rw [run, run]
  split
  · exact .error _
  · exact .ok h
  · rename_i cents _ _
    cases hprepare : prepare code shares with
    | error f => exact .error f
    | ok p =>
      obtain ⟨q, hq, hcurrency, hranking, hrankids⟩ := follows_prepare hperm hids p hprepare
      rw [hq]
      simp only [← hcurrency]
      exact follows_move cents hcaps h hranking hrankids

end Distribution

/-! ### Plans and allocations -/

namespace Allocation

open Settlement.Distribution

variable {caps caps' : Table Money} {total : Money} {code : String}

/-- Two plans **agree** if they differ in the order of their items at most. -/
structure Plan.Agrees (p q : Plan) : Prop where
  caps : p.caps.Agrees q.caps
  shares : p.shares.Perm q.shares
  ids : (p.shares.map Share.id).Nodup
  rounded : p.rounded.Agrees q.rounded
  remainder : p.remainder = q.remainder

private theorem follows_planShares (h : caps.Agrees caps') :
    Follows Plan.Agrees (planShares total caps) (planShares total caps') := by
  rw [planShares, planShares]
  refine h.follows_sum.bind ?_
  rintro totalCap _ rfl
  split_ifs
  · exact .error _
  refine (h.follows_traverse fun _ _ _ => .refl _).bind fun raw raw' hraw => ?_
  refine (h.follows_traverse fun id cap _ => ?_).bind fun rounded rounded' hrounded => ?_
  · rw [hraw id]
    exact .refl _
  refine hrounded.follows_sum.bind ?_
  rintro given _ rfl
  refine .ok ⟨h, hraw.entries_perm.map _, ?_, hrounded, rfl⟩
  rw [List.map_map]
  exact raw.nodup

theorem follows_plan (h : caps.Agrees caps') :
    Follows Plan.Agrees (plan code total caps) (plan code total caps') := by
  rw [plan, plan]
  refine Follows.bind_same fun _ _ => ?_
  refine (h.follows_traverse fun _ _ _ => .refl _).bind fun _ _ _ => ?_
  split_ifs
  · exact .ok ⟨h, .refl _, List.nodup_nil, h.map _, rfl⟩
  · exact follows_planShares h

/-- **Allocations.** What is given out does not depend on the order of the caps. -/
theorem follows_allocate (h : caps.Agrees caps') :
    Follows Agrees (allocate code total caps) (allocate code total caps') := by
  rw [allocate, allocate]
  refine (follows_plan h).bind fun p q hpq => ?_
  rw [Plan.settle, Plan.settle, hpq.remainder]
  split_ifs
  · exact .ok hpq.rounded
  · exact follows_run (hpq.caps.map _) hpq.rounded hpq.shares hpq.ids

end Allocation

end Settlement
