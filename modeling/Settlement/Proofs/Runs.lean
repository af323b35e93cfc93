import Settlement.Proofs.Rounds

/-!
# Runs of one tab

A run of a tab without write-offs charges the price of what it pays, and its rounds fail for a
selection for which no context is created and for no other reason, as long as what is outstanding is
in range. If all rounds are paid depends only on what is asked for in sum: a tab has to be `Sound`,
and to cover all that is asked for of each item (`Plain.allPaid_iff`). The payers of a tab can
thus take turns in any order, and split what they pay in any way.

`run_settles` sums up what runs do, with write-offs or without.
-/

namespace Settlement.Tab

variable {tab after : Tab} {selections : List Selection} {lists lists' : List (List Selection)}
  {paid wanted : String → ℕ}

/-! ### Tabs that can be paid -/

/-- A **sound** tab: it is in a currency in which its items are priced, its items have different
ids, and what is outstanding is in range. -/
structure Sound (tab : Tab) : Prop where
  priced : ∃ currency, Currency.ofCode tab.code = .ok currency ∧
    ∀ item ∈ tab.items, item.unitPrice.currency = currency
  distinct : (tab.items.map Item.id).Nodup
  inRange : outstanding tab.items < Money.bound

/-- A tab **covers** quantities if at least as much remains of each item. -/
def Covers (tab : Tab) (wanted : String → ℕ) : Prop :=
  ∀ id, 0 < wanted id → ∃ item ∈ tab.items, item.id = id ∧ wanted id ≤ item.remaining

/-- What is taken off leaves a tab sound. -/
theorem Sound.of_takes (hsound : tab.Sound) (h : Takes paid tab after) : after.Sound where
  priced := by
    obtain ⟨currency, hcurrency, hpriced⟩ := hsound.priced
    rw [h.eq]
    refine ⟨currency, hcurrency, fun item hitem => ?_⟩
    obtain ⟨before, hbefore, rfl⟩ := List.mem_map.1 hitem
    exact hpriced before hbefore
  distinct := by
    rw [h.eq, List.map_map]
    exact hsound.distinct
  inRange := by
    have := h.outstanding_add
    have := hsound.inRange
    omega

/-- A tab covers what is taken off and more exactly if the tab after covers the rest. -/
theorem Takes.covers_iff (h : Takes paid tab after) (hpaid : tab.Covers paid) {total : String → ℕ}
    (htotal : ∀ id, total id = paid id + wanted id) : after.Covers wanted ↔ tab.Covers total := by
  constructor
  · intro hcovers id hpos
    have hsum := htotal id
    rcases Nat.eq_zero_or_pos (wanted id) with hzero | hwanted
    · obtain ⟨item, hitem, hid, hle⟩ := hpaid id (by omega)
      exact ⟨item, hitem, hid, by omega⟩
    · obtain ⟨left, hleft, rfl, hle⟩ := hcovers id hwanted
      rw [h.eq] at hleft
      obtain ⟨item, hitem, rfl⟩ := List.mem_map.1 hleft
      have htaken := h.le item hitem
      refine ⟨item, hitem, rfl, ?_⟩
      change wanted item.id ≤ item.remaining - paid item.id at hle
      change total item.id = paid item.id + wanted item.id at hsum
      change total item.id ≤ item.remaining
      omega
  · intro hcovers id hwanted
    have hsum := htotal id
    obtain ⟨item, hitem, rfl, hle⟩ := hcovers id (by omega)
    refine ⟨item.takeOff (paid item.id), ?_, rfl, ?_⟩
    · rw [h.eq]
      exact List.mem_map_of_mem hitem
    · change wanted item.id ≤ item.remaining - paid item.id
      omega

/-- There is a quote of a sound tab without write-offs for every selection that it covers. -/
theorem Plain.exists_quote_iff_covers (hplain : tab.Plain) :
    (∃ q, tab.quote selections = .ok q) ↔
      selections ≠ [] ∧ tab.Sound ∧ tab.Covers (Context.quantityOf selections) := by
  rw [hplain.exists_quote_iff]
  constructor
  · rintro ⟨⟨ctx, hctx⟩, hlt⟩
    obtain ⟨currency, hcurrency, hcreate⟩ := bind_eq_ok_iff.1 hctx
    have hacc := (Context.create_eq_ok_iff.1 hcreate).1
    exact ⟨hacc.nonempty, ⟨⟨currency, hcurrency, hacc.priced⟩, hacc.distinct, hlt⟩,
      fun id hid => hacc.remains id (Context.mem_ids_iff.2 hid)⟩
  · rintro ⟨hne, hsound, hcovers⟩
    obtain ⟨currency, hcurrency, hpriced⟩ := hsound.priced
    obtain ⟨ctx, hcreate⟩ := Context.exists_create_iff.2 ⟨hne, hpriced, hsound.distinct,
      fun id hid => hcovers id (Context.mem_ids_iff.1 hid)⟩
    exact ⟨⟨ctx, bind_eq_ok_iff.2 ⟨currency, hcurrency, hcreate⟩⟩, hsound.inRange⟩

/-! ### Paying in any order -/

/-- All rounds of a run **are paid**. -/
def AllPaid (results : List (Except Fault Quote)) : Prop := ∀ r ∈ results, ∃ q, r = .ok q

/-- A run is paid if its first round is and the others are, of what the first round leaves. -/
private theorem allPaid_cons_iff (tab : Tab) (selections : List Selection)
    (requests : List Request) :
    AllPaid (tab.run (.ok selections :: requests)).1 ↔
      ∃ q, tab.quote selections = .ok q ∧ AllPaid ((tab.settle q).run requests).1 := by
  rw [run_cons, AllPaid, List.forall_mem_append, List.forall_mem_singleton]
  have hquote : (tab.round (.ok selections)).1 = tab.quote selections := fst_round tab _
  rcases round_cases tab (.ok selections) with ⟨_, q, ⟨⟩, hq, hround⟩ | ⟨f, hround⟩
  · rw [hround]
    simp only [Except.ok.injEq, exists_eq', true_and, hq, exists_eq_left']
    rfl
  · rw [hround] at hquote ⊢
    simp [← hquote]

/-- What a round takes off is what its selection asks for. -/
private theorem takes_settle {q : Quote} (h : tab.quote selections = .ok q) :
    Takes (Context.quantityOf selections) tab (tab.settle q) := by
  have hpaid : Context.quantityOf selections = paidQuantity q :=
    funext fun id => (paidQuantity_eq h id).symm
  rw [hpaid]
  exact ⟨rfl, fun item hitem => paidQuantity_le h hitem⟩

/-- **Any order.** If all rounds of a run are paid depends on what is asked for in sum only. -/
theorem Plain.allPaid_iff (hplain : tab.Plain) (hne : ∀ l ∈ lists, l ≠ []) :
    AllPaid (tab.run (lists.map .ok)).1 ↔
      (lists ≠ [] → tab.Sound) ∧ tab.Covers (asked lists) := by
  induction lists generalizing tab with
  | nil => simp [AllPaid, run, Covers, asked]
  | cons l lists ih =>
    rw [List.forall_mem_cons] at hne
    rw [List.map_cons, allPaid_cons_iff]
    have hsum := asked_cons l lists
    constructor
    · rintro ⟨q, hq, hrest⟩
      obtain ⟨-, hsound, hcovers⟩ := hplain.exists_quote_iff_covers.1 ⟨q, hq⟩
      have htakes := takes_settle hq
      have hlater := ((ih (hplain.of_takes htakes) hne.2).1 hrest).2
      exact ⟨fun _ => hsound, (htakes.covers_iff hcovers hsum).1 hlater⟩
    · rintro ⟨hsound, hcovers⟩
      have hsound := hsound (List.cons_ne_nil _ _)
      have hfirst : tab.Covers (Context.quantityOf l) := by
        intro id hpos
        have hsumid := hsum id
        obtain ⟨item, hitem, hid, hle⟩ := hcovers id (by omega)
        exact ⟨item, hitem, hid, by omega⟩
      obtain ⟨q, hq⟩ := hplain.exists_quote_iff_covers.2 ⟨hne.1, hsound, hfirst⟩
      have htakes := takes_settle hq
      exact ⟨q, hq, (ih (hplain.of_takes htakes) hne.2).2
        ⟨fun _ => hsound.of_takes htakes, (htakes.covers_iff hfirst hsum).2 hcovers⟩⟩

/-- A run that is paid pays what is asked for. -/
theorem paidOver_of_allPaid (h : AllPaid (tab.run (lists.map .ok)).1) (id : String) :
    paidOver (tab.run (lists.map .ok)).1 id = asked lists id := by
  induction lists generalizing tab with
  | nil => rfl
  | cons l lists ih =>
    rw [List.map_cons, allPaid_cons_iff] at h
    obtain ⟨q, hq, hrest⟩ := h
    rw [List.map_cons, run_cons, paidOver_append, round_of_quote hq, ih hrest, asked_cons,
      ← paidQuantity_eq hq]
    rfl

/-- Selections that are not empty ask for something. -/
private theorem exists_asked_pos (hne : ∀ l ∈ lists, l ≠ []) (h : lists ≠ []) :
    ∃ id, 0 < asked lists id := by
  cases lists with
  | nil => exact absurd rfl h
  | cons l lists =>
    obtain ⟨s, hs⟩ := List.exists_mem_of_ne_nil l (hne l List.mem_cons_self)
    have hpos := Context.mem_ids_iff.1 (List.mem_map_of_mem (f := Selection.id) hs)
    refine ⟨s.id, ?_⟩
    rw [asked_cons]
    omega

/-- **Any order and any split.** Of two runs of a tab without write-offs that ask for the same in
sum, the other one is paid if the one is, and charges the same. -/
theorem Plain.allPaid_of_asked_eq (hplain : tab.Plain) (hne : ∀ l ∈ lists, l ≠ [])
    (hne' : ∀ l ∈ lists', l ≠ []) (hasked : ∀ id, asked lists id = asked lists' id)
    (h : AllPaid (tab.run (lists.map .ok)).1) :
    AllPaid (tab.run (lists'.map .ok)).1 ∧
      charged (tab.run (lists'.map .ok)).1 = charged (tab.run (lists.map .ok)).1 := by
  obtain ⟨hsound, hcovers⟩ := (hplain.allPaid_iff hne).1 h
  have hpaid : AllPaid (tab.run (lists'.map .ok)).1 := by
    refine (hplain.allPaid_iff hne').2 ⟨fun hsome => hsound ?_, funext hasked ▸ hcovers⟩
    -- a run that asks for something has a round
    rintro rfl
    obtain ⟨id, hpos⟩ := exists_asked_pos hne' hsome
    rw [← hasked] at hpos
    exact hpos.ne' rfl
  refine ⟨hpaid, ?_⟩
  rw [charged_run_eq hplain, charged_run_eq hplain]
  simp only [paidOver_of_allPaid h, paidOver_of_allPaid hpaid, hasked]

/-! ### Runs -/

/-- A round of a tab without write-offs fails if no context is created of its selection, or if what
is outstanding is out of range. -/
private theorem Plain.round_fails_iff (hplain : tab.Plain) :
    (∃ f, (tab.round (.ok selections)).1 = .error f) ↔
      (∃ f, Context.ofValues (.text tab.code) tab.items selections = .error f) ∨
        Money.bound ≤ outstanding tab.items := by
  have hquote : (tab.round (.ok selections)).1 = tab.quote selections := fst_round tab _
  rw [hquote, exists_error_iff, exists_error_iff, hplain.exists_quote_iff, not_and_or, not_lt]

/-- **Runs.** Let a tab be settled in rounds, of any number and with any write-offs. What remained
of an item at the start is what remains at the end and what the rounds paid, and no round pays more
of an item than remains before it. No more is charged than the price of what is paid.

Without write-offs exactly this price is charged. A round then fails for a selection for which no
context is created, and apart from that only if what is outstanding before it is out of range, which
is never more than at the start. Runs that ask for the same quantities in sum, in any order and in
any parts, are then paid together and charge the same. -/
theorem run_settles (tab : Tab) (requests : List Request) :
    List.Forall₂ (fun before after : Item => after.id = before.id ∧
        after.unitPrice = before.unitPrice ∧
        before.remaining = after.remaining + paidOver (tab.run requests).1 before.id)
      tab.items (tab.run requests).2.items ∧
    (∀ before request later q, requests = before ++ request :: later →
      (tab.run requests).1[before.length]? = some (.ok q) →
      ∀ item ∈ (tab.run before).2.items, paidQuantity q item.id ≤ item.remaining) ∧
    charged (tab.run requests).1 ≤ (tab.items.map fun item =>
      item.unitPrice.cents * paidOver (tab.run requests).1 item.id).sum ∧
    (tab.itemWriteOffs = [] → tab.writeOffs = [] →
      charged (tab.run requests).1 = (tab.items.map fun item =>
        item.unitPrice.cents * paidOver (tab.run requests).1 item.id).sum ∧
      (∀ before selections later, requests = before ++ .ok selections :: later →
        ((∃ f, (tab.run requests).1[before.length]? = some (.error f)) ↔
          (∃ f, Context.ofValues (.text tab.code) (tab.run before).2.items selections = .error f) ∨
            Money.bound ≤ outstanding (tab.run before).2.items) ∧
        outstanding (tab.run before).2.items ≤ outstanding tab.items) ∧
      ∀ lists lists' : List (List Selection), (∀ l ∈ lists, l ≠ []) → (∀ l ∈ lists', l ≠ []) →
        (∀ id, asked lists id = asked lists' id) → AllPaid (tab.run (lists.map .ok)).1 →
        AllPaid (tab.run (lists'.map .ok)).1 ∧
          charged (tab.run (lists'.map .ok)).1 = charged (tab.run (lists.map .ok)).1) := by
  refine ⟨(takes_run tab requests).forall₂, ?_, charged_run_le tab requests,
    fun hitem htab => ⟨charged_run_eq ⟨hitem, htab⟩ requests, ?_, ?_⟩⟩
  · rintro before request later q rfl hq item hitem
    rw [getElem?_run, Option.some.injEq] at hq
    rcases round_cases (tab.run before).2 request with ⟨selections, q', -, hquote, hround⟩ |
      ⟨f, hround⟩
    · rw [hround] at hq
      cases hq
      exact paidQuantity_le hquote hitem
    · rw [hround] at hq
      cases hq
  · rintro before selections later rfl
    have htakes := takes_run tab before
    have hplain : (tab.run before).2.Plain := Plain.of_takes ⟨hitem, htab⟩ htakes
    have hcode : (tab.run before).2.code = tab.code := by rw [htakes.eq]
    have hless := htakes.outstanding_add
    refine ⟨?_, by omega⟩
    simp only [getElem?_run, Option.some.injEq]
    rw [hplain.round_fails_iff, hcode]
  · intro lists lists' hne hne' hasked hpaid
    exact Plain.allPaid_of_asked_eq ⟨hitem, htab⟩ hne hne' hasked hpaid

/-- Of three teas, one payer pays two, another one asks for two in vain, and pays one then. -/
theorem run_settles_three_teas :
    let tab : Tab := ⟨"EUR", [⟨"tea", Money.euro 150 (by decide), 3, by decide, by decide⟩], [], []⟩
    let one : List Selection := [⟨"tea", 1, by decide, by decide⟩]
    let two : List Selection := [⟨"tea", 2, by decide, by decide⟩]
    let requests : List Request := [.ok two, .ok two, .ok one]
    charged (tab.run requests).1 = 450 ∧ (tab.run requests).2.items.map Item.remaining = [0] ∧
      charged (tab.run [.ok one, .ok two]).1 = charged (tab.run [.ok two, .ok one]).1 := by
  intro tab one two requests
  have hpaid : paidOver (tab.run requests).1 "tea" = 3 := by decide +kernel
  obtain ⟨hitems, -, -, hplain⟩ := run_settles tab requests
  obtain ⟨hcharged, -, horder⟩ := hplain rfl rfl
  refine ⟨?_, ?_, ?_⟩
  · rw [hcharged]
    change 150 * paidOver (tab.run requests).1 "tea" + 0 = 450
    rw [hpaid]
  · obtain ⟨last, rest, ⟨-, -, hremains⟩, hrest, hfinal⟩ :=
      List.forall₂_cons_left_iff.1 hitems
    cases List.forall₂_nil_left_iff.1 hrest
    have hthree : 3 = last.remaining + paidOver (tab.run requests).1 "tea" := hremains
    rw [hfinal, List.map_cons, List.map_nil, List.cons.injEq]
    exact ⟨by omega, rfl⟩
  · have hasked : ∀ id, asked [two, one] id = asked [one, two] id := fun id => by
      rw [asked_cons, asked_cons, asked_cons, asked_cons, Nat.add_left_comm]
    have hall : AllPaid (tab.run ([two, one].map .ok)).1 := by
      have hok : ∀ r ∈ (tab.run ([two, one].map .ok)).1, r.isOk = true := by decide +kernel
      intro r hr
      cases r with
      | error f => cases hok _ hr
      | ok q => exact ⟨q, rfl⟩
    exact (horder [two, one] [one, two] (by simp [one, two]) (by simp [one, two]) hasked hall).2

end Settlement.Tab
