import Settlement.Proofs.PlainQuotes
import Settlement.Quote.Rounds

/-!
# What rounds take off a tab

Payers settle a tab in rounds. A round that ends with a quote takes the paid quantities off the
items, never more than remains of one, and a round that fails takes nothing: `Takes` says how a tab
before and a tab after differ, and holds for a round (`takes_round`) and for a run (`takes_run`). No
run charges more than the price of what it takes off.
-/

namespace Settlement.Tab

variable {tab after last : Tab} {selections : List Selection} {q : Quote} {paid paid' : String → ℕ}

/-! ### Quotes of a tab -/

/-- A quote of a tab is calculated in the currency of the tab. -/
theorem quote_eq_ok_iff : tab.quote selections = .ok q ↔
    ∃ currency, Currency.ofCode tab.code = .ok currency ∧
      Quote.calculate currency tab.items selections tab.itemWriteOffs tab.writeOffs = .ok q :=
  bind_eq_ok_iff

/-- A quote pays for what was selected. -/
theorem paidQuantity_eq (h : tab.quote selections = .ok q) (id : String) :
    paidQuantity q id = Context.quantityOf selections id := by
  obtain ⟨currency, -, hq⟩ := quote_eq_ok_iff.1 h
  have hsum : paidQuantity q id = sumAt PaidItem.id PaidItem.quantity q.items id := by
    rw [paidQuantity, sumAt, List.sum_eq_foldl, List.foldl_map]
    rfl
  rw [hsum]
  by_cases hid : id ∈ q.items.map PaidItem.id
  · obtain ⟨p, hp, rfl⟩ := List.mem_map.1 hid
    rw [sumAt_of_mem (Quote.nodup_ids hq) hp, Quote.quantity_of_calculate hq p hp]
  · rw [sumAt_eq_zero hid]
    rw [Quote.ids_of_calculate hq, List.mem_eraseDups] at hid
    exact (sumAt_eq_zero hid).symm

/-- No more of an item is paid than remains. -/
theorem paidQuantity_le (h : tab.quote selections = .ok q) {item : Item}
    (hitem : item ∈ tab.items) : paidQuantity q item.id ≤ item.remaining := by
  obtain ⟨currency, -, hq⟩ := quote_eq_ok_iff.1 h
  obtain ⟨ctx, hcreate, -⟩ := bind_eq_ok_iff.1 hq
  rw [paidQuantity_eq h]
  exact Context.quantityOf_le hcreate hitem

/-! ### What is taken off -/

/-- A tab after which quantities are **taken** off a tab: they are taken off the items, of each no
more than remains, and all else stays as it is. -/
structure Takes (paid : String → ℕ) (tab after : Tab) : Prop where
  eq : after = { tab with items := tab.items.map fun item => item.takeOff (paid item.id) }
  le : ∀ item ∈ tab.items, paid item.id ≤ item.remaining

namespace Takes

theorem refl (tab : Tab) : Takes (fun _ => 0) tab tab where
  eq := by
    have hsame : (fun item : Item => item.takeOff 0) = id := rfl
    rw [hsame, List.map_id]
  le := fun _ _ => Nat.zero_le _

/-- What is taken off in turn is taken off in sum. -/
theorem trans (h : Takes paid tab after) (h' : Takes paid' after last) :
    Takes (fun id => paid id + paid' id) tab last where
  eq := by
    rw [h'.eq, h.eq, List.map_map]
    congr 2
    funext item
    simp [Item.takeOff, Nat.sub_sub]
  le := by
    intro item hitem
    have hmem : item.takeOff (paid item.id) ∈ after.items := by
      rw [h.eq]
      exact List.mem_map_of_mem hitem
    have hle := h.le item hitem
    have hle' : paid' item.id ≤ item.remaining - paid item.id := h'.le _ hmem
    omega

/-- Items keep their ids and their prices, and lose what is taken off. -/
theorem forall₂ (h : Takes paid tab after) :
    List.Forall₂ (fun before after : Item => after.id = before.id ∧
      after.unitPrice = before.unitPrice ∧ before.remaining = after.remaining + paid before.id)
      tab.items after.items := by
  rw [h.eq, List.forall₂_map_right_iff, List.forall₂_same]
  exact fun item hitem => ⟨rfl, rfl, (Nat.sub_add_cancel (h.le item hitem)).symm⟩

/-- What is outstanding before is what is outstanding after and the price of what is taken off. -/
theorem outstanding_add (h : Takes paid tab after) :
    outstanding after.items + (tab.items.map fun item => item.unitPrice.cents * paid item.id).sum =
      outstanding tab.items := by
  rw [h.eq, outstanding, outstanding, List.map_map, ← List.sum_map_add]
  congr 1
  refine List.map_congr_left fun item hitem => ?_
  change item.unitPrice.cents * (item.remaining - paid item.id) + _ = _
  rw [← Nat.mul_add, Nat.sub_add_cancel (h.le item hitem)]

/-- What quantities of items cost is the same before and after. -/
theorem sum_prices_eq (h : Takes paid tab after) (f : String → ℕ) :
    (after.items.map fun item => item.unitPrice.cents * f item.id).sum =
      (tab.items.map fun item => item.unitPrice.cents * f item.id).sum := by
  rw [h.eq, List.map_map]
  rfl

end Takes

/-! ### Rounds -/

/-- The result of a round is the quote for the request. -/
theorem fst_round (tab : Tab) (request : Request) :
    (tab.round request).1 = request >>= tab.quote := by
  rw [round]
  cases request >>= tab.quote <;> rfl

/-- A round whose selections are quoted for ends with the quote, and settles it. -/
theorem round_of_quote (h : tab.quote selections = .ok q) :
    tab.round (.ok selections) = (.ok q, tab.settle q) := by
  have hbind : ((.ok selections : Request) >>= tab.quote) = .ok q := h
  rw [round, hbind]

/-- A round ends with a quote that is settled, or it leaves the tab as it is. -/
theorem round_cases (tab : Tab) (request : Request) :
    (∃ selections q, request = .ok selections ∧ tab.quote selections = .ok q ∧
        tab.round request = (.ok q, tab.settle q)) ∨
      ∃ f, tab.round request = (.error f, tab) := by
  rw [round]
  cases hrequest : request >>= tab.quote with
  | error f => exact .inr ⟨f, rfl⟩
  | ok q =>
    obtain ⟨selections, hselections, hq⟩ := bind_eq_ok_iff.1 hrequest
    exact .inl ⟨selections, q, hselections, hq, rfl⟩

/-- The quotes of a run. -/
def quotes (results : List (Except Fault Quote)) : List Quote :=
  results.filterMap Except.toOption

/-- The quantity of an item that the rounds of a run pay. -/
def paidOver (results : List (Except Fault Quote)) (id : String) : ℕ :=
  ((quotes results).map fun q => paidQuantity q id).sum

/-- What the rounds of a run charge, in cents. -/
def charged (results : List (Except Fault Quote)) : ℕ :=
  ((quotes results).map fun q => q.amount.cents).sum

theorem paidOver_append (l m : List (Except Fault Quote)) (id : String) :
    paidOver (l ++ m) id = paidOver l id + paidOver m id := by
  rw [paidOver, quotes, List.filterMap_append, List.map_append, List.sum_append]
  rfl

theorem charged_append (l m : List (Except Fault Quote)) :
    charged (l ++ m) = charged l + charged m := by
  rw [charged, quotes, List.filterMap_append, List.map_append, List.sum_append]
  rfl

theorem run_cons (tab : Tab) (request : Request) (requests : List Request) :
    tab.run (request :: requests) =
      ([(tab.round request).1] ++ ((tab.round request).2.run requests).1,
        ((tab.round request).2.run requests).2) := rfl

/-- **A round** takes what it pays off the tab. -/
theorem takes_round (tab : Tab) (request : Request) :
    Takes (paidOver [(tab.round request).1]) tab (tab.round request).2 := by
  rcases round_cases tab request with ⟨selections, q, -, hq, hround⟩ | ⟨f, hround⟩
  · rw [hround]
    exact ⟨rfl, fun item hitem => paidQuantity_le hq hitem⟩
  · rw [hround]
    exact .refl tab

/-- **A run** takes what its rounds pay off the tab. -/
theorem takes_run (tab : Tab) (requests : List Request) :
    Takes (paidOver (tab.run requests).1) tab (tab.run requests).2 := by
  induction requests generalizing tab with
  | nil => exact .refl tab
  | cons request requests ih =>
    have hboth := (takes_round tab request).trans (ih (tab.round request).2)
    have hpaid : paidOver (tab.run (request :: requests)).1 = fun id =>
        paidOver [(tab.round request).1] id +
          paidOver ((tab.round request).2.run requests).1 id := by
      funext id
      rw [run_cons, paidOver_append]
    rw [hpaid, run_cons]
    exact hboth

/-- A run goes on from where a run has led. -/
theorem run_append (tab : Tab) (requests more : List Request) :
    tab.run (requests ++ more) =
      ((tab.run requests).1 ++ ((tab.run requests).2.run more).1,
        ((tab.run requests).2.run more).2) := by
  induction requests generalizing tab with
  | nil => rfl
  | cons request requests ih =>
    rw [List.cons_append, run_cons, ih, run_cons]
    rfl

theorem length_run (tab : Tab) (requests : List Request) :
    (tab.run requests).1.length = requests.length := by
  induction requests generalizing tab with
  | nil => rfl
  | cons request requests ih =>
    rw [run_cons, List.length_append, ih, List.length_cons, Nat.add_comm]
    rfl

/-- The result of a request is that of a round of the tab to which the requests before it led. -/
theorem getElem?_run (tab : Tab) (before : List Request) (request : Request)
    (later : List Request) :
    (tab.run (before ++ request :: later)).1[before.length]? =
      some ((tab.run before).2.round request).1 := by
  rw [run_append, ← length_run tab before, List.getElem?_append_right le_rfl, Nat.sub_self,
    run_cons]
  rfl

/-! ### Charges -/

/-- A round charges for a selection and takes it off, or it does neither. -/
private theorem charged_round_cases (tab : Tab) (request : Request) :
    (∃ currency selections q,
        Quote.calculate currency tab.items selections tab.itemWriteOffs tab.writeOffs = .ok q ∧
        charged [(tab.round request).1] = q.amount.cents ∧
        (tab.items.map fun item =>
          item.unitPrice.cents * paidOver [(tab.round request).1] item.id).sum =
            priceOf tab.items selections) ∨
      charged [(tab.round request).1] = 0 ∧
        (tab.items.map fun item =>
          item.unitPrice.cents * paidOver [(tab.round request).1] item.id).sum = 0 := by
  rcases round_cases tab request with ⟨selections, q, -, hq, hround⟩ | ⟨f, hround⟩
  · obtain ⟨currency, -, hcalculate⟩ := quote_eq_ok_iff.1 hq
    refine .inl ⟨currency, selections, q, hcalculate, by rw [hround]; rfl, ?_⟩
    rw [hround, priceOf]
    congr 1
    exact List.map_congr_left fun item _ => congrArg _ (paidQuantity_eq hq item.id)
  · refine .inr ⟨by rw [hround]; rfl, List.sum_eq_zero_iff.2 fun n hn => ?_⟩
    obtain ⟨item, -, rfl⟩ := List.mem_map.1 hn
    rw [hround]
    rfl

/-- **Rounds add up.** If what a round charges and the price of what it takes off are in a relation
that is kept by sums, so are those of a run; a property of tabs that rounds keep may be used. -/
private theorem charged_run_of_rounds {R : ℕ → ℕ → Prop} {P : Tab → Prop} (hzero : R 0 0)
    (hadd : ∀ a b c d, R a b → R c d → R (a + c) (b + d))
    (hkeeps : ∀ tab request, P tab → P (tab.round request).2)
    (hround : ∀ tab request, P tab → R (charged [(tab.round request).1])
      (tab.items.map fun item =>
        item.unitPrice.cents * paidOver [(tab.round request).1] item.id).sum)
    (tab : Tab) (hP : P tab) (requests : List Request) :
    R (charged (tab.run requests).1) (tab.items.map fun item =>
      item.unitPrice.cents * paidOver (tab.run requests).1 item.id).sum := by
  induction requests generalizing tab with
  | nil =>
    have hnothing : (tab.items.map fun item : Item =>
        item.unitPrice.cents * paidOver (tab.run []).1 item.id).sum = 0 := by
      refine List.sum_eq_zero_iff.2 fun n hn => ?_
      obtain ⟨item, -, rfl⟩ := List.mem_map.1 hn
      rfl
    rw [hnothing]
    exact hzero
  | cons request requests ih =>
    -- the price of what the run takes off is that of the first round and that of the others
    have hrest := ih (tab.round request).2 (hkeeps tab request hP)
    rw [(takes_round tab request).sum_prices_eq] at hrest
    have hsum := hadd _ _ _ _ (hround tab request hP) hrest
    rw [← List.sum_map_add] at hsum
    simpa only [run_cons, paidOver_append, charged_append, Nat.mul_add] using hsum

/-- **At most the price.** A run charges at most the price of what it takes off. -/
theorem charged_run_le (tab : Tab) (requests : List Request) :
    charged (tab.run requests).1 ≤ (tab.items.map fun item =>
      item.unitPrice.cents * paidOver (tab.run requests).1 item.id).sum := by
  refine charged_run_of_rounds (P := fun _ => True) le_rfl (fun _ _ _ _ => Nat.add_le_add)
    (fun _ _ _ => trivial) (fun tab request _ => ?_) tab trivial requests
  rcases charged_round_cases tab request with ⟨currency, selections, q, hq, hcharged, hprice⟩ |
    ⟨hcharged, hprice⟩
  · rw [hcharged, hprice]
    exact Quote.amount_le_priceOf hq
  · rw [hcharged, hprice]

/-! ### Without write-offs -/

/-- A **plain** tab has no write-offs. -/
structure Plain (tab : Tab) : Prop where
  itemWriteOffs : tab.itemWriteOffs = []
  writeOffs : tab.writeOffs = []

theorem Plain.of_takes (hplain : tab.Plain) (h : Takes paid tab after) : after.Plain := by
  rw [h.eq]
  exact ⟨hplain.itemWriteOffs, hplain.writeOffs⟩

/-- **Exactly the price.** A run of a plain tab charges the price of what it takes off. -/
theorem charged_run_eq (hplain : tab.Plain) (requests : List Request) :
    charged (tab.run requests).1 = (tab.items.map fun item =>
      item.unitPrice.cents * paidOver (tab.run requests).1 item.id).sum := by
  refine charged_run_of_rounds (R := Eq) (P := Plain) rfl (fun _ _ _ _ => congrArg₂ (· + ·))
    (fun tab request h => h.of_takes (takes_round tab request)) (fun tab request h => ?_) tab hplain
    requests
  rcases charged_round_cases tab request with ⟨currency, selections, q, hq, hcharged, hprice⟩ |
    ⟨hcharged, hprice⟩
  · rw [h.itemWriteOffs, h.writeOffs] at hq
    rw [hcharged, hprice]
    exact Quote.amount_eq_priceOf hq
  · rw [hcharged, hprice]

/-- There is a quote of a plain tab for the selections for which a context is created, as long as
what is outstanding is in range. -/
theorem Plain.exists_quote_iff (hplain : tab.Plain) :
    (∃ q, tab.quote selections = .ok q) ↔
      (∃ ctx, Context.ofValues (.text tab.code) tab.items selections = .ok ctx) ∧
        outstanding tab.items < Money.bound := by
  have hcreate : (∃ ctx, Context.ofValues (.text tab.code) tab.items selections = .ok ctx) ↔
      ∃ currency, Currency.ofCode tab.code = .ok currency ∧
        ∃ ctx, Context.create currency tab.items selections = .ok ctx := by
    constructor
    · rintro ⟨ctx, h⟩
      obtain ⟨currency, hcurrency, h⟩ := bind_eq_ok_iff.1 h
      exact ⟨currency, hcurrency, ctx, h⟩
    · rintro ⟨currency, hcurrency, ctx, h⟩
      exact ⟨ctx, bind_eq_ok_iff.2 ⟨currency, hcurrency, h⟩⟩
  simp only [hcreate, quote_eq_ok_iff, hplain.itemWriteOffs, hplain.writeOffs]
  rw [exists_comm]
  simp only [exists_and_left, Quote.exists_calculate_iff]
  tauto

end Settlement.Tab
