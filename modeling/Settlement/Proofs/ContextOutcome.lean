import Settlement.Proofs.Amounts
import Settlement.Proofs.Selection
import Settlement.Proofs.WrittenNumbers

/-!
# What a context is made of, and what it is refused for

A context lists the items of the tab as they come, and the selected ids in the order of their first
mention, each with the sum of its mentions. If there is none, the inputs break one of its rules. The
fault is that of the first one: the currency comes before the selection as a whole, this before the
items, and the items before the selected ids (`FirstFault`). Items are looked at in the order of the
tab, ids in the order of first mention (`Refused`).

The first fault is reported as it is, unless its message shows a number of more digits than may be
written (`ShowsLong`).
-/

namespace Settlement.Context

variable {c : Currency} {items : List Item} {selections : List Selection} {table : Table Item}
  {item : Item} {id : String} {f : Fault}

/-! ### Rules -/

/-- Items that are **consistent**: they are priced in the currency, and have different ids. -/
structure Consistent (c : Currency) (items : List Item) : Prop where
  priced : ∀ item ∈ items, item.unitPrice.currency = c
  distinct : (items.map Item.id).Nodup

/-- All mentions of an id together ask for what **remains** of an item. -/
def Remains (items : List Item) (selections : List Selection) (id : String) : Prop :=
  ∃ item ∈ items, item.id = id ∧ quantityOf selections id ≤ item.remaining

/-- What an item is refused for after the items before it: its currency, or else an id that is
taken. -/
inductive ItemFault (c : Currency) (before : List Item) (item : Item) : Fault → Prop
  | currency : item.unitPrice.currency ≠ c →
      ItemFault c before item (.itemCurrency item.id c.code item.unitPrice.currency.code)
  | duplicate : item.unitPrice.currency = c → item.id ∈ before.map Item.id →
      ItemFault c before item (.duplicateItem item.id)

/-- What a selected id is refused for: that there is no such item, or that less of it remains. -/
inductive SelectionFault (items : List Item) (selections : List Selection) (id : String) :
    Fault → Prop
  | unknown : id ∉ items.map Item.id → SelectionFault items selections id (.unknownItem id)
  | exceeding (item : Item) : item ∈ items → item.id = id →
      item.remaining < quantityOf selections id →
      SelectionFault items selections id
        (.selectionAboveRemaining id (quantityOf selections id) item.remaining)

/-- The selected ids, in the order of their first mention. -/
def selectedIds (selections : List Selection) : List String :=
  (selections.map Selection.id).eraseDups

/-- The **first fault** of a tab and a selection: nothing is selected; or else an item is refused
after consistent ones; or else all items are consistent, and a selected id is refused after ids that
remain. -/
inductive Refused (c : Currency) (items : List Item) (selections : List Selection) : Fault → Prop
  | empty : selections = [] → Refused c items selections .emptySelections
  | item (before after : List Item) (item : Item) (f : Fault) : selections ≠ [] →
      items = before ++ item :: after → Consistent c before → ItemFault c before item f →
      Refused c items selections f
  | selection (before after : List String) (id : String) (f : Fault) : selections ≠ [] →
      Consistent c items → selectedIds selections = before ++ id :: after →
      (∀ id' ∈ before, Remains items selections id') → SelectionFault items selections id f →
      Refused c items selections f

/-! ### Items -/

/-- The table with one item more. -/
def addItem (c : Currency) (table : Table Item) (item : Item) : Except Fault (Table Item) :=
  if item.unitPrice.currency ≠ c then
    .error (.itemCurrency item.id c.code item.unitPrice.currency.code)
  else if (table.find? item.id).isSome then .error (.duplicateItem item.id)
  else .ok (table.insert item.id item)

private theorem indexItems_eq_foldlM (c : Currency) (table : Table Item) (items : List Item) :
    indexItems c table items = items.foldlM (addItem c) table := by
  induction items generalizing table with
  | nil => rfl
  | cons item items ih =>
    rw [indexItems, List.foldlM_cons, addItem]
    split_ifs
    · rfl
    · rfl
    · exact ih _

private theorem addItem_eq_error_iff {before : List Item}
    (hkeys : table.keys = before.map Item.id) :
    addItem c table item = .error f ↔ ItemFault c before item f := by
  rw [addItem]
  split_ifs with hcur hdup
  · constructor
    · intro h
      cases h
      exact .currency hcur
    · rintro (- | ⟨hsame, -⟩)
      · rfl
      · exact absurd hsame hcur
  · rw [Table.find?_isSome_iff, hkeys] at hdup
    constructor
    · intro h
      cases h
      exact .duplicate (not_not.1 hcur) hdup
    · rintro (hother | -)
      · exact absurd hother hcur
      · rfl
  · rw [Table.find?_isSome_iff, hkeys] at hdup
    refine iff_of_false nofun ?_
    rintro (hother | ⟨-, htaken⟩)
    · exact hcur hother
    · exact hdup htaken

/-- Consistent items are listed under their ids, in the order of the tab. -/
private theorem indexItems_empty_eq_ok_iff :
    indexItems c .empty items = .ok table ↔
      Consistent c items ∧ table.entries = items.map fun item => (item.id, item) := by
  rw [indexItems_eq_ok_iff]
  exact ⟨fun ⟨hpriced, hdistinct, hentries⟩ => ⟨⟨hpriced, hdistinct⟩, hentries⟩,
    fun ⟨⟨hpriced, hdistinct⟩, hentries⟩ => ⟨hpriced, hdistinct, hentries⟩⟩

private theorem keys_of_entries (h : table.entries = items.map fun item => (item.id, item)) :
    table.keys = items.map Item.id := by
  rw [Table.keys, h, List.map_map]
  rfl

/-- **Items.** The items of a tab are refused for the first of them that does not go with those
before it. -/
private theorem indexItems_eq_error_iff :
    indexItems c .empty items = .error f ↔ ∃ before item after, items = before ++ item :: after ∧
      Consistent c before ∧ ItemFault c before item f := by
  rw [indexItems_eq_foldlM, foldlM_eq_error_iff]
  simp only [← indexItems_eq_foldlM, indexItems_empty_eq_ok_iff]
  constructor
  · rintro ⟨before, item, after, table, rfl, ⟨hbefore, hentries⟩, hstep⟩
    exact ⟨before, item, after, rfl, hbefore,
      (addItem_eq_error_iff (keys_of_entries hentries)).1 hstep⟩
  · rintro ⟨before, item, after, rfl, hbefore, hfault⟩
    obtain ⟨table, hentries⟩ := exists_table hbefore.distinct
    exact ⟨before, item, after, table, rfl, ⟨hbefore, hentries⟩,
      (addItem_eq_error_iff (keys_of_entries hentries)).2 hfault⟩

/-! ### Selected ids -/

/-- Refuses one selected quantity. -/
def checkEntry (table : Table Item) (e : String × ℕ) : Except Fault Unit :=
  match table.find? e.1 with
  | none => .error (.unknownItem e.1)
  | some item =>
    if item.remaining < e.2 then .error (.selectionAboveRemaining e.1 e.2 item.remaining)
    else .ok ()

private theorem checkSelected_eq_foldlM (table : Table Item) (selections : List Selection)
    (ids : List String) :
    checkSelected table (ids.map fun id => (id, quantityOf selections id)) =
      ids.foldlM (fun _ id => checkEntry table (id, quantityOf selections id)) () := by
  induction ids with
  | nil => rfl
  | cons id ids ih =>
    rw [List.map_cons, checkSelected, List.foldlM_cons, checkEntry]
    cases table.find? id with
    | none => rfl
    | some item =>
      dsimp only
      split_ifs
      · rfl
      · exact ih

/-- A known item is refused only if less of it remains. -/
private theorem selectionFault_iff (h : table.entries = items.map fun item => (item.id, item))
    (hfind : table.find? id = some item) :
    SelectionFault items selections id f ↔ item.remaining < quantityOf selections id ∧
      f = .selectionAboveRemaining id (quantityOf selections id) item.remaining := by
  obtain ⟨hitem, hid⟩ := (find?_eq_some_iff_of_entries h).1 hfind
  constructor
  · rintro (hunknown | ⟨item', hitem', hid', hless⟩)
    · exact absurd (hid ▸ List.mem_map_of_mem hitem) hunknown
    · cases hfind.symm.trans ((find?_eq_some_iff_of_entries h).2 ⟨hitem', hid'⟩)
      exact ⟨hless, rfl⟩
  · rintro ⟨hless, rfl⟩
    exact .exceeding item hitem hid hless

private theorem checkEntry_eq_error_iff
    (h : table.entries = items.map fun item => (item.id, item)) :
    checkEntry table (id, quantityOf selections id) = .error f ↔
      SelectionFault items selections id f := by
  rw [checkEntry]
  cases hfind : table.find? id with
  | none =>
    have hunknown : id ∉ items.map Item.id := by
      rw [← keys_of_entries h]
      exact Table.find?_eq_none_iff.1 hfind
    constructor
    · intro hf
      cases hf
      exact .unknown hunknown
    · rintro (- | ⟨item, hitem, rfl, -⟩)
      · rfl
      · exact absurd (List.mem_map_of_mem hitem) hunknown
  | some item =>
    rw [selectionFault_iff h hfind]
    dsimp only
    split_ifs with hless
    · simp [hless, eq_comm]
    · simp [hless]

/-- **Selected ids.** Each selected id is listed once, in the order of first mention, with the sum of
its mentions. -/
theorem entries_consolidate (selections : List Selection) :
    (consolidate selections).entries =
      (selectedIds selections).map fun id => (id, quantityOf selections id) := by
  rw [selectedIds, ← keys_consolidate]
  refine Table.entries_eq_map_keys fun id n hn => ?_
  rw [find?_consolidate] at hn
  split_ifs at hn
  exact (Option.some.inj hn).symm

private theorem checkSelected_map_eq_ok_iff {ids : List String} {u : Unit}
    (h : table.entries = items.map fun item => (item.id, item)) :
    checkSelected table (ids.map fun id => (id, quantityOf selections id)) = .ok u ↔
      ∀ id ∈ ids, Remains items selections id := by
  rw [checkSelected_eq_ok_iff, List.forall_mem_map]
  simp only [find?_eq_some_iff_of_entries h, Remains, and_assoc]

/-- The selected ids are refused for the first of them that is not known, or of which less remains. -/
private theorem checkSelected_eq_error_iff
    (h : table.entries = items.map fun item => (item.id, item)) :
    checkSelected table (consolidate selections).entries = .error f ↔
      ∃ before id after, selectedIds selections = before ++ id :: after ∧
        (∀ id' ∈ before, Remains items selections id') ∧ SelectionFault items selections id f := by
  rw [entries_consolidate, checkSelected_eq_foldlM, foldlM_eq_error_iff]
  simp only [← checkSelected_eq_foldlM, checkSelected_map_eq_ok_iff h, checkEntry_eq_error_iff h,
    exists_const]

/-! ### Contexts -/

/-- **Refusals.** No context is created of a tab and a selection with a first fault. -/
theorem create_eq_error_iff :
    create c items selections = .error f ↔ Refused c items selections f := by
  rcases eq_or_ne selections [] with hempty | hne
  · rw [create, if_pos (by simp [hempty])]
    constructor
    · intro h
      cases h
      exact .empty hempty
    · rintro (- | ⟨_, _, _, _, hne, -⟩ | ⟨_, _, _, _, hne, -⟩)
      · rfl
      · exact absurd hempty hne
      · exact absurd hempty hne
  · rw [create, if_neg (by simpa using hne), bind_eq_error_iff, indexItems_eq_error_iff]
    simp only [bind_eq_error_iff, indexItems_empty_eq_ok_iff]
    constructor
    · rintro (⟨before, item, after, hitems, hbefore, hfault⟩ |
        ⟨table, ⟨hitems, hentries⟩, hchecked | ⟨u, -, h⟩⟩)
      · exact .item before after item f hne hitems hbefore hfault
      · obtain ⟨before, id, after, hids, hbefore, hfault⟩ :=
          (checkSelected_eq_error_iff hentries).1 hchecked
        exact .selection before after id f hne hitems hids hbefore hfault
      · cases h
    · rintro (hempty | ⟨before, after, item, f, -, hitems, hbefore, hfault⟩ |
        ⟨before, after, id, f, -, hitems, hids, hbefore, hfault⟩)
      · exact absurd hempty hne
      · exact .inl ⟨before, item, after, hitems, hbefore, hfault⟩
      · obtain ⟨table, hentries⟩ := exists_table hitems.distinct
        refine .inr ⟨table, ⟨hitems, hentries⟩, .inl ?_⟩
        exact (checkSelected_eq_error_iff hentries).2 ⟨before, id, after, hids, hbefore, hfault⟩

/-- The remaining quantities are listed like the items. -/
theorem entries_remaining {ctx : Context}
    (h : ctx.items.entries = items.map fun item => (item.id, item)) :
    ctx.remaining.entries = items.map fun item => (item.id, item.remaining) := by
  change ctx.items.entries.map (fun e => (e.1, e.2.remaining)) = _
  rw [h, List.map_map]
  rfl

/-! ### What is reported -/

/-- The **first fault** of a currency, a tab and a selection: the value is no currency; or else it
is one, and the tab and the selection have a first fault. -/
inductive FirstFault (currency : Value) (items : List Item) (selections : List Selection) :
    Fault → Prop
  | currency : (∀ c : Currency, currency ≠ .text c.code) →
      FirstFault currency items selections (.currencyCode currency)
  | refused (c : Currency) (f : Fault) : currency = .text c.code → Refused c items selections f →
      FirstFault currency items selections f

/-- A fault **shows a long number** if there is one in the value that is no currency, or if the
mentions of the id that exceeds what remains add up to one. -/
inductive ShowsLong : Fault → Prop
  | currency (v : Value) : ¬ v.Writable → ShowsLong (.currencyCode v)
  | quantity (id : String) (selected remaining : ℕ) : ¬ IsShort selected →
      ShowsLong (.selectionAboveRemaining id selected remaining)

theorem ofValues_eq_error_iff {currency : Value} :
    ofValues currency items selections = .error f ↔ FirstFault currency items selections f := by
  rw [ofValues, bind_eq_error_iff, Currency.ofValue_eq_error_iff]
  simp only [Currency.ofValue_eq_ok_iff, create_eq_error_iff]
  constructor
  · rintro (⟨hinvalid, rfl⟩ | ⟨c, hc, hrefused⟩)
    · exact .currency hinvalid
    · exact .refused c f hc hrefused
  · rintro (hinvalid | ⟨c, _, hc, hrefused⟩)
    · exact .inl ⟨hinvalid, rfl⟩
    · exact .inr ⟨c, hc, hrefused⟩

/-- Less remains than is selected, so that a selected quantity that can be written is all that a
message needs. -/
private theorem SelectionFault.showsLong_iff (h : SelectionFault items selections id f) :
    ShowsLong f ↔ ¬ ∀ n ∈ f.wholes, IsShort n := by
  rcases h with - | ⟨item, -, -, hless⟩
  · exact iff_of_false nofun (not_not.2 (List.forall_mem_nil _))
  · constructor
    · rintro (- | ⟨_, _, _, hlong⟩) hall
      exact hlong (hall _ List.mem_cons_self)
    · intro hall
      refine .quantity _ _ _ fun hshort => hall ?_
      have hremaining : IsShort item.remaining := by
        rw [IsShort, Int.natAbs_natCast] at hshort ⊢
        exact hless.trans hshort
      exact List.forall_mem_cons.2 ⟨hshort, List.forall_mem_singleton.2 hremaining⟩

/-- No other refusal shows a number. -/
private theorem Refused.showsLong_iff (h : Refused c items selections f) :
    ShowsLong f ↔ ¬ ∀ n ∈ f.wholes, IsShort n := by
  rcases h with - | ⟨_, _, _, _, -, -, -, - | -⟩ | ⟨_, _, _, _, -, -, -, -, hfault⟩
  on_goal 4 => exact hfault.showsLong_iff
  all_goals exact iff_of_false nofun (not_not.2 (List.forall_mem_nil _))

namespace FirstFault

variable {currency : Value}

private theorem showsLong_iff (h : FirstFault currency items selections f) :
    ShowsLong f ↔ ¬ ∀ n ∈ f.wholes, IsShort n := by
  rcases h with - | ⟨_, _, -, hrefused⟩
  · change _ ↔ ¬ ∀ n ∈ currency.wholes, IsShort n
    rw [← Value.writable_iff]
    exact ⟨fun | .currency _ hlong => hlong, .currency currency⟩
  · exact hrefused.showsLong_iff

/-- A first fault is reported as it is, or for the length of the number that it shows. -/
private theorem reported_eq_iff {reported : Fault} (h : FirstFault currency items selections f) :
    f.reported = reported ↔
      ¬ ShowsLong f ∧ reported = f ∨ ShowsLong f ∧ reported = .longWhole := by
  by_cases hlong : ShowsLong f
  · simp [hlong, Fault.reported_of_long (h.showsLong_iff.1 hlong), eq_comm]
  · simp [hlong, Fault.reported_of_short (not_not.1 (mt h.showsLong_iff.2 hlong)), eq_comm]

/-- First faults concern the rules of the domain. -/
private theorem isDomain (h : FirstFault currency items selections f) :
    f.category.isDomain = true := by
  rcases h with - | ⟨_, _, -, - | ⟨_, _, _, _, -, -, -, hfault⟩ | ⟨_, _, _, _, -, -, -, -, hfault⟩⟩
  · rfl
  · rfl
  · cases hfault <;> rfl
  · cases hfault <;> rfl

end FirstFault

/-- **Contexts and refusals.** A context is made of accepted inputs in a valid currency, and of no
others. It lists all items in the order of the tab, their remaining quantities likewise, and each
selected id in the order of first mention with the sum of its mentions.

Otherwise the first fault is reported, which concerns the rules of the domain: that the value is no
currency, or else the first fault of the tab and the selection. The exceptions are first faults that
show a number of more digits than may be written: only its length is reported then, and this is no
fault of the domain. -/
theorem ofValues_outcome (currency : Value) (items : List Item) (selections : List Selection) :
    let outcome := (ofValues currency items selections).mapError Fault.reported
    ((∃ ctx, outcome = .ok ctx) ↔
      ∃ c : Currency, currency = .text c.code ∧ Accepted c items selections) ∧
    (∀ ctx, outcome = .ok ctx →
      currency = .text ctx.currency.code ∧
      ctx.items.entries = (items.map fun item => (item.id, item)) ∧
      ctx.remaining.entries = (items.map fun item => (item.id, item.remaining)) ∧
      ctx.selected.entries =
        (selectedIds selections).map fun id => (id, quantityOf selections id)) ∧
    (∀ f, outcome = .error f ↔ ∃ cause, FirstFault currency items selections cause ∧
      (¬ ShowsLong cause ∧ f = cause ∨ ShowsLong cause ∧ f = .longWhole)) ∧
    ∀ f, outcome = .error f → (f.category.isDomain = true ↔ f ≠ .longWhole) := by
  intro outcome
  have herror : ∀ f, outcome = .error f ↔ ∃ cause, FirstFault currency items selections cause ∧
      (¬ ShowsLong cause ∧ f = cause ∨ ShowsLong cause ∧ f = .longWhole) := by
    intro f
    simp only [outcome, mapError_eq_error_iff, ofValues_eq_error_iff]
    exact exists_congr fun cause => and_congr_right FirstFault.reported_eq_iff
  refine ⟨?_, fun ctx h => ?_, herror, fun f h => ?_⟩
  · simp only [outcome, mapError_eq_ok_iff, ofValues, bind_eq_ok_iff, Currency.ofValue_eq_ok_iff]
    constructor
    · rintro ⟨ctx, c, hc, h⟩
      exact ⟨c, hc, exists_create_iff.1 ⟨ctx, h⟩⟩
    · rintro ⟨c, hc, hacc⟩
      obtain ⟨ctx, h⟩ := exists_create_iff.2 hacc
      exact ⟨ctx, c, hc, h⟩
  · obtain ⟨c, hc, h⟩ := bind_eq_ok_iff.1 (mapError_eq_ok_iff.1 h)
    obtain ⟨-, rfl, hitems, hselected⟩ := create_eq_ok_iff.1 h
    exact ⟨Currency.ofValue_eq_ok_iff.1 hc, hitems, entries_remaining hitems,
      hselected ▸ entries_consolidate selections⟩
  · obtain ⟨cause, hcause, ⟨-, rfl⟩ | ⟨-, rfl⟩⟩ := (herror f).1 h
    · have hdomain := hcause.isDomain
      refine iff_of_true hdomain ?_
      rintro rfl
      cases hdomain
    · exact iff_of_false Bool.false_ne_true (not_not.2 rfl)

/-- A tab on which tea stands twice is refused for that, before it is noticed that cake is selected,
which is not on it. -/
theorem ofValues_outcome_duplicate :
    let tea : Item := ⟨"tea", Money.euro 300 (by decide), 2, by decide, by decide⟩
    (ofValues (.text "EUR") [tea, tea] [⟨"cake", 1, by decide, by decide⟩]).mapError
      Fault.reported = .error (.duplicateItem "tea") := by
  intro tea
  have hbefore : Consistent tea.unitPrice.currency [tea] := ⟨by simp, by simp⟩
  have hrefused : Refused tea.unitPrice.currency [tea, tea] [⟨"cake", 1, by decide, by decide⟩]
      (.duplicateItem "tea") :=
    .item [tea] [] tea _ (by simp) rfl hbefore (.duplicate rfl (by simp))
  exact ((ofValues_outcome _ _ _).2.2.1 _).2 ⟨_, .refused _ _ rfl hrefused, .inl ⟨nofun, rfl⟩⟩

/-- Of one beer that remains, two mentions together ask for a number of beers with one digit more
than may be written. The first fault is that they exceed what remains, but only the length of the
number is reported, and this is no fault of the domain. -/
theorem ofValues_long_sum :
    let beer : Item := ⟨"beer", Money.euro 450 (by decide), 1, by decide, by decide⟩
    let most := pow10 Fault.longestWhole - 1
    ∃ selections : List Selection,
      selections.map (fun s => (s.id, s.quantity)) = [("beer", most), ("beer", 1)] ∧
      FirstFault (.text "EUR") [beer] selections (.selectionAboveRemaining "beer" (most + 1) 1) ∧
      (ofValues (.text "EUR") [beer] selections).mapError Fault.reported = .error .longWhole ∧
      Fault.longWhole.category.isDomain = false := by
  intro beer most
  have hpow : 1 < pow10 Fault.longestWhole :=
    lt_of_lt_of_le (by decide) (lt_pow10 Fault.longestWhole).le
  let selections : List Selection :=
    [⟨"beer", most, by decide, Nat.sub_pos_of_lt hpow⟩, ⟨"beer", 1, by decide, by decide⟩]
  have hsum : quantityOf selections "beer" = most + 1 := by
    simp [quantityOf, selections]
  have hless : beer.remaining < quantityOf selections "beer" := by
    rw [hsum]
    change 1 < most + 1
    omega
  have hfirst : FirstFault (.text "EUR") [beer] selections
      (.selectionAboveRemaining "beer" (most + 1) 1) := by
    refine .refused beer.unitPrice.currency _ rfl ?_
    refine .selection [] [] "beer" _ (by simp [selections]) ⟨by simp, by simp⟩ rfl (by simp) ?_
    rw [← hsum]
    exact .exceeding beer (by simp) rfl hless
  refine ⟨selections, rfl, hfirst, ?_, rfl⟩
  refine mapError_eq_error_iff.2 ⟨_, ofValues_eq_error_iff.2 hfirst, Fault.reported_of_long ?_⟩
  intro hshort
  have hmost : ((most + 1 : ℕ) : ℤ).natAbs < pow10 Fault.longestWhole := hshort _ List.mem_cons_self
  omega

end Settlement.Context
