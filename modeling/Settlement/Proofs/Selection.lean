import Mathlib.Data.List.Induction
import Settlement.Context
import Settlement.Proofs.KeyedSums
import Settlement.Proofs.Tables

/-!
# What a checked selection promises

A context holds the items of the tab by their ids, and the selected quantities by item: an item
stands where it was first mentioned (`keys_consolidate`), with the sum of all its mentions
(`find?_consolidate`).

A context is created of the selections that are `Accepted` (`create_eq_ok_iff`), and it is then
`Valid`: its selection is not empty, and asks for a positive quantity of each selected item that is
at most what remains of it.
-/

namespace Settlement.Context

variable {currency : Currency} {items : List Item} {selections : List Selection} {ctx : Context}
  {id : String}

/-! ### Selected quantities -/

private theorem consolidate_concat (l : List Selection) (s : Selection) :
    consolidate (l ++ [s]) =
      (consolidate l).insert s.id (((consolidate l).find? s.id).getD 0 + s.quantity) := by
  rw [consolidate, List.foldl_append]
  rfl

/-- **Order.** Selected items stand in the order of their first mention. -/
theorem keys_consolidate (l : List Selection) :
    (consolidate l).keys = (l.map Selection.id).eraseDups := by
  induction l using List.reverseRecOn with
  | nil => rfl
  | append_singleton l s ih =>
    rw [consolidate_concat, Table.keys_insert, ih, List.map_append, List.eraseDups_append,
      List.map_cons, List.map_nil, List.cons_removeAll]
    -- a further mention of an item leaves it where it stands
    by_cases h : s.id ∈ l.map Selection.id
    · rw [if_pos (List.mem_eraseDups.2 h)]
      simp [h]
    · rw [if_neg (mt List.mem_eraseDups.1 h)]
      simp [h, List.eraseDups_cons]

/-- The sum of all mentions of an item. -/
def quantityOf (selections : List Selection) (id : String) : ℕ :=
  ((selections.filter fun s => s.id = id).map Selection.quantity).sum

private theorem quantityOf_concat (l : List Selection) (s : Selection) (id : String) :
    quantityOf (l ++ [s]) id = quantityOf l id + if s.id = id then s.quantity else 0 :=
  sumAt_concat l s id

/-- **Sums.** Each selected item has the sum of its mentions. -/
theorem find?_consolidate (l : List Selection) (id : String) :
    (consolidate l).find? id =
      if id ∈ l.map Selection.id then some (quantityOf l id) else none := by
  induction l using List.reverseRecOn generalizing id with
  | nil => rfl
  | append_singleton l s ih =>
    have hprevious : ((consolidate l).find? s.id).getD 0 = quantityOf l s.id := by
      rw [ih]
      split_ifs with hmem
      · rfl
      · exact (sumAt_eq_zero hmem).symm
    rw [consolidate_concat, Table.find?_insert, hprevious, quantityOf_concat, List.map_append]
    by_cases h : id = s.id
    · subst h
      simp
    · have hne : ¬ s.id = id := fun heq => h heq.symm
      rw [if_neg h, if_neg hne, ih, Nat.add_zero]
      simp [h]

/-- An item is selected if it is selected in a positive quantity. -/
theorem mem_ids_iff {l : List Selection} : id ∈ l.map Selection.id ↔ 0 < quantityOf l id :=
  mem_map_iff_sumAt_pos Selection.quantity_pos

/-! ### Items of the tab -/

/-- **Items.** Items are listed under their ids, in the order of the tab, if all of them are priced
in the currency and no id comes twice. -/
theorem indexItems_eq_ok_iff {table t : Table Item} :
    indexItems currency table items = .ok t ↔
      (∀ item ∈ items, item.unitPrice.currency = currency) ∧
        (table.keys ++ items.map Item.id).Nodup ∧
        t.entries = table.entries ++ items.map fun item => (item.id, item) := by
  induction items generalizing table with
  | nil =>
    simp only [indexItems, Except.ok.injEq, List.map_nil, List.append_nil, List.not_mem_nil]
    exact ⟨fun h => ⟨by simp, table.nodup_keys, h ▸ rfl⟩,
      fun h => Table.ext_entries h.2.2.symm⟩
  | cons first items ih =>
    rw [indexItems]
    split_ifs with hcur hdup
    · simp [hcur]
    · -- the id of the first item is taken
      rw [Table.find?_isSome_iff] at hdup
      refine iff_of_false nofun fun h => ?_
      exact List.disjoint_of_nodup_append h.2.1 hdup List.mem_cons_self
    · rw [Table.find?_isSome_iff] at hdup
      rw [ih, Table.keys_insert, if_neg hdup, Table.entries_insert_of_not_mem _ hdup]
      simp [not_not.1 hcur]

/-- Items of different ids are the entries of a table. -/
theorem exists_table (h : (items.map Item.id).Nodup) :
    ∃ table : Table Item, table.entries = items.map fun item => (item.id, item) := by
  have hnodup : ((items.map fun item => (item.id, item)).map Prod.fst).Nodup := by
    rwa [List.map_map]
  exact ⟨⟨_, hnodup⟩, rfl⟩

/-! ### Contexts -/

/-- A **valid** context: the items are priced in its currency, and the selection asks for something,
by ids that are no blank text and in quantities that remain. -/
structure Valid (ctx : Context) : Prop where
  priced : ∀ id item, ctx.items.find? id = some item → item.unitPrice.currency = ctx.currency
  nonempty : ctx.selected.entries ≠ []
  notBlank : ∀ id ∈ ctx.selected.keys, Text.isBlankText id = false
  positive : ∀ id quantity, ctx.selected.find? id = some quantity → 0 < quantity
  remains : ∀ id quantity, ctx.selected.find? id = some quantity →
    ∃ item, ctx.items.find? id = some item ∧ quantity ≤ item.remaining

/-- The remaining quantity of an item. -/
theorem find?_remaining_eq_some_iff {n : ℕ} :
    ctx.remaining.find? id = some n ↔
      ∃ item, ctx.items.find? id = some item ∧ item.remaining = n := by
  rw [remaining, Table.find?_map, Option.map_eq_some_iff]

/-- A **small** tab: fewer than `10 ^ 18` units of each item remain. -/
def Small (ctx : Context) : Prop :=
  ∀ id item, ctx.items.find? id = some item → item.remaining < 10 ^ 18

theorem Small.selected_lt (hsmall : ctx.Small) (hctx : ctx.Valid) {n : ℕ}
    (h : ctx.selected.find? id = some n) : n < 10 ^ 18 := by
  obtain ⟨item, hitem, hle⟩ := hctx.remains id n h
  exact hle.trans_lt (hsmall id item hitem)

/-- Selected quantities are accepted if each of them remains of a known item. -/
theorem checkSelected_eq_ok_iff {table : Table Item} {l : List (String × ℕ)} {u : Unit} :
    checkSelected table l = .ok u ↔
      ∀ e ∈ l, ∃ item, table.find? e.1 = some item ∧ e.2 ≤ item.remaining := by
  induction l with
  | nil => simp [checkSelected]
  | cons e l ih =>
    obtain ⟨id, quantity⟩ := e
    rw [checkSelected, List.forall_mem_cons]
    cases hitem : table.find? id with
    | none => simp
    | some item =>
      simp only [Option.some.injEq, exists_eq_left']
      split_ifs with hless
      · simp [hless]
      · rw [ih]
        simp [not_lt.1 hless]

/-- A selection that is **accepted**: it asks for something, the items of the tab are priced in the
currency and have different ids, and of each selected item the sum of all mentions remains. -/
structure Accepted (currency : Currency) (items : List Item) (selections : List Selection) :
    Prop where
  nonempty : selections ≠ []
  priced : ∀ item ∈ items, item.unitPrice.currency = currency
  distinct : (items.map Item.id).Nodup
  remains : ∀ id ∈ selections.map Selection.id,
    ∃ item ∈ items, item.id = id ∧ quantityOf selections id ≤ item.remaining

/-- Items that are listed under their ids are found under them. -/
theorem find?_eq_some_iff_of_entries {table : Table Item} {item : Item}
    (h : table.entries = items.map fun item => (item.id, item)) :
    table.find? id = some item ↔ item ∈ items ∧ item.id = id := by
  rw [Table.find?_eq_some_iff, h, List.mem_map]
  constructor
  · rintro ⟨item, hmem, heq⟩
    cases heq
    exact ⟨hmem, rfl⟩
  · rintro ⟨hmem, rfl⟩
    exact ⟨item, hmem, rfl⟩

/-- The selected quantities are checked against the items of the tab, mention by mention summed. -/
private theorem checkSelected_consolidate_iff {table : Table Item} {u : Unit}
    (h : table.entries = items.map fun item => (item.id, item)) :
    checkSelected table (consolidate selections).entries = .ok u ↔
      ∀ id ∈ selections.map Selection.id,
        ∃ item ∈ items, item.id = id ∧ quantityOf selections id ≤ item.remaining := by
  have hentry : ∀ id n, (id, n) ∈ (consolidate selections).entries ↔
      id ∈ selections.map Selection.id ∧ n = quantityOf selections id := by
    intro id n
    rw [← Table.find?_eq_some_iff, find?_consolidate]
    split_ifs with hmem <;> simp [hmem, eq_comm]
  rw [checkSelected_eq_ok_iff, Prod.forall]
  simp only [hentry, find?_eq_some_iff_of_entries h, and_imp, forall_eq_apply_imp_iff, and_assoc]

/-- **Creation.** A context is created of an accepted selection; it lists all items in the order of
the tab, and the selected quantities in the order of first mention. -/
theorem create_eq_ok_iff :
    create currency items selections = .ok ctx ↔
      Accepted currency items selections ∧ ctx.currency = currency ∧
        ctx.items.entries = (items.map fun item => (item.id, item)) ∧
        ctx.selected = consolidate selections := by
  rw [create]
  constructor
  · intro h
    split_ifs at h with hempty
    obtain ⟨table, htable, h⟩ := bind_eq_ok_iff.1 h
    obtain ⟨u, hchecked, h⟩ := bind_eq_ok_iff.1 h
    cases h
    obtain ⟨hpriced, hdistinct, hentries⟩ := indexItems_eq_ok_iff.1 htable
    refine ⟨⟨?_, hpriced, hdistinct, (checkSelected_consolidate_iff hentries).1 hchecked⟩, rfl,
      hentries, rfl⟩
    rintro rfl
    exact hempty rfl
  · rintro ⟨hacc, hcur, hentries, hselected⟩
    obtain ⟨cur, table, selected⟩ := ctx
    cases hcur
    cases hselected
    rw [if_neg (by simp [hacc.nonempty])]
    have htable : indexItems cur .empty items = .ok table :=
      indexItems_eq_ok_iff.2 ⟨hacc.priced, hacc.distinct, hentries⟩
    have hchecked := (checkSelected_consolidate_iff (u := ()) hentries).2 hacc.remains
    exact bind_eq_ok_iff.2 ⟨table, htable, bind_eq_ok_iff.2 ⟨(), hchecked, rfl⟩⟩

/-- A context is created of accepted selections and of no others. -/
theorem exists_create_iff :
    (∃ ctx, create currency items selections = .ok ctx) ↔ Accepted currency items selections := by
  constructor
  · rintro ⟨ctx, h⟩
    exact (create_eq_ok_iff.1 h).1
  · intro hacc
    obtain ⟨table, hentries⟩ := exists_table hacc.distinct
    exact ⟨⟨currency, table, consolidate selections⟩,
      create_eq_ok_iff.2 ⟨hacc, rfl, hentries, rfl⟩⟩

/-- A context is made of all items and of all selections. -/
theorem of_create (h : create currency items selections = .ok ctx) :
    ctx.currency = currency ∧ ctx.selected = consolidate selections ∧
      (∀ id item, ctx.items.find? id = some item ↔ item ∈ items ∧ item.id = id) ∧
      (∀ item ∈ items, item.unitPrice.currency = currency) ∧ selections ≠ [] ∧
      ∀ id quantity, ctx.selected.find? id = some quantity →
        ∃ item, ctx.items.find? id = some item ∧ quantity ≤ item.remaining := by
  obtain ⟨hacc, hcur, hentries, hselected⟩ := create_eq_ok_iff.1 h
  refine ⟨hcur, hselected, fun id item => find?_eq_some_iff_of_entries hentries, hacc.priced,
    hacc.nonempty, fun id quantity hq => ?_⟩
  rw [hselected, find?_consolidate] at hq
  split_ifs at hq with hmem
  obtain ⟨item, hitem, hid, hle⟩ := hacc.remains id hmem
  exact ⟨item, (find?_eq_some_iff_of_entries hentries).2 ⟨hitem, hid⟩, Option.some.inj hq ▸ hle⟩

/-- A context that is created is valid. -/
theorem valid_of_create (h : create currency items selections = .ok ctx) : ctx.Valid := by
  obtain ⟨hcur, hselected, hitems, hpriced, hne, hremains⟩ := of_create h
  refine ⟨fun id item hitem => ?_, ?_, fun id hid => ?_, fun id quantity hq => ?_, hremains⟩
  · rw [hcur]
    exact hpriced item ((hitems id item).1 hitem).1
  · intro hnil
    obtain ⟨s, hs⟩ := List.exists_mem_of_ne_nil selections hne
    have hmem : s.id ∈ ctx.selected.keys := by
      rw [hselected, keys_consolidate, List.mem_eraseDups]
      exact List.mem_map_of_mem hs
    rw [Table.keys, hnil] at hmem
    cases hmem
  · rw [hselected, keys_consolidate, List.mem_eraseDups] at hid
    obtain ⟨s, -, rfl⟩ := List.mem_map.1 hid
    exact s.id_notBlank
  · rw [hselected, find?_consolidate] at hq
    split_ifs at hq with hmem
    exact Option.some.inj hq ▸ mem_ids_iff.1 hmem

theorem item_eq_ok_iff {item : Item} : ctx.item id = .ok item ↔ ctx.items.find? id = some item := by
  rw [Context.item]
  cases ctx.items.find? id <;> simp

end Settlement.Context
