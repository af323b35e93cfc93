import Mathlib.Data.List.Induction
import Settlement.Allocation.WrittenOff
import Settlement.Proofs.Amounts
import Settlement.Proofs.KeyedSums

/-!
# Collected write-offs

The write-offs of an item are collected before a scope takes of them. What is collected is, for each
item that is written off, the sum of its amounts and the sum of its quantities (`sums_of_collect`);
nothing else of the list of write-offs is kept. Write-offs in one currency are collected whenever
the sum for each item is in range (`exists_collect`).
-/

namespace Settlement

/-- The sum of the write-offs of a tab, in cents. -/
def WriteOff.total (l : List WriteOff) : ℕ := (l.map fun w => w.amount.cents).sum

@[simp] theorem WriteOff.total_nil : WriteOff.total [] = 0 := rfl

namespace WrittenOff

variable {c : Currency} {table t : Table WrittenOff} {w : WrittenOff} {l : List ItemWriteOff}
  {next : ItemWriteOff} {id : String}

/-! ### Collecting -/

/-- The sum for an item with one more write-off of it. -/
def sumWith (table : Table WrittenOff) (next : ItemWriteOff) : Except Fault WrittenOff :=
  match table.find? next.id with
  | none => .ok ⟨next.amount, next.quantity⟩
  | some previous => previous.merge next

private theorem collectIn_cons (c : Currency) (table : Table WrittenOff) (next : ItemWriteOff)
    (l : List ItemWriteOff) :
    collectIn c table (next :: l) = (do
      next.amount.requireCurrency c.code s!"item write-offs for item '{next.id}'"
      let sum ← sumWith table next
      collectIn c (table.insert next.id sum) l) := by
  rw [collectIn, sumWith]
  cases table.find? next.id <;> rfl

private theorem collectIn_append (l m : List ItemWriteOff) :
    collectIn c table (l ++ m) = (do collectIn c (← collectIn c table l) m) := by
  induction l generalizing table with
  | nil => rfl
  | cons next l ih =>
    rw [List.cons_append, collectIn_cons, collectIn_cons]
    simp only [ih, bind_assoc]

private theorem collect_concat (c : Currency) (l : List ItemWriteOff) (next : ItemWriteOff) :
    collect c (l ++ [next]) = (do
      let table ← collect c l
      next.amount.requireCurrency c.code s!"item write-offs for item '{next.id}'"
      let sum ← sumWith table next
      .ok (table.insert next.id sum)) := by
  rw [collect, collectIn_append]
  congr 1
  funext table
  exact collectIn_cons c table next []

/-! ### Sums -/

/-- The written-off amount of an item in a list of write-offs, in cents. -/
def amountOf (l : List ItemWriteOff) (id : String) : ℕ :=
  sumAt ItemWriteOff.id (fun w => w.amount.cents) l id

/-- The written-off quantity of an item in a list of write-offs. -/
def quantityOf (l : List ItemWriteOff) (id : String) : ℕ :=
  sumAt ItemWriteOff.id ItemWriteOff.quantity l id

private theorem amountOf_concat (l : List ItemWriteOff) (next : ItemWriteOff) (id : String) :
    amountOf (l ++ [next]) id = amountOf l id + if next.id = id then next.amount.cents else 0 :=
  sumAt_concat l next id

private theorem quantityOf_concat (l : List ItemWriteOff) (next : ItemWriteOff) (id : String) :
    quantityOf (l ++ [next]) id = quantityOf l id + if next.id = id then next.quantity else 0 :=
  sumAt_concat l next id

/-- A table of the **sums** of write-offs in a currency: it has the items that are written off, each
with its amount and its quantity. -/
structure Sums (c : Currency) (l : List ItemWriteOff) (table : Table WrittenOff) : Prop where
  mem_keys : ∀ id, id ∈ table.keys ↔ id ∈ l.map ItemWriteOff.id
  currency : ∀ id w, table.find? id = some w → w.amount.currency = c
  amount : ∀ id w, table.find? id = some w → w.amount.cents = amountOf l id
  quantity : ∀ id w, table.find? id = some w → w.quantity = quantityOf l id

/-- What is collected for an item is the sum with the next write-off of it. -/
private theorem Sums.of_sumWith (h : Sums c l table) (hcur : next.amount.currency = c)
    (hw : sumWith table next = .ok w) :
    w.amount.currency = c ∧ w.amount.cents = amountOf (l ++ [next]) next.id ∧
      w.quantity = quantityOf (l ++ [next]) next.id := by
  rw [amountOf_concat, quantityOf_concat, if_pos rfl, if_pos rfl]
  rw [sumWith] at hw
  split at hw
  · rename_i hnone
    cases hw
    have hnew := mt (h.mem_keys next.id).2 (Table.find?_eq_none_iff.1 hnone)
    simp [hcur, amountOf, quantityOf, sumAt_eq_zero hnew]
  · rename_i previous hprevious
    obtain ⟨amount, hplus, hw⟩ := bind_eq_ok_iff.1 hw
    obtain ⟨-, hcurrency, hcents⟩ := Money.plus_eq_ok_iff.1 hplus
    cases hw
    refine ⟨hcurrency.trans (h.currency _ _ hprevious), ?_, ?_⟩
    · rw [hcents, h.amount _ _ hprevious]
    · rw [h.quantity _ _ hprevious]

/-- One more write-off changes the sums of its item. -/
private theorem Sums.concat (h : Sums c l table) (hcur : next.amount.currency = c)
    (hw : sumWith table next = .ok w) : Sums c (l ++ [next]) (table.insert next.id w) := by
  obtain ⟨hwcur, hwamount, hwquantity⟩ := h.of_sumWith hcur hw
  have hfind : ∀ id v, (table.insert next.id w).find? id = some v →
      id = next.id ∧ v = w ∨ next.id ≠ id ∧ table.find? id = some v := by
    intro id v hv
    rw [Table.find?_insert] at hv
    split_ifs at hv with hid
    · exact .inl ⟨hid, (Option.some.inj hv).symm⟩
    · exact .inr ⟨Ne.symm hid, hv⟩
  refine ⟨fun id => ?_, fun id v hv => ?_, fun id v hv => ?_, fun id v hv => ?_⟩
  · rw [Table.keys_insert, List.map_append, List.mem_append, ← h.mem_keys]
    split_ifs with hmem
    · simp only [List.map_cons, List.map_nil, List.mem_singleton, iff_self_or]
      rintro rfl
      exact hmem
    · simp
  · rcases hfind id v hv with ⟨rfl, rfl⟩ | ⟨-, hold⟩
    · exact hwcur
    · exact h.currency id v hold
  · rcases hfind id v hv with ⟨rfl, rfl⟩ | ⟨hne, hold⟩
    · exact hwamount
    · rw [amountOf_concat, if_neg hne, h.amount id v hold, Nat.add_zero]
  · rcases hfind id v hv with ⟨rfl, rfl⟩ | ⟨hne, hold⟩
    · exact hwquantity
    · rw [quantityOf_concat, if_neg hne, h.quantity id v hold, Nat.add_zero]

/-- **Collected sums.** What is collected are the sums of the write-offs. -/
theorem sums_of_collect (h : collect c l = .ok t) : Sums c l t := by
  induction l using List.reverseRecOn generalizing t with
  | nil =>
    cases h
    exact ⟨fun id => by simp, nofun, nofun, nofun⟩
  | append_singleton l next ih =>
    rw [collect_concat] at h
    obtain ⟨table, htable, h⟩ := bind_eq_ok_iff.1 h
    obtain ⟨u, hcode, h⟩ := bind_eq_ok_iff.1 h
    obtain ⟨w, hw, h⟩ := bind_eq_ok_iff.1 h
    cases h
    have hcur := Money.currency_eq_of_code_eq (Money.requireCurrency_eq_ok_iff.1 hcode)
    exact (ih htable).concat hcur hw

/-- The sums of two lists of write-offs with the same amount and quantity for each item agree. -/
theorem Sums.find?_eq {l' : List ItemWriteOff} (h : Sums c l table) (h' : Sums c l' t)
    (hamount : ∀ id, amountOf l id = amountOf l' id)
    (hquantity : ∀ id, quantityOf l id = quantityOf l' id) (id : String) :
    table.find? id = t.find? id := by
  have hkeys : id ∈ table.keys ↔ id ∈ t.keys := by
    rw [h.mem_keys, h'.mem_keys, mem_map_iff_sumAt_pos ItemWriteOff.quantity_pos,
      mem_map_iff_sumAt_pos ItemWriteOff.quantity_pos]
    exact iff_of_eq (congrArg (0 < ·) (hquantity id))
  by_cases hid : id ∈ table.keys
  · obtain ⟨w, hw⟩ := Table.exists_find?_of_mem_keys hid
    obtain ⟨v, hv⟩ := Table.exists_find?_of_mem_keys (hkeys.1 hid)
    have hsame : w = v := by
      obtain ⟨wamount, wquantity⟩ := w
      obtain ⟨vamount, vquantity⟩ := v
      rw [mk.injEq]
      refine ⟨Money.ext_cents ((h.currency _ _ hw).trans (h'.currency _ _ hv).symm) ?_, ?_⟩
      · exact (h.amount _ _ hw).trans ((hamount id).trans (h'.amount _ _ hv).symm)
      · exact (h.quantity _ _ hw).trans ((hquantity id).trans (h'.quantity _ _ hv).symm)
    rw [hw, hv, hsame]
  · rw [Table.find?_eq_none_iff.2 hid, Table.find?_eq_none_iff.2 (mt hkeys.2 hid)]

/-! ### When write-offs are collected -/

private theorem returns_sumWith (h : Sums c l table) (hcur : next.amount.currency = c) :
    Returns (sumWith table next) fun w => sumWith table next = .ok w := by
  refine Returns.eq_ok ?_
  rw [sumWith]
  split
  · exact .ok trivial
  · rename_i previous hprevious
    have hsame := (h.currency next.id previous hprevious).trans hcur.symm
    exact (Money.returns_plus hsame).bind fun _ _ => .ok trivial

/-- Only the range stops the collecting of write-offs in one currency. -/
theorem returns_collect (h : ∀ w ∈ l, w.amount.currency = c) :
    Returns (collect c l) fun t => collect c l = .ok t := by
  refine Returns.eq_ok ?_
  induction l using List.reverseRecOn with
  | nil => exact .ok trivial
  | append_singleton l next ih =>
    have hcur := h next (by simp)
    rw [collect_concat]
    refine (ih fun w hw => h w (List.mem_append_left _ hw)).eq_ok.bind fun table htable => ?_
    rw [Money.requireCurrency, if_pos (congrArg Currency.code hcur)]
    exact (returns_sumWith (sums_of_collect htable) hcur).bind fun _ _ => .ok trivial

private theorem exists_sumWith (h : Sums c l table) (hcur : next.amount.currency = c)
    (hlt : amountOf (l ++ [next]) next.id < Money.bound) : ∃ w, sumWith table next = .ok w := by
  rw [sumWith]
  split
  · exact ⟨_, rfl⟩
  · rename_i previous hprevious
    rw [amountOf_concat, if_pos rfl, ← h.amount _ _ hprevious] at hlt
    have hsame := (h.currency _ _ hprevious).trans hcur.symm
    have hplus : previous.amount.plus next.amount = .ok ⟨previous.amount.currency, _, hlt⟩ :=
      Money.plus_eq_ok_iff.2 ⟨hsame, rfl, rfl⟩
    exact ⟨_, bind_eq_ok_iff.2 ⟨_, hplus, rfl⟩⟩

/-- Write-offs in one currency are collected if the sum for each item is in range. -/
theorem exists_collect (hcur : ∀ w ∈ l, w.amount.currency = c)
    (hlt : ∀ id, amountOf l id < Money.bound) : ∃ t, collect c l = .ok t := by
  induction l using List.reverseRecOn with
  | nil => exact ⟨_, rfl⟩
  | append_singleton l next ih =>
    have hle : ∀ id, amountOf l id < Money.bound := by
      intro id
      have := hlt id
      rw [amountOf_concat] at this
      omega
    obtain ⟨table, htable⟩ := ih (fun w hw => hcur w (List.mem_append_left _ hw)) hle
    have hnext := hcur next (by simp)
    obtain ⟨w, hw⟩ := exists_sumWith (sums_of_collect htable) hnext (hlt next.id)
    refine ⟨table.insert next.id w, ?_⟩
    rw [collect_concat, bind_of_eq_ok htable, Money.requireCurrency,
      if_pos (congrArg Currency.code hnext)]
    exact bind_eq_ok_iff.2 ⟨(), rfl, bind_eq_ok_iff.2 ⟨w, hw, rfl⟩⟩

/-- Write-offs in one currency are collected exactly if the sum for each item is in range. -/
theorem exists_collect_iff (hcur : ∀ w ∈ l, w.amount.currency = c) :
    (∃ t, collect c l = .ok t) ↔ ∀ id, amountOf l id < Money.bound := by
  refine ⟨fun ⟨t, ht⟩ id => ?_, exists_collect hcur⟩
  have hsums := sums_of_collect ht
  by_cases hid : id ∈ l.map ItemWriteOff.id
  · obtain ⟨w, hw⟩ := Table.exists_find?_of_mem_keys ((hsums.mem_keys id).2 hid)
    rw [← hsums.amount id w hw]
    exact w.amount.lt_bound
  · rw [amountOf, sumAt_eq_zero hid]
    decide

end WrittenOff

end Settlement
