import Settlement.Proofs.Blanks
import Settlement.Proofs.Prices
import Settlement.Proofs.Reductions
import Settlement.Session.Document

/-!
# The entries of a session document

Each reader of an entry returns what the entry describes, and returns it whenever there is such a
thing: one relation for each kind of entry says what that is, and one equivalence that the reader
computes it. The location that is named in messages has no part in the relations.

A discount entry is resolved against the items alone (`Session.resolveDiscount_eq_ok_iff`): the
write-off that it becomes depends neither on other write-offs nor on other discounts.
-/

namespace Settlement

/-- The last item with an id is the one behind which no other has it. -/
theorem Quote.lastItem?_eq_some_iff {items : List Item} {id : String} {item : Item} :
    lastItem? items id = some item ↔
      item.id = id ∧ ∃ before after, items = before ++ item :: after ∧ ∀ i ∈ after, i.id ≠ id := by
  rw [lastItem?, List.find?_eq_some_iff_append, beq_iff_eq]
  refine and_congr_right fun _ => ?_
  constructor
  · rintro ⟨after, before, hitems, hafter⟩
    refine ⟨before.reverse, after.reverse, ?_, fun i hi => ?_⟩
    · simpa using congrArg List.reverse hitems
    · simpa using hafter i (List.mem_reverse.1 hi)
  · rintro ⟨before, after, rfl, hafter⟩
    refine ⟨after.reverse, before.reverse, by simp, fun i hi => ?_⟩
    simpa using hafter i (List.mem_reverse.1 hi)

namespace Session

variable {code location key : String} {fields : Fields} {entry v : Value} {m base : Money}
  {items : List Item} {item : Item} {d : Discount}

/-! ### Fields -/

theorem entryFields_eq_ok_iff : entryFields location entry = .ok fields ↔ entry = .record fields := by
  cases entry <;> simp [entryFields]

theorem wholeOf_eq_ok_iff {n : ℤ} : wholeOf location key v = .ok n ↔ v = .whole n := by
  cases v <;> simp [wholeOf]

theorem textField_eq_ok_iff {s : String} :
    textField fields location key = .ok s ↔
      field fields key = .text s ∧ Text.isBlankText s = false := by
  rw [textField]
  split
  · rename_i s' hs'
    split_ifs with hblank
    · refine ⟨nofun, ?_⟩
      rintro ⟨h, hs⟩
      cases hs'.symm.trans h
      simp [hs] at hblank
    · rw [hs', Except.ok.injEq, Value.text.injEq]
      refine ⟨?_, fun h => h.1⟩
      rintro rfl
      exact ⟨rfl, Bool.not_eq_true _ ▸ hblank⟩
  · rename_i hnot
    exact ⟨nofun, fun h => absurd h.1 (hnot s)⟩

theorem decimalField_eq_ok_iff {x : Decimal} :
    decimalField fields location key = .ok x ↔
      ∃ v, Table.findIn key fields = some v ∧ AmountText.read (writtenAmount v) = .ok x := by
  rw [decimalField]
  split
  · rename_i hnone
    simp [hnone]
  · rename_i v hv
    simp only [hv, Option.some.injEq, exists_eq_left']
    cases AmountText.read (writtenAmount v) <;> simp [Except.mapError]

/-- An amount **is written** in a field, in the currency with this code, if what the field holds
comes to it. -/
def IsWritten (code : String) (fields : Fields) (key : String) (m : Money) : Prop :=
  m.currency.code = code ∧ ∃ v x, Table.findIn key fields = some v ∧
    AmountText.read (writtenAmount v) = .ok x ∧ Money.ofDecimal m.currency x = .ok m

theorem moneyField_eq_ok_iff :
    moneyField code fields location key = .ok m ↔ IsWritten code fields key m := by
  rw [moneyField, IsWritten, bind_eq_ok_iff]
  simp only [decimalField_eq_ok_iff, bind_eq_ok_iff]
  constructor
  · rintro ⟨x, ⟨v, hv, hx⟩, c, hc, hm⟩
    obtain rfl := Money.currency_ofDecimal hm
    exact ⟨Currency.ofCode_eq_ok_iff.1 hc, v, x, hv, hx, hm⟩
  · rintro ⟨rfl, v, x, hv, hx, hm⟩
    exact ⟨x, ⟨v, hv, hx⟩, _, Currency.ofCode_code _, hm⟩

/-- A reason **is given** in a field if the field names it. -/
def GivesReason (fields : Fields) (reason : Reason) : Prop :=
  field fields "reason" ≠ .null ∧ Reason.ofText? (field fields "reason").shown = some reason

theorem reasonField_eq_ok_iff {reason : Reason} :
    reasonField fields location = .ok reason ↔ GivesReason fields reason := by
  rw [reasonField, GivesReason]
  split
  · rename_i hnull
    simp [hnull]
  · rename_i hnull
    rw [and_iff_right hnull]
    split
    · rename_i r hr
      rw [hr, Except.ok.injEq, Option.some.injEq]
    · rename_i hr
      simp [hr]

/-- A list **stands** in a field that may be missing: then it is empty. -/
def Lists (fields : Fields) (key : String) (l : List Value) : Prop :=
  field fields key = .list l ∨ field fields key = .null ∧ l = []

theorem listField_required_eq_ok_iff {l : List Value} :
    listField fields key true = .ok l ↔ field fields key = .list l := by
  rw [listField]
  split
  · rename_i hnull
    simp [hnull]
  · rename_i l' hl'
    simp [hl']
  · rename_i hlist
    exact ⟨nofun, fun h => absurd h (hlist l)⟩

theorem listField_eq_ok_iff {l : List Value} :
    listField fields key false = .ok l ↔ Lists fields key l := by
  rw [listField, Lists]
  split
  · rename_i hnull
    simp [hnull, eq_comm]
  · rename_i l' hl'
    simp [hl']
  · rename_i hnull hlist
    exact ⟨nofun, fun h => h.elim (fun h => absurd h (hlist l)) fun h => absurd h.1 hnull⟩

/-! ### Entries -/

/-- An entry **describes an item** with its id, its unit price and what remains of it. -/
def DescribesItem (code : String) (entry : Value) (item : Item) : Prop :=
  ∃ fields, entry = .record fields ∧ field fields "id" = .text item.id ∧
    IsWritten code fields "unit_price" item.unitPrice ∧
    field fields "remaining_quantity" = .whole item.remaining

/-- An entry **describes a write-off of an item**. -/
def DescribesItemWriteOff (code : String) (entry : Value) (w : ItemWriteOff) : Prop :=
  ∃ fields, entry = .record fields ∧ field fields "item_id" = .text w.id ∧
    field fields "quantity" = .whole w.quantity ∧ IsWritten code fields "amount" w.amount ∧
    GivesReason fields w.reason ∧ Note.Keeps (field fields "note") w.note

/-- An entry **describes a write-off of the tab**. -/
def DescribesWriteOff (code : String) (entry : Value) (w : WriteOff) : Prop :=
  ∃ fields, entry = .record fields ∧ IsWritten code fields "amount" w.amount ∧
    GivesReason fields w.reason ∧ Note.Keeps (field fields "note") w.note

theorem readItem_eq_ok_iff :
    readItem code location entry = .ok item ↔ DescribesItem code entry item := by
  simp only [readItem, DescribesItem, bind_eq_ok_iff, entryFields_eq_ok_iff, textField_eq_ok_iff,
    moneyField_eq_ok_iff, wholeField, wholeOf_eq_ok_iff, Item.ofValues_eq_ok_iff]
  constructor
  · rintro ⟨fields, hentry, id, ⟨hid, -⟩, price, hprice, remaining, hremaining, rfl, rfl, rfl⟩
    exact ⟨fields, hentry, hid, hprice, hremaining⟩
  · rintro ⟨fields, hentry, hid, hprice, hremaining⟩
    exact ⟨fields, hentry, _, ⟨hid, item.id_notBlank⟩, _, hprice, _, hremaining, rfl, rfl, rfl⟩

theorem readItemWriteOff_eq_ok_iff {w : ItemWriteOff} :
    readItemWriteOff code location entry = .ok w ↔ DescribesItemWriteOff code entry w := by
  simp only [readItemWriteOff, DescribesItemWriteOff, bind_eq_ok_iff, entryFields_eq_ok_iff,
    textField_eq_ok_iff, moneyField_eq_ok_iff, wholeField, wholeOf_eq_ok_iff,
    reasonField_eq_ok_iff, ItemWriteOff.ofValues_eq_ok_iff, Note.normalize_eq_ok_iff]
  constructor
  · rintro ⟨fields, hentry, id, ⟨hid, -⟩, quantity, hquantity, amount, hamount, reason, hreason,
      rfl, rfl, rfl, rfl, hnote⟩
    exact ⟨fields, hentry, hid, hquantity, hamount, hreason, hnote⟩
  · rintro ⟨fields, hentry, hid, hquantity, hamount, hreason, hnote⟩
    exact ⟨fields, hentry, _, ⟨hid, w.id_notBlank⟩, _, hquantity, _, hamount, _, hreason, rfl, rfl,
      rfl, rfl, hnote⟩

theorem readWriteOff_eq_ok_iff {w : WriteOff} :
    readWriteOff code location entry = .ok w ↔ DescribesWriteOff code entry w := by
  simp only [readWriteOff, DescribesWriteOff, bind_eq_ok_iff, entryFields_eq_ok_iff,
    moneyField_eq_ok_iff, reasonField_eq_ok_iff, WriteOff.ofValues_eq_ok_iff,
    Note.normalize_eq_ok_iff]
  constructor
  · rintro ⟨fields, hentry, amount, hamount, reason, hreason, rfl, rfl, hnote⟩
    exact ⟨fields, hentry, hamount, hreason, hnote⟩
  · rintro ⟨fields, hentry, hamount, hreason, hnote⟩
    exact ⟨fields, hentry, _, hamount, _, hreason, rfl, rfl, hnote⟩

/-- **Lists of entries.** Entries are read one by one: each yields what it stands for, in its
place. -/
theorem readEntries_eq_ok_iff {α : Type} {read : String → Value → Except Fault α}
    {P : Value → α → Prop} (h : ∀ location entry a, read location entry = .ok a ↔ P entry a)
    (key : String) (position : ℕ) {l : List Value} {as : List α} :
    readEntries read key position l = .ok as ↔ List.Forall₂ P l as := by
  induction l generalizing position as with
  | nil => simp [readEntries, eq_comm]
  | cons entry rest ih =>
    simp only [readEntries, bind_eq_ok_iff, h, ih, List.forall₂_cons_left_iff, Except.ok.injEq]
    constructor
    · rintro ⟨a, ha, rest', hrest, rfl⟩
      exact ⟨a, rest', ha, hrest, rfl⟩
    · rintro ⟨a, rest', ha, hrest, rfl⟩
      exact ⟨a, ha, rest', hrest, rfl⟩

/-! ### Discounts -/

/-- An entry **describes a discount**: a percentage or a flat amount, but not both, with its reason
and its note. -/
def DescribesDiscount (code : String) (fields : Fields) (d : Discount) : Prop :=
  GivesReason fields d.reason ∧ Note.Keeps (field fields "note") d.note ∧
    ((Table.findIn "amount" fields = none ∧ ∃ v x, Table.findIn "percent" fields = some v ∧
        AmountText.read (writtenAmount v) = .ok x ∧
        Discount.percentOf (.decimal (.finite x)) = .ok d.size) ∨
      Table.findIn "percent" fields = none ∧ ∃ m h, IsWritten code fields "amount" m ∧
        d.size = .flat m h)

private theorem create_eq_ok_iff {size : Except Fault Discount.Size} {reason : Reason} :
    Discount.create size (.given reason) v = .ok d ↔
      size = .ok d.size ∧ d.reason = reason ∧ Note.Keeps v d.note := by
  rw [Discount.create, bind_eq_ok_iff]
  simp only [bind_eq_ok_iff, Note.normalize_eq_ok_iff]
  constructor
  · rintro ⟨r, hr, s, hs, note, hnote, h⟩
    cases hr
    cases h
    exact ⟨hs, rfl, hnote⟩
  · rintro ⟨hs, rfl, hnote⟩
    exact ⟨_, rfl, _, hs, _, hnote, rfl⟩

private theorem flatOf_eq_ok_iff {size : Discount.Size} :
    Discount.flatOf (.given m) = .ok size ↔ ∃ h, size = .flat m h := by
  rw [Discount.flatOf, Given.require, bind_of_eq_ok rfl]
  split_ifs with h <;> simp [h, eq_comm]

theorem readDiscount_eq_ok_iff :
    readDiscount code location fields = .ok d ↔ DescribesDiscount code fields d := by
  rw [readDiscount, DescribesDiscount]
  cases hpercent : Table.findIn "percent" fields with
  | none =>
    cases hamount : Table.findIn "amount" fields with
    | none =>
      -- neither is given
      simp [IsWritten, hamount]
    | some a =>
      simp only [Option.isSome_none, Option.isSome_some, Bool.false_eq_true, reduceIte,
        bind_eq_ok_iff, reasonField_eq_ok_iff, moneyField_eq_ok_iff, Discount.flat,
        create_eq_ok_iff, flatOf_eq_ok_iff]
      constructor
      · rintro ⟨reason, hreason, amount, hwritten, hsize, rfl, hnote⟩
        obtain ⟨h, hsize⟩ := hsize
        exact ⟨hreason, hnote, .inr ⟨trivial, amount, h, hwritten, hsize⟩⟩
      · rintro ⟨hreason, hnote, ⟨hnone, -⟩ | ⟨-, amount, h, hwritten, hsize⟩⟩
        · cases hnone
        · exact ⟨_, hreason, amount, hwritten, ⟨h, hsize⟩, rfl, hnote⟩
  | some p =>
    cases hamount : Table.findIn "amount" fields with
    | none =>
      simp only [Option.isSome_none, Option.isSome_some, Bool.true_eq_false, reduceIte,
        bind_eq_ok_iff, reasonField_eq_ok_iff, decimalField_eq_ok_iff, Discount.percent,
        create_eq_ok_iff, hpercent]
      constructor
      · rintro ⟨reason, hreason, x, ⟨w, hw, hx⟩, hsize, rfl, hnote⟩
        exact ⟨hreason, hnote, .inl ⟨trivial, w, x, hw, hx, hsize⟩⟩
      · rintro ⟨hreason, hnote, ⟨-, w, x, hw, hx, hsize⟩ | ⟨hnone, -⟩⟩
        · exact ⟨_, hreason, x, ⟨w, hw, hx⟩, hsize, rfl, hnote⟩
        · cases hnone
    | some a =>
      -- both are given
      simp

/-- An entry **becomes a write-off of the tab** if it names no item: what its discount takes of the
price of all that remains of all items. -/
def BecomesWriteOff (code : String) (items : List Item) (entry : Value) (w : WriteOff) : Prop :=
  ∃ fields d base, entry = .record fields ∧ field fields "item_id" = .null ∧
    DescribesDiscount code fields d ∧ base.currency.code = code ∧ base.cents = outstanding items ∧
    d.reduction base = .ok w.amount ∧ w.reason = d.reason ∧ w.note = d.note

/-- An entry **becomes a write-off of an item** if it names one: what its discount takes of the
price of a quantity of the last item with that id, by default of all that remains of it. -/
def BecomesItemWriteOff (code : String) (items : List Item) (entry : Value) (w : ItemWriteOff) :
    Prop :=
  ∃ fields d item base before after, entry = .record fields ∧
    field fields "item_id" = .text w.id ∧ w.id = item.id ∧
    items = before ++ item :: after ∧ (∀ i ∈ after, i.id ≠ w.id) ∧
    (Table.findIn "quantity" fields = none ∧ w.quantity = item.remaining ∨
      Table.findIn "quantity" fields = some (.whole w.quantity)) ∧
    DescribesDiscount code fields d ∧ base.currency = item.unitPrice.currency ∧
    base.cents = item.unitPrice.cents * w.quantity ∧
    d.reduction base = .ok w.amount ∧ w.reason = d.reason ∧ w.note = d.note

/-- What an entry becomes: a write-off of either kind. -/
def Becomes (code : String) (items : List Item) (entry : Value) : Resolved → Prop
  | .ofItem w => BecomesItemWriteOff code items entry w
  | .ofTab w => BecomesWriteOff code items entry w

/-! ### The base of a discount -/

/-- What remains of items is added to a total. -/
private theorem addRemaining_eq_ok_iff {total : Money}
    (hitems : ∀ item ∈ items, item.unitPrice.currency = total.currency) :
    addRemaining total items = .ok base ↔
      base.currency = total.currency ∧ base.cents = total.cents + outstanding items := by
  induction items generalizing total with
  | nil =>
    rw [addRemaining, Except.ok.injEq, outstanding, List.map_nil, List.sum_nil, Nat.add_zero]
    constructor
    · rintro rfl
      exact ⟨rfl, rfl⟩
    · rintro ⟨hcur, hcents⟩
      exact (Money.ext_cents hcur hcents).symm
  | cons item rest ih =>
    have hcur : item.unitPrice.currency = total.currency := hitems item List.mem_cons_self
    have hsum : outstanding (item :: rest) =
        item.unitPrice.cents * item.remaining + outstanding rest := List.sum_cons
    simp only [addRemaining, bind_eq_ok_iff, Item.gross, Money.times_eq_ok_iff,
      Money.requireCurrency_eq_ok_iff, Money.plus_eq_ok_iff, hsum]
    constructor
    · rintro ⟨price, ⟨-, hprice⟩, -, -, m, ⟨-, hm, hplus⟩, hrest⟩
      obtain ⟨hbase, hcents⟩ := (ih fun i hi => hm ▸ hitems i (List.mem_cons_of_mem _ hi)).1 hrest
      exact ⟨hbase.trans hm, by omega⟩
    · rintro ⟨hbase, hcents⟩
      have hlt := base.lt_bound
      obtain ⟨price, hprice⟩ : ∃ price, item.unitPrice.times item.remaining = .ok price :=
        Money.exists_times (by omega)
      obtain ⟨hpricecur, hpricecents⟩ := Money.times_eq_ok_iff.1 hprice
      have hsame := hpricecur.trans hcur
      obtain ⟨m, hm, hplus⟩ : ∃ m : Money, m.currency = total.currency ∧
          m.cents = total.cents + price.cents :=
        ⟨⟨total.currency, total.cents + price.cents, by omega⟩, rfl, rfl⟩
      refine ⟨price, ⟨hpricecur, hpricecents⟩, (), congrArg _ hsame, m, ⟨hsame.symm, hm, hplus⟩, ?_⟩
      refine (ih fun i hi => (hitems i (List.mem_cons_of_mem _ hi)).trans hm.symm).2
        ⟨hbase.trans hm.symm, ?_⟩
      omega

/-- **The base of the tab** is the price of all that remains of all items. -/
theorem grossRemaining_eq_ok_iff (hitems : ∀ item ∈ items, item.unitPrice.currency.code = code) :
    grossRemaining code items = .ok base ↔
      base.currency.code = code ∧ base.cents = outstanding items := by
  rw [grossRemaining, bind_eq_ok_iff]
  simp only [Currency.ofCode_eq_ok_iff]
  have hsame : ∀ c : Currency, c.code = code →
      ∀ item ∈ items, item.unitPrice.currency = (Money.zero c).currency := fun c hc item hitem =>
    Money.currency_eq_of_code_eq ((hitems item hitem).trans hc.symm)
  constructor
  · rintro ⟨c, hc, h⟩
    obtain ⟨hcur, hcents⟩ := (addRemaining_eq_ok_iff (hsame c hc)).1 h
    exact ⟨hcur ▸ hc, by simpa using hcents⟩
  · rintro ⟨hcode, hcents⟩
    exact ⟨_, hcode, (addRemaining_eq_ok_iff (hsame _ hcode)).2 ⟨rfl, by simpa using hcents⟩⟩

theorem discountedItem_eq_ok_iff :
    discountedItem items location v = .ok item ↔
      ∃ id, v = .text id ∧ Quote.lastItem? items id = some item := by
  cases v with
  | text id =>
    rw [discountedItem]
    split
    · rename_i i hi
      simp [hi]
    · rename_i hnone
      simp [hnone]
  | _ => simp [discountedItem]

theorem timesValue_whole_eq_ok_iff {n : ℤ} :
    m.timesValue (.whole n) = .ok base ↔
      0 ≤ n ∧ base.currency = m.currency ∧ (base.cents : ℤ) = m.cents * n := by
  rw [Money.timesValue]
  split_ifs with h
  · exact ⟨nofun, fun hn => absurd hn.1 (not_le.2 h)⟩
  · obtain ⟨k, rfl⟩ := Int.eq_ofNat_of_zero_le (not_lt.1 h)
    rw [Int.toNat_natCast, Money.times_eq_ok_iff]
    simp only [Int.natCast_nonneg, true_and]
    norm_cast

/-- What a discount entry is resolved into is what it becomes. -/
theorem becomes_of_resolveDiscount (hitems : ∀ item ∈ items, item.unitPrice.currency.code = code)
    {r : Resolved} (h : resolveDiscount code items location entry = .ok r) :
    Becomes code items entry r := by
  simp only [resolveDiscount, bind_eq_ok_iff, entryFields_eq_ok_iff, readDiscount_eq_ok_iff] at h
  obtain ⟨fields, rfl, d, hd, h⟩ := h
  split at h
  · -- a discount of the tab
    rename_i hnull
    obtain ⟨base, hbase, h⟩ := bind_eq_ok_iff.1 h
    obtain ⟨w, hw, h⟩ := bind_eq_ok_iff.1 h
    cases h
    obtain ⟨hcode, hcents⟩ := (grossRemaining_eq_ok_iff hitems).1 hbase
    obtain ⟨hr, hreason, hnote⟩ := Discount.toWriteOff_eq_ok_iff.1 hw
    exact ⟨fields, d, base, rfl, hnull, hd, hcode, hcents, hr, hreason,
      hd.2.1.again.1 hnote⟩
  · -- a discount of an item
    obtain ⟨item, hitem, h⟩ := bind_eq_ok_iff.1 h
    obtain ⟨n, hn, h⟩ := bind_eq_ok_iff.1 h
    obtain ⟨base, hbase, h⟩ := bind_eq_ok_iff.1 h
    obtain ⟨w, hw, h⟩ := bind_eq_ok_iff.1 h
    cases h
    obtain ⟨id, hid, hlast⟩ := discountedItem_eq_ok_iff.1 hitem
    obtain ⟨hitemid, before, after, hsplit, hafter⟩ := Quote.lastItem?_eq_some_iff.1 hlast
    obtain ⟨-, hcur, hcents⟩ := timesValue_whole_eq_ok_iff.1 hbase
    rw [hid] at hw
    obtain ⟨rfl, rfl, hr, hreason, hnote⟩ := Discount.toItemWriteOff_eq_ok_iff.1 hw
    refine ⟨fields, d, item, base, before, after, rfl, hid, hitemid.symm, hsplit, hafter, ?_, hd,
      hcur, by exact_mod_cast hcents, hr, hreason, hd.2.1.again.1 hnote⟩
    rw [wholeOf_eq_ok_iff] at hn
    cases hfind : Table.findIn "quantity" fields with
    | none =>
      rw [hfind] at hn
      exact .inl ⟨rfl, by simpa [eq_comm] using hn⟩
    | some v =>
      rw [hfind] at hn
      exact .inr (congrArg some hn)

/-- **Discounts.** A discount entry is resolved into the write-off that it becomes. -/
theorem resolveDiscount_eq_ok_iff (hitems : ∀ item ∈ items, item.unitPrice.currency.code = code)
    {r : Resolved} :
    resolveDiscount code items location entry = .ok r ↔ Becomes code items entry r := by
  refine ⟨becomes_of_resolveDiscount hitems, ?_⟩
  simp only [resolveDiscount, bind_eq_ok_iff, entryFields_eq_ok_iff, readDiscount_eq_ok_iff]
  cases r with
  | ofTab w =>
    rintro ⟨fields, d, base, rfl, hnull, hd, hcode, hcents, hr, hreason, hnote⟩
    refine ⟨fields, rfl, d, hd, ?_⟩
    rw [hnull]
    refine bind_eq_ok_iff.2 ⟨base, (grossRemaining_eq_ok_iff hitems).2 ⟨hcode, hcents⟩, ?_⟩
    exact bind_eq_ok_iff.2 ⟨w, Discount.toWriteOff_eq_ok_iff.2
      ⟨hr, hreason, hd.2.1.again.2 hnote⟩, rfl⟩
  | ofItem w =>
    rintro ⟨fields, d, item, base, before, after, rfl, hid, hitemid, hsplit, hafter, hquantity,
      hd, hcur, hcents, hr, hreason, hnote⟩
    refine ⟨fields, rfl, d, hd, ?_⟩
    have hlast := Quote.lastItem?_eq_some_iff.2 ⟨hitemid.symm, before, after, hsplit, hafter⟩
    rw [hid]
    refine bind_eq_ok_iff.2 ⟨item, discountedItem_eq_ok_iff.2 ⟨_, rfl, hlast⟩, ?_⟩
    refine bind_eq_ok_iff.2 ⟨w.quantity, wholeOf_eq_ok_iff.2 ?_, ?_⟩
    · rcases hquantity with ⟨hnone, hq⟩ | hsome
      · rw [hnone, hq]
        rfl
      · rw [hsome]
        rfl
    refine bind_eq_ok_iff.2 ⟨base, timesValue_whole_eq_ok_iff.2
      ⟨Int.natCast_nonneg _, hcur, by exact_mod_cast hcents⟩, ?_⟩
    exact bind_eq_ok_iff.2 ⟨w, Discount.toItemWriteOff_eq_ok_iff.2
      ⟨rfl, rfl, hr, hreason, hd.2.1.again.2 hnote⟩, rfl⟩

end Session

end Settlement
