import Settlement.Proofs.SessionEntries
import Settlement.Proofs.WrittenAmounts

/-!
# What a session document is rejected for

A document is read through many checks, one after the other. A computation is `Guarded` if all that
it fails with are rejections: faults that concern the rules of the domain and are reported as they
are. A sequence of guarded steps is guarded (`Guarded.bind`), and so is what only the range of money
can stop (`Guarded.of_returns`). Each reader of an entry is guarded on values that can be written
again, as the values of a text are.

One thing is not checked: that the item of a discount is referred to by something that can serve as
a key. `Session.resolveDiscount_error` says that this is all that is missing.
-/

namespace Settlement

/-- A fault is a **rejection** if it concerns the rules of the domain and is reported as it is. -/
structure Fault.IsRejection (f : Fault) : Prop where
  isDomain : f.category.isDomain = true
  reported_eq : f.reported = f

/-- A fault of the domain that shows short numbers only is a rejection. -/
theorem Fault.isRejection_of_short {f : Fault} (hdomain : f.category.isDomain = true)
    (h : ∀ n ∈ f.wholes, IsShort n) : f.IsRejection :=
  ⟨hdomain, reported_of_short h⟩

/-! ### Guarded computations -/

/-- A computation is **guarded** if what it returns has a property, and what it fails with is a
rejection. -/
structure Guarded {α : Type} (r : Except Fault α) (P : α → Prop) : Prop where
  value : ∀ a, r = .ok a → P a
  fault : ∀ f, r = .error f → f.IsRejection

namespace Guarded

variable {α β : Type} {r : Except Fault α} {f : α → Except Fault β} {P : α → Prop}
  {R : β → Prop}

theorem ok {a : α} (h : P a) : Guarded (.ok a) P where
  value _ ha := Except.ok.inj ha ▸ h
  fault _ hf := nomatch hf

theorem error {e : Fault} (h : e.IsRejection) : Guarded (.error e) P where
  value _ ha := nomatch ha
  fault _ hf := Except.error.inj hf ▸ h

/-- **Sequences.** The second step may rest on the property of what the first one returns. -/
theorem bind (hr : Guarded r P) (hf : ∀ a, P a → Guarded (f a) R) : Guarded (r >>= f) R := by
  cases r with
  | ok a => exact hf a (hr.value a rfl)
  | error e => exact .error (hr.fault e rfl)

/-- What only the range of money stops is guarded. -/
theorem of_returns (h : Returns r P) : Guarded r P where
  value a ha := by
    obtain ⟨b, hb, hP⟩ := h (ha ▸ inRange_ok a)
    cases ha.symm.trans hb
    exact hP
  fault e he := by
    by_cases hr : InRange r
    · obtain ⟨a, ha, -⟩ := h hr
      cases he.symm.trans ha
    · obtain ⟨x, hx⟩ := not_inRange_iff.1 hr
      cases he.symm.trans hx
      exact ⟨rfl, rfl⟩

/-- A failure of a guarded sequence is a rejection, or the second step fails with it. -/
theorem error_cases (hr : Guarded r P) {e : Fault} (h : (r >>= f) = .error e) :
    e.IsRejection ∨ ∃ a, r = .ok a ∧ P a ∧ f a = .error e := by
  cases r with
  | ok a => exact .inr ⟨a, rfl, hr.value a rfl, h⟩
  | error e' => exact .inl (Except.error.inj h ▸ hr.fault e' rfl)

end Guarded

/-! ### Amounts, notes and quantities -/

variable {c : Currency} {m base : Money} {n : ℤ} {id location key : String} {v entry : Value}
  {fields : Session.Fields} {items : List Item} {d : Discount} {reason : Reason}

theorem guarded_ofDecimal (c : Currency) (x : Decimal) :
    Guarded (Money.ofDecimal c x) fun _ => True := by
  rw [Money.ofDecimal]
  split
  · exact .error ⟨rfl, rfl⟩
  · split_ifs
    · exact .error ⟨rfl, rfl⟩
    · exact .ok trivial

theorem guarded_plus (a b : Money) : Guarded (a.plus b) fun _ => True := by
  by_cases h : a.currency = b.currency
  · exact .of_returns ((Money.returns_plus h).mono fun _ _ => trivial)
  · rw [Money.plus, Money.requireSameCurrency, if_neg h]
    exact .error ⟨rfl, rfl⟩

theorem guarded_times (m : Money) {n : ℕ} (h : n ≤ pow10 Fault.longestWhole) :
    Guarded (m.times n) fun _ => True :=
  .of_returns ((Money.returns_times (by decide) h).mono fun _ _ => trivial)

theorem guarded_timesValue (m : Money) (h : IsShort n) :
    Guarded (m.timesValue (.whole n)) fun _ => True := by
  rw [Money.timesValue]
  split_ifs
  · exact .error (Fault.isRejection_of_short rfl (by simpa [Fault.wholes] using h))
  · have hn : n.toNat ≤ n.natAbs := by omega
    exact guarded_times m (hn.trans h.le)

theorem guarded_normalize (owner : String) (v : Value) :
    Guarded (Note.normalize owner v) fun _ => True := by
  rw [Note.normalize.eq_def]
  split
  · exact .ok trivial
  · dsimp only
    split_ifs
    · exact .ok trivial
    · exact .error ⟨rfl, rfl⟩
    · exact .ok trivial
  · exact .error ⟨rfl, rfl⟩

theorem guarded_requireItemId (id : String) :
    Guarded (requireItemId (.text id)) fun _ => True := by
  rw [requireItemId]
  split_ifs
  · exact .ok trivial
  · exact .error ⟨rfl, rfl⟩

theorem guarded_requireQuantity (h : IsShort n) :
    Guarded (requireQuantity (.whole n)) fun _ => True := by
  rw [requireQuantity]
  split_ifs
  · exact .ok trivial
  · exact .error (Fault.isRejection_of_short rfl (by simpa [Fault.wholes] using h))

/-- A field that holds what it should is not refused. -/
private theorem guarded_require {α : Type} {refuse : Value → Fault} (a : α) :
    Guarded ((Given.given a).require refuse) fun _ => True :=
  .ok trivial

/-- Money in a field is money above nothing, or the field is refused. -/
theorem guarded_positive {zero : Fault} (hzero : zero.IsRejection) (m : Money) :
    Guarded ((Given.given m).positive zero) fun g => ∃ p, g = .given p := by
  rw [Given.positive]
  split_ifs
  · exact .ok ⟨_, rfl⟩
  · exact .error hzero

/-! ### Items and reductions -/

/-- An item of what was read, with as many units as were read. -/
theorem guarded_item (id : String) (m : Money) (h : IsShort n) :
    Guarded (Item.ofValues (.text id) (.given m) (.whole n)) fun item => IsShort item.remaining := by
  refine (guarded_requireItemId id).bind ?_
  rintro ⟨id, hid⟩ -
  refine (guarded_positive ⟨rfl, rfl⟩ m).bind ?_
  rintro _ ⟨p, rfl⟩
  have hremaining : Guarded (Item.requireRemaining id (.whole n)) fun r => IsShort r := by
    rw [Item.requireRemaining]
    split_ifs with hneg
    · exact .error ⟨rfl, rfl⟩
    · refine .ok ?_
      rw [IsShort] at h ⊢
      omega
  exact hremaining.bind fun r hr => .ok hr

theorem guarded_writeOff (m : Money) (reason : Reason) (note : Value) :
    Guarded (WriteOff.ofValues (.given m) (.given reason) note) fun _ => True := by
  refine (guarded_require reason).bind fun reason _ => ?_
  refine (guarded_positive ⟨rfl, rfl⟩ m).bind ?_
  rintro _ ⟨p, rfl⟩
  exact (guarded_normalize _ note).bind fun note _ => .ok trivial

theorem guarded_itemWriteOff (id : String) (h : IsShort n) (m : Money) (reason : Reason)
    (note : Value) :
    Guarded (ItemWriteOff.ofValues (.text id) (.whole n) (.given m) (.given reason) note)
      fun _ => True := by
  refine (guarded_requireItemId id).bind ?_
  rintro ⟨id, hid⟩ -
  refine (guarded_require reason).bind fun reason _ => ?_
  refine (guarded_requireQuantity h).bind ?_
  rintro ⟨quantity, hquantity⟩ -
  refine (guarded_positive ⟨rfl, rfl⟩ m).bind ?_
  rintro _ ⟨p, rfl⟩
  exact (guarded_normalize _ note).bind fun note _ => .ok trivial

/-- A discount from what was read: its size is looked at before its note. -/
private theorem guarded_create {size : Except Fault Discount.Size}
    (hsize : Guarded size fun _ => True) (reason : Reason) (note : Value) :
    Guarded (Discount.create size (.given reason) note) fun _ => True := by
  refine (guarded_require reason).bind fun reason _ => hsize.bind fun size _ => ?_
  exact (guarded_normalize _ note).bind fun note _ => .ok trivial

theorem guarded_percent (x : Decimal) (reason : Reason) (note : Value) :
    Guarded (Discount.percent (.decimal (.finite x)) (.given reason) note) fun _ => True := by
  refine guarded_create ?_ reason note
  have hround : Guarded (Amount.normalize (.decimal (.finite x))) fun _ => True := by
    change Guarded (Amount.round x) _
    rw [Amount.round]
    split
    · exact .ok trivial
    · exact .error ⟨rfl, rfl⟩
  refine hround.bind fun y _ => ?_
  split_ifs
  · exact .ok trivial
  · exact .error ⟨rfl, rfl⟩
  · exact .error ⟨rfl, rfl⟩

theorem guarded_flat (m : Money) (reason : Reason) (note : Value) :
    Guarded (Discount.flat (.given m) (.given reason) note) fun _ => True := by
  refine guarded_create ?_ reason note
  refine (guarded_require m).bind fun m _ => ?_
  split_ifs
  · exact .ok trivial
  · exact .error ⟨rfl, rfl⟩

/-- A reduction is guarded: of a percentage and a hundred there is always a proportion. -/
theorem guarded_reduction (d : Discount) (base : Money) :
    Guarded (d.reduction base) fun _ => True := by
  have hraw : Guarded (Discount.rawReduction d.size base) fun _ => True := by
    cases d.size with
    | percent hundredths hpos hle =>
      obtain ⟨x, hx, -⟩ := Discount.rawReduction_percent hpos hle base
      rw [hx]
      exact guarded_ofDecimal _ x
    | flat amount hpos =>
      rw [Discount.rawReduction]
      split_ifs
      · exact .ok trivial
      · exact .error ⟨rfl, rfl⟩
  rw [Discount.reduction]
  split_ifs
  · exact .error ⟨rfl, rfl⟩
  refine hraw.bind fun r _ => ?_
  split_ifs
  · exact .error ⟨rfl, rfl⟩
  · exact .error ⟨rfl, rfl⟩
  · exact .ok trivial

theorem guarded_toWriteOff (d : Discount) (base : Money) :
    Guarded (d.toWriteOff base) fun _ => True :=
  (guarded_reduction d base).bind fun r _ => guarded_writeOff r _ _

theorem guarded_toItemWriteOff (d : Discount) (id : String) (h : IsShort n) (base : Money) :
    Guarded (d.toItemWriteOff (.text id) (.whole n) base) fun _ => True := by
  have hscope : Guarded (Discount.requireScope (.text id) (.whole n)) fun _ => True := by
    rw [Discount.requireScope]
    split_ifs
    · exact .ok trivial
    · exact .error ⟨rfl, rfl⟩
  exact hscope.bind fun _ _ => (guarded_reduction d base).bind fun r _ =>
    guarded_itemWriteOff id h r _ _

/-! ### Fields -/

namespace Session

/-- What is found in a record that is writable is writable. -/
private theorem writable_of_findIn (h : ∀ e ∈ fields, e.2.Writable)
    (hfind : Table.findIn key fields = some v) : v.Writable :=
  h _ (Table.mem_of_findIn hfind)

private theorem writable_field (h : ∀ e ∈ fields, e.2.Writable) (key : String) :
    (field fields key).Writable := by
  rw [field]
  cases hfind : Table.findIn key fields with
  | none => exact .null
  | some v => exact writable_of_findIn h hfind

theorem guarded_listField (h : ∀ e ∈ fields, e.2.Writable) (key : String) (required : Bool) :
    Guarded (listField fields key required) fun l => ∀ v ∈ l, v.Writable := by
  have hfield := writable_field h key
  rw [listField]
  split
  · split_ifs
    · exact .error ⟨rfl, rfl⟩
    · exact .ok (by simp)
  · rename_i hlist
    rw [hlist] at hfield
    cases hfield with
    | list hall => exact .ok hall
  · exact .error ⟨rfl, rfl⟩

theorem guarded_entryFields (location : String) (h : entry.Writable) :
    Guarded (entryFields location entry) fun fields => ∀ e ∈ fields, e.2.Writable := by
  cases h with
  | record hall => exact .ok hall
  | _ => exact .error ⟨rfl, rfl⟩

theorem guarded_textField (fields : Fields) (location key : String) :
    Guarded (textField fields location key) fun _ => True := by
  rw [textField]
  split
  · split_ifs
    · exact .error ⟨rfl, rfl⟩
    · exact .ok trivial
  · exact .error ⟨rfl, rfl⟩

theorem guarded_wholeOf (location key : String) (h : v.Writable) :
    Guarded (wholeOf location key v) IsShort := by
  cases h with
  | whole hn => exact .ok hn
  | _ => exact .error ⟨rfl, rfl⟩

theorem guarded_decimalField (fields : Fields) (location key : String) :
    Guarded (decimalField fields location key) fun _ => True := by
  rw [decimalField]
  split
  · exact .error ⟨rfl, rfl⟩
  · rename_i v _
    -- whatever the amount is refused for becomes a fault of the field
    rcases AmountText.read_cases (writtenAmount v) with ⟨x, hx, -⟩ | ⟨f, hf, -, hshown⟩
    · rw [hx]
      exact .ok trivial
    · rw [hf]
      refine .error (Fault.isRejection_of_short rfl ?_)
      rw [Fault.wholes, hshown]
      exact List.forall_mem_nil _

theorem guarded_moneyField (c : Currency) (fields : Fields) (location key : String) :
    Guarded (moneyField c.code fields location key) fun _ => True := by
  rw [moneyField, c.ofCode_code]
  exact (guarded_decimalField fields location key).bind fun x _ => guarded_ofDecimal c x

theorem guarded_reasonField (h : ∀ e ∈ fields, e.2.Writable) (location : String) :
    Guarded (reasonField fields location) fun _ => True := by
  have hreason := writable_field h "reason"
  rw [reasonField]
  split
  · exact .error ⟨rfl, rfl⟩
  · split
    · exact .ok trivial
    · exact .error (Fault.isRejection_of_short rfl hreason.isShort)

/-! ### Entries -/

theorem guarded_readItem (c : Currency) (location : String) (h : entry.Writable) :
    Guarded (readItem c.code location entry) fun item => IsShort item.remaining := by
  refine (guarded_entryFields location h).bind fun fields hfields => ?_
  refine (guarded_textField ..).bind fun id _ => ?_
  refine (guarded_moneyField ..).bind fun unitPrice _ => ?_
  refine (guarded_wholeOf _ _ (writable_field hfields _)).bind fun remaining hremaining => ?_
  exact guarded_item id unitPrice hremaining

theorem guarded_readItemWriteOff (c : Currency) (location : String) (h : entry.Writable) :
    Guarded (readItemWriteOff c.code location entry) fun _ => True := by
  refine (guarded_entryFields location h).bind fun fields hfields => ?_
  refine (guarded_textField ..).bind fun id _ => ?_
  refine (guarded_wholeOf _ _ (writable_field hfields _)).bind fun quantity hquantity => ?_
  refine (guarded_moneyField ..).bind fun amount _ => ?_
  refine (guarded_reasonField hfields _).bind fun reason _ => ?_
  exact guarded_itemWriteOff id hquantity amount reason _

theorem guarded_readWriteOff (c : Currency) (location : String) (h : entry.Writable) :
    Guarded (readWriteOff c.code location entry) fun _ => True := by
  refine (guarded_entryFields location h).bind fun fields hfields => ?_
  refine (guarded_moneyField ..).bind fun amount _ => ?_
  refine (guarded_reasonField hfields _).bind fun reason _ => ?_
  exact guarded_writeOff amount reason _

theorem guarded_readDiscount (c : Currency) (location : String) (h : ∀ e ∈ fields, e.2.Writable) :
    Guarded (readDiscount c.code location fields) fun _ => True := by
  rw [readDiscount]
  dsimp only
  split_ifs
  · exact .error ⟨rfl, rfl⟩
  · refine (guarded_reasonField h _).bind fun reason _ => ?_
    exact (guarded_decimalField ..).bind fun x _ => guarded_percent x reason _
  · refine (guarded_reasonField h _).bind fun reason _ => ?_
    exact (guarded_moneyField ..).bind fun amount _ => guarded_flat amount reason _

/-- A list of entries is read without a fault but the rejections of its entries. -/
theorem guarded_readEntries {α : Type} {read : String → Value → Except Fault α} {P : α → Prop}
    {l : List Value} (h : ∀ location, ∀ entry ∈ l, Guarded (read location entry) P) (key : String)
    (position : ℕ) : Guarded (readEntries read key position l) fun as => ∀ a ∈ as, P a := by
  induction l generalizing position with
  | nil => exact .ok (by simp)
  | cons entry rest ih =>
    refine (h _ entry List.mem_cons_self).bind fun first hfirst => ?_
    refine (ih (fun location e he => h location e (List.mem_cons_of_mem _ he)) _).bind
      fun others hothers => ?_
    exact .ok (List.forall_mem_cons.2 ⟨hfirst, hothers⟩)

/-! ### Discounts -/

theorem guarded_grossRemaining (c : Currency) (h : ∀ item ∈ items, IsShort item.remaining) :
    Guarded (grossRemaining c.code items) fun _ => True := by
  have hadd : ∀ total, Guarded (addRemaining total items) fun _ => True := by
    induction items with
    | nil => exact fun _ => .ok trivial
    | cons item items ih =>
      intro total
      have hitem := h item List.mem_cons_self
      refine (guarded_times item.unitPrice hitem.le).bind fun gross _ => ?_
      have hcurrency : Guarded (gross.requireCurrency total.currency.code "session items")
          fun _ => True := by
        rw [Money.requireCurrency]
        split_ifs
        · exact .ok trivial
        · exact .error ⟨rfl, rfl⟩
      refine hcurrency.bind fun _ _ => (guarded_plus total gross).bind fun total' _ => ?_
      exact ih (fun item' hitem' => h item' (List.mem_cons_of_mem _ hitem')) total'
  rw [grossRemaining, c.ofCode_code]
  exact hadd _

/-- Whether a value is a list or a record, and so no key. -/
def isContainer : Value → Bool
  | .list _ | .record _ => true
  | _ => false

/-- A discount entry is **keyed by a container** if its discount is read and its item is referred to
by a list or a record. -/
def KeyedByContainer (code location : String) (entry : Value) (kind : String) : Prop :=
  ∃ fields discount, entry = .record fields ∧ readDiscount code location fields = .ok discount ∧
    isContainer (field fields "item_id") = true ∧ (field fields "item_id").kind = kind

/-- An item is found by a text, or the reference is rejected, unless it is a list or a record. -/
theorem discountedItem_cases (items : List Item) (location : String) (hv : v.Writable) :
    (∃ id item, v = .text id ∧ item ∈ items ∧ discountedItem items location v = .ok item) ∨
      (∃ f : Fault, f.IsRejection ∧ discountedItem items location v = .error f) ∨
      isContainer v = true ∧ discountedItem items location v = .error (.unusableKey v.kind) := by
  have hunknown : (Fault.discountItem location v).IsRejection :=
    Fault.isRejection_of_short rfl hv.isShort
  cases v with
  | text id =>
    rw [discountedItem]
    split
    · rename_i item hitem
      exact .inl ⟨id, item, rfl, List.mem_reverse.1 (List.mem_of_find?_eq_some hitem), rfl⟩
    · exact .inr (.inl ⟨_, hunknown, rfl⟩)
  | list l => exact .inr (.inr ⟨rfl, rfl⟩)
  | record l => exact .inr (.inr ⟨rfl, rfl⟩)
  | _ => exact .inr (.inl ⟨_, hunknown, rfl⟩)

/-- **Discounts.** A discount entry is resolved, or rejected, or its key is not usable. -/
theorem resolveDiscount_error {f : Fault} (hitems : ∀ item ∈ items, IsShort item.remaining)
    (hentry : entry.Writable) (h : resolveDiscount c.code items location entry = .error f) :
    f.IsRejection ∨ ∃ kind, KeyedByContainer c.code location entry kind ∧
      f = .unusableKey kind := by
  rcases (guarded_entryFields location hentry).error_cases h with hreject |
    ⟨fields, hfields, hwritable, h⟩
  · exact .inl hreject
  rcases (guarded_readDiscount c location hwritable).error_cases h with hreject | ⟨d, hd, -, h⟩
  · exact .inl hreject
  split at h
  · -- a discount on the tab
    refine .inl (Guarded.fault (P := fun _ => True) ?_ f h)
    refine (guarded_grossRemaining c hitems).bind fun base _ => ?_
    exact (guarded_toWriteOff d base).bind fun w _ => .ok trivial
  · rename_i v _
    rcases discountedItem_cases items location (writable_field hwritable "item_id") with
      ⟨id, item, hid, hmem, hitem⟩ | ⟨f', hreject, hitem⟩ | ⟨hcontainer, hitem⟩
    · -- a discount on an item
      rw [hid] at h hitem
      rw [bind_of_eq_ok hitem] at h
      have hquantity : ((Table.findIn "quantity" fields).getD (.whole item.remaining)).Writable := by
        cases hfind : Table.findIn "quantity" fields with
        | none => exact .whole (hitems item hmem)
        | some v => exact writable_of_findIn hwritable hfind
      refine .inl (Guarded.fault (P := fun _ => True) ?_ f h)
      refine (guarded_wholeOf _ _ hquantity).bind fun quantity hshort => ?_
      refine (guarded_timesValue item.unitPrice hshort).bind fun base _ => ?_
      exact (guarded_toItemWriteOff d id hshort base).bind fun w _ => .ok trivial
    · rw [hitem] at h
      cases h
      exact .inl hreject
    · rw [hitem] at h
      cases h
      exact .inr ⟨_, ⟨fields, d, entryFields_eq_ok_iff.1 hfields, hd, hcontainer, rfl⟩, rfl⟩

/-- A discount entry that is keyed by a container is not resolved. -/
theorem resolveDiscount_of_keyed {code kind : String}
    (h : KeyedByContainer code location entry kind) :
    resolveDiscount code items location entry = .error (.unusableKey kind) := by
  obtain ⟨fields, d, rfl, hd, hcontainer, rfl⟩ := h
  rw [resolveDiscount, bind_of_eq_ok (entryFields_eq_ok_iff.2 rfl), bind_of_eq_ok hd]
  cases hkey : field fields "item_id" <;> rw [hkey] at hcontainer <;> first | rfl | cases hcontainer

/-! ### Documents -/

section Entries

variable {α : Type} {read : String → Value → Except Fault α} {before after l : List Value}
  {done : List α} {position : ℕ} {f : Fault}

/-- Entries that are not read stop the reading of their list. -/
theorem readEntries_of_error (hdone : readEntries read key position before = .ok done)
    (hentry : read s!"{key}[{position + before.length}]" entry = .error f) :
    readEntries read key position (before ++ entry :: after) = .error f := by
  induction before generalizing position done with
  | nil =>
    rw [List.nil_append, readEntries]
    rw [List.length_nil, Nat.add_zero] at hentry
    rw [hentry]
    rfl
  | cons first before ih =>
    obtain ⟨a, hfirst, hrest⟩ := bind_eq_ok_iff.1 hdone
    obtain ⟨as, hbefore, -⟩ := bind_eq_ok_iff.1 hrest
    rw [List.length_cons, ← Nat.add_assoc, Nat.add_right_comm] at hentry
    rw [List.cons_append, readEntries, bind_of_eq_ok hfirst, ih hbefore hentry]
    rfl

/-- Reading a list of entries fails where the first of them that is not read does. -/
theorem exists_of_readEntries_error (h : readEntries read key position l = .error f) :
    ∃ before entry after done, l = before ++ entry :: after ∧
      readEntries read key position before = .ok done ∧
      read s!"{key}[{position + before.length}]" entry = .error f := by
  induction l generalizing position with
  | nil => cases h
  | cons entry rest ih =>
    cases hfirst : read s!"{key}[{position}]" entry with
    | error f' =>
      rw [readEntries, hfirst] at h
      cases h
      exact ⟨[], entry, rest, [], rfl, rfl, hfirst⟩
    | ok a =>
      rw [readEntries, bind_of_eq_ok hfirst] at h
      cases hrest : readEntries read key (position + 1) rest with
      | ok as =>
        rw [hrest] at h
        cases h
      | error f' =>
        rw [hrest] at h
        cases h
        obtain ⟨before, entry', after, done, rfl, hdone, hentry⟩ := ih hrest
        refine ⟨entry :: before, entry', after, a :: done, rfl, ?_, ?_⟩
        · rw [readEntries, bind_of_eq_ok hfirst, hdone]
          rfl
        · rwa [List.length_cons, ← Nat.add_assoc, Nat.add_right_comm]

end Entries

/-- A document **stops at a key** if all before one of its discounts is read, and that discount is
keyed by a container. -/
def StopsAtKey (code : String) (document : Value) (kind : String) : Prop :=
  ∃ fields items itemWriteOffs writeOffs before entry after resolved,
    document = .record fields ∧ checkCurrency code (field fields "currency") = .ok () ∧
    (listField fields "items" true >>= readEntries (readItem code) "items" 0) = .ok items ∧
    (listField fields "item_write_offs" false >>=
      readEntries (readItemWriteOff code) "item_write_offs" 0) = .ok itemWriteOffs ∧
    (listField fields "write_offs" false >>= readEntries (readWriteOff code) "write_offs" 0) =
      .ok writeOffs ∧
    listField fields "discounts" false = .ok (before ++ entry :: after) ∧
    readEntries (resolveDiscount code items) "discounts" 0 before = .ok resolved ∧
    KeyedByContainer code s!"discounts[{before.length}]" entry kind

theorem guarded_checkCurrency (code : String) (h : v.Writable) :
    Guarded (checkCurrency code v) fun _ => True := by
  have hrefused : (Fault.declaredCurrency code v).IsRejection :=
    Fault.isRejection_of_short rfl h.isShort
  cases v with
  | null => exact .ok trivial
  | text s =>
    rw [checkCurrency]
    split_ifs
    · exact .ok trivial
    · exact .error hrefused
  | _ => exact .error hrefused

/-- A document that stops at a key is not read. -/
theorem readTab_of_stopsAtKey {code kind : String} {document : Value}
    (h : StopsAtKey code document kind) :
    readTab code document = .error (.unusableKey kind) := by
  obtain ⟨fields, items, itemWriteOffs, writeOffs, before, entry, after, resolved, rfl, hcurrency,
    hitems, hitemWriteOffs, hwriteOffs, hdiscounts, hresolved, hkeyed⟩ := h
  obtain ⟨itemEntries, hitemEntries, hitems⟩ := bind_eq_ok_iff.1 hitems
  obtain ⟨itemWriteOffEntries, hitemWriteOffEntries, hitemWriteOffs⟩ :=
    bind_eq_ok_iff.1 hitemWriteOffs
  obtain ⟨writeOffEntries, hwriteOffEntries, hwriteOffs⟩ := bind_eq_ok_iff.1 hwriteOffs
  have hstop : readEntries (resolveDiscount code items) "discounts" 0 (before ++ entry :: after) =
      .error (.unusableKey kind) := by
    refine readEntries_of_error hresolved (resolveDiscount_of_keyed ?_)
    rwa [Nat.zero_add]
  rw [readTab, bind_of_eq_ok hcurrency, bind_of_eq_ok hitemEntries, bind_of_eq_ok hitems,
    bind_of_eq_ok hitemWriteOffEntries, bind_of_eq_ok hitemWriteOffs,
    bind_of_eq_ok hwriteOffEntries, bind_of_eq_ok hwriteOffs, bind_of_eq_ok hdiscounts, hstop]
  rfl

/-- **Documents.** A document whose values are writable is read, or rejected, or it stops at a
key. -/
theorem readTab_error {document : Value} {f : Fault} (hdocument : document.Writable)
    (h : readTab c.code document = .error f) :
    f.IsRejection ∨ ∃ kind, StopsAtKey c.code document kind ∧ f = .unusableKey kind := by
  cases hdocument with
  | @record fields hall =>
    rcases (guarded_checkCurrency c.code (writable_field hall "currency")).error_cases h with
      hreject | ⟨_, hcurrency, -, h⟩
    · exact .inl hreject
    rcases (guarded_listField hall "items" true).error_cases h with hreject |
      ⟨itemEntries, hitemEntries, hwritable, h⟩
    · exact .inl hreject
    rcases (guarded_readEntries (fun location e he => guarded_readItem c location (hwritable e he))
      "items" 0).error_cases h with hreject | ⟨items, hitems, hshort, h⟩
    · exact .inl hreject
    rcases (guarded_listField hall "item_write_offs" false).error_cases h with hreject |
      ⟨itemWriteOffEntries, hitemWriteOffEntries, hwritable, h⟩
    · exact .inl hreject
    rcases (guarded_readEntries (fun location e he => guarded_readItemWriteOff c location
      (hwritable e he)) "item_write_offs" 0).error_cases h with hreject | ⟨itemWriteOffs,
      hitemWriteOffs, -, h⟩
    · exact .inl hreject
    rcases (guarded_listField hall "write_offs" false).error_cases h with hreject |
      ⟨writeOffEntries, hwriteOffEntries, hwritable, h⟩
    · exact .inl hreject
    rcases (guarded_readEntries (fun location e he => guarded_readWriteOff c location
      (hwritable e he)) "write_offs" 0).error_cases h with hreject | ⟨writeOffs, hwriteOffs, -, h⟩
    · exact .inl hreject
    rcases (guarded_listField hall "discounts" false).error_cases h with hreject |
      ⟨discountEntries, hdiscounts, hwritable, h⟩
    · exact .inl hreject
    -- only a discount can fail with anything else
    cases hresolved : readEntries (resolveDiscount c.code items) "discounts" 0 discountEntries with
    | ok resolved =>
      rw [hresolved] at h
      cases h
    | error f' =>
      rw [hresolved] at h
      cases h
      obtain ⟨before, entry, after, resolved, rfl, hbefore, hentry⟩ :=
        exists_of_readEntries_error hresolved
      refine (resolveDiscount_error hshort (hwritable entry (by simp)) hentry).imp_right ?_
      rintro ⟨kind, hkeyed, rfl⟩
      rw [Nat.zero_add] at hkeyed
      exact ⟨kind, ⟨fields, items, itemWriteOffs, writeOffs, before, entry, after, resolved, rfl,
        hcurrency, bind_eq_ok_iff.2 ⟨_, hitemEntries, hitems⟩,
        bind_eq_ok_iff.2 ⟨_, hitemWriteOffEntries, hitemWriteOffs⟩,
        bind_eq_ok_iff.2 ⟨_, hwriteOffEntries, hwriteOffs⟩, hdiscounts, hbefore, hkeyed⟩, rfl⟩
  | _ =>
    cases h
    exact .inl ⟨rfl, rfl⟩

end Session

end Settlement
