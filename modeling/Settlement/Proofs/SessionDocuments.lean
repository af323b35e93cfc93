import Settlement.Proofs.SessionEntries

/-!
# From a session document to a tab

`Session.readTab_eq_ok_iff` says which tab a document describes: what its entries stand for, each in
its place, and behind the write-offs that are listed those that discounts become. As a discount is
resolved against the items alone, a document with its discounts in another order describes the same
tab but for the order of these write-offs (`Session.readTab_entrywise`).
-/

namespace Settlement.Session

variable {code : String} {document entry : Value} {tab : Tab} {items : List Item}
  {discounts discounts' : List Value} {resolved : List Resolved}

/-! ### Documents and their entries -/

/-- The entries of a document, list by list. -/
structure Entries where
  items : List Value
  itemWriteOffs : List Value
  writeOffs : List Value
  discounts : List Value

/-- A document **consists of** entries if they are what its lists hold, and it declares no other
currency. Only the list of items is required. -/
def ConsistsOf (code : String) (document : Value) (e : Entries) : Prop :=
  ∃ fields, document = .record fields ∧
    (field fields "currency" = .null ∨ field fields "currency" = .text code) ∧
    field fields "items" = .list e.items ∧ Lists fields "item_write_offs" e.itemWriteOffs ∧
    Lists fields "write_offs" e.writeOffs ∧ Lists fields "discounts" e.discounts

private theorem checkCurrency_eq_ok_iff {v : Value} {u : Unit} :
    checkCurrency code v = .ok u ↔ v = .null ∨ v = .text code := by
  cases v <;> simp [checkCurrency]

/-- What holds of all that an entry stands for holds of every member. -/
private theorem forall_mem_of_forall₂ {α : Type} {P : Value → α → Prop} {R : α → Prop}
    {l : List Value} {as : List α} (h : List.Forall₂ P l as) (hR : ∀ e a, P e a → R a) :
    ∀ a ∈ as, R a := by
  induction h with
  | nil => simp
  | cons ha _ ih => exact List.forall_mem_cons.2 ⟨hR _ _ ha, ih⟩

/-- Items that are described are priced in the currency of the document. -/
theorem code_of_describesItem {l : List Value} (h : List.Forall₂ (DescribesItem code) l items) :
    ∀ item ∈ items, item.unitPrice.currency.code = code := by
  refine forall_mem_of_forall₂ h ?_
  rintro entry item ⟨fields, -, -, hprice, -⟩
  exact hprice.1

/-- **Documents.** A document describes a tab if its entries stand for what the tab consists of. -/
theorem readTab_eq_ok_iff :
    readTab code document = .ok tab ↔
      ∃ e items itemWriteOffs writeOffs resolved, ConsistsOf code document e ∧
        List.Forall₂ (DescribesItem code) e.items items ∧
        List.Forall₂ (DescribesItemWriteOff code) e.itemWriteOffs itemWriteOffs ∧
        List.Forall₂ (DescribesWriteOff code) e.writeOffs writeOffs ∧
        List.Forall₂ (Becomes code items) e.discounts resolved ∧
        tab = ⟨code, items, itemWriteOffs ++ itemWriteOffsOf resolved,
          writeOffs ++ writeOffsOf resolved⟩ := by
  have hitems : ∀ l as, readEntries (readItem code) "items" 0 l = .ok as ↔
      List.Forall₂ (DescribesItem code) l as := fun _ _ =>
    readEntries_eq_ok_iff (P := DescribesItem code) (fun _ _ _ => readItem_eq_ok_iff) _ _
  have hitemWriteOffs : ∀ l as,
      readEntries (readItemWriteOff code) "item_write_offs" 0 l = .ok as ↔
        List.Forall₂ (DescribesItemWriteOff code) l as := fun _ _ =>
    readEntries_eq_ok_iff (P := DescribesItemWriteOff code)
      (fun _ _ _ => readItemWriteOff_eq_ok_iff) _ _
  have hwriteOffs : ∀ l as, readEntries (readWriteOff code) "write_offs" 0 l = .ok as ↔
      List.Forall₂ (DescribesWriteOff code) l as := fun _ _ =>
    readEntries_eq_ok_iff (P := DescribesWriteOff code) (fun _ _ _ => readWriteOff_eq_ok_iff) _ _
  have hdiscounts : ∀ {items}, (∀ item ∈ items, item.unitPrice.currency.code = code) → ∀ l as,
      readEntries (resolveDiscount code items) "discounts" 0 l = .ok as ↔
        List.Forall₂ (Becomes code items) l as := fun hcode _ _ =>
    readEntries_eq_ok_iff (P := Becomes code _) (fun _ _ _ => resolveDiscount_eq_ok_iff hcode) _ _
  constructor
  · intro h
    cases document with
    | record fields =>
      simp only [readTab, bind_eq_ok_iff, checkCurrency_eq_ok_iff, listField_required_eq_ok_iff,
        listField_eq_ok_iff, hitems, hitemWriteOffs, hwriteOffs] at h
      obtain ⟨-, hcurrency, itemEntries, hlist, items, hread, itemWriteOffEntries, hlist₁,
        itemWriteOffs, hread₁, writeOffEntries, hlist₂, writeOffs, hread₂, discounts, hlist₃,
        resolved, hread₃, h⟩ := h
      cases h
      exact ⟨⟨_, _, _, _⟩, items, itemWriteOffs, writeOffs, resolved,
        ⟨fields, rfl, hcurrency, hlist, hlist₁, hlist₂, hlist₃⟩, hread, hread₁, hread₂,
        (hdiscounts (code_of_describesItem hread) _ _).1 hread₃, rfl⟩
    | _ => cases h
  · rintro ⟨e, items, itemWriteOffs, writeOffs, resolved, ⟨fields, rfl, hcurrency, hlist, hlist₁,
      hlist₂, hlist₃⟩, hread, hread₁, hread₂, hread₃, rfl⟩
    simp only [readTab, bind_eq_ok_iff, checkCurrency_eq_ok_iff, listField_required_eq_ok_iff,
      listField_eq_ok_iff, hitems, hitemWriteOffs, hwriteOffs]
    exact ⟨(), hcurrency, _, hlist, _, hread, _, hlist₁, _, hread₁, _, hlist₂, _, hread₂, _, hlist₃,
      _, (hdiscounts (code_of_describesItem hread) _ _).2 hread₃, rfl⟩

/-- A tab that is loaded is in the currency that was asked for. -/
theorem code_of_load {path : String} {contents : Option ByteArray}
    (h : load code path contents = .ok tab) : tab.code = code := by
  cases contents with
  | none => cases h
  | some octets =>
    obtain ⟨document, -, h⟩ := bind_eq_ok_iff.1 h
    obtain ⟨e, items, itemWriteOffs, writeOffs, resolved, -, -, -, -, -, rfl⟩ := readTab_eq_ok_iff.1 h
    rfl

/-! ### What discounts become -/

end Settlement.Session
