import Settlement.Proofs.UncheckedValues
import Settlement.Proofs.WrittenAmounts
import Settlement.SelectionText

/-!
# Selections as they are written

A text names a selection if it is an id without a colon, for one unit, or an id and a quantity with
a colon between them, blanks around each of these aside (`SelectionText.Names`). A text is read as
the selection that it names, and as nothing else. For all other texts `SelectionText.Refused` says
which fault they are refused for: the quantity is looked at before the id.

A selection is written as its id, a colon and its quantity. What is written names the selection
again, however many colons its id has, but for blanks around the id (`SelectionText.names_text`).
-/

namespace Settlement

/-! ### Digits -/

section Digits

variable {s : String} {n : ℕ}

/-- Every text starts with digits, maybe with none, and goes on with something else. -/
theorem exists_allDigits_append (cs : List Char) : ∃ digits rest, cs = digits ++ rest ∧
    AllDigits digits ∧ ∀ c ∈ rest.head?, Text.decimalDigit? c = none := by
  induction cs with
  | nil => exact ⟨[], [], rfl, by simp [AllDigits], by simp⟩
  | cons c cs ih =>
    cases hc : Text.decimalDigit? c with
    | none => exact ⟨[], c :: cs, rfl, by simp [AllDigits], by simpa using hc⟩
    | some d =>
      obtain ⟨digits, rest, rfl, hdigits, hrest⟩ := ih
      have hfirst : (Text.decimalDigit? c).isSome = true := hc ▸ rfl
      exact ⟨c :: digits, rest, rfl, List.forall_mem_cons.2 ⟨hfirst, hdigits⟩, hrest⟩

theorem toList_toString (n : ℕ) : (toString n).toList = Decimal.digitChars n := by
  rw [Nat.toString_eq_repr, Nat.toList_repr]
  rfl

theorem length_toString_le_iff {k : ℕ} (hk : 0 < k) : (toString n).length ≤ k ↔ n < pow10 k := by
  rw [← String.length_toList, toList_toString]
  exact Nat.length_toDigits_le_iff (by decide) hk

/-- A text **spells** a number if it is digits of that value, of any script, and not too many. -/
structure Spells (s : String) (n : ℕ) : Prop where
  ne_empty : s ≠ ""
  digits : AllDigits s.toList
  length_le : s.length ≤ Fault.longestWhole
  value : Numeral.valueOf (digitsOf s.toList) = n

/-- A number that is spelled can be written. -/
theorem Spells.length_toString_le (h : Spells s n) :
    (toString n).length ≤ Fault.longestWhole := by
  have hlt : n < pow10 s.length := by
    rw [← h.value, ← String.length_toList, ← length_digitsOf h.digits]
    exact Numeral.valueOf_lt digitsOf_lt
  exact (length_toString_le_iff (by decide)).2 (hlt.trans_le (pow10_le_pow10 h.length_le))

/-- A number that can be written is spelled by what is written. -/
theorem spells_toString (h : (toString n).length ≤ Fault.longestWhole) :
    Spells (toString n) n where
  ne_empty hempty := by
    have hnil := toList_toString n
    rw [hempty] at hnil
    exact Nat.toDigits_ne_nil hnil.symm
  digits := toList_toString n ▸ allDigits_digitChars n
  length_le := h
  value := by rw [toList_toString, valueOf_digitChars]

/-- All characters of a text are digits or digit signs, and there are some. -/
def AllSigns (s : String) : Prop := s ≠ "" ∧ ∀ c ∈ s.toList, Text.isDigit c = true

theorem Spells.allSigns (h : Spells s n) : AllSigns s := by
  refine ⟨h.ne_empty, fun c hc => ?_⟩
  obtain ⟨d, hd⟩ := Option.isSome_iff_exists.1 (h.digits c hc)
  exact Text.isDigit_of_decimalDigit? hd

theorem Spells.isTrimmed (h : Spells s n) : Text.IsTrimmed s.toList := by
  have hne : s.toList ≠ [] := by simpa using h.ne_empty
  have htrimmed := Literal.isTrimmed ⟨s.toList, none, hne, h.digits, by simp⟩
  simpa [Literal.chars] using htrimmed

theorem Spells.not_mem_colon (h : Spells s n) : ':' ∉ s.toList := fun hmem => by
  have hdigit := h.digits ':' hmem
  revert hdigit
  decide

end Digits

namespace Selection

/-- The selection as it is written. -/
def text (sel : Selection) : String := sel.id ++ ":" ++ toString sel.quantity

/-- The selection without the blanks around its id. -/
def trimmed (sel : Selection) : Selection where
  id := Text.trim sel.id
  quantity := sel.quantity
  id_notBlank := (Text.isBlankText_trim _).trans sel.id_notBlank
  quantity_pos := sel.quantity_pos

end Selection

namespace SelectionText

variable {s id quantity selection : String} {n : ℕ} {sel : Selection} {f : Fault}
  {before after : List Char}

/-! ### The last colon -/

private theorem forall_mem_reverse_ne {cs : List Char} (h : ':' ∉ cs) :
    ∀ c ∈ cs.reverse, (c != ':') = true := fun _ hc =>
  bne_iff_ne.2 fun hcolon => h (hcolon ▸ List.mem_reverse.1 hc)

theorem splitLastColon?_of_not_mem {cs : List Char} (h : ':' ∉ cs) :
    splitLastColon? cs = none := by
  have hnot := forall_mem_reverse_ne h
  have hspan : cs.reverse.span (· != ':') = (cs.reverse, []) := by
    rw [List.span_eq_takeWhile_dropWhile, List.takeWhile_eq_self_iff.2 hnot,
      List.dropWhile_eq_nil_iff.2 hnot]
  rw [splitLastColon?, hspan]

theorem splitLastColon?_append (h : ':' ∉ after) :
    splitLastColon? (before ++ ':' :: after) = some (before, after) := by
  have hnot := forall_mem_reverse_ne h
  have hreverse : (before ++ ':' :: after).reverse = after.reverse ++ ':' :: before.reverse := by
    simp
  have hspan : (before ++ ':' :: after).reverse.span (· != ':') =
      (after.reverse, ':' :: before.reverse) := by
    rw [List.span_eq_takeWhile_dropWhile, hreverse, List.takeWhile_append_of_pos hnot,
      List.dropWhile_append_of_pos hnot]
    simp
  rw [splitLastColon?, hspan]
  simp

example : splitLastColon? "menu:starter:2".toList = some ("menu:starter".toList, "2".toList) := by
  decide

/-- A text **splits** into an id and a quantity if these stand before and behind its last colon,
blanks around either aside. -/
def Splits (s id quantity : String) : Prop :=
  ∃ before after, s = before ++ ":" ++ after ∧ ':' ∉ after.toList ∧ id = Text.trim before ∧
    quantity = Text.trim after

theorem exists_splits (h : ':' ∈ s.toList) : ∃ id quantity, Splits s id quantity := by
  -- the last colon is the first one from behind
  obtain ⟨after, before, hs, hafter⟩ := List.eq_append_cons_of_mem (List.mem_reverse.2 h)
  refine ⟨_, _, String.ofList before.reverse, String.ofList after.reverse, ?_, ?_, rfl, rfl⟩
  · rw [← String.toList_inj, ← List.reverse_reverse s.toList, hs]
    simp
  · simpa using hafter

/-! ### What is read -/

theorem readText_of_isBlankText (h : Text.isBlankText s = true) :
    readText s = .error .emptySelectionText := by
  rw [readText, Text.isBlankText_iff.1 h]
  rfl

private theorem isEmpty_trimChars (h : Text.isBlankText s = false) :
    (Text.trimChars s.toList).isEmpty = false := by
  rw [List.isEmpty_eq_false_iff]
  exact fun hnil => Bool.false_ne_true (h.symm.trans (Text.isBlankText_iff.2 hnil))

/-- A text without a colon is an id. -/
theorem readText_of_not_mem (h : Text.isBlankText s = false) (hcolon : ':' ∉ s.toList) :
    readText s = Selection.ofValues (.text (Text.trim s)) (.whole 1) := by
  have hnot : ':' ∉ Text.trimChars s.toList := by
    obtain ⟨left, right, -, -, hs⟩ := Text.exists_blanks s.toList
    rw [hs] at hcolon
    exact fun hmem => hcolon (by simp [hmem])
  rw [readText]
  dsimp only
  rw [isEmpty_trimChars h, if_neg Bool.false_ne_true, splitLastColon?_of_not_mem hnot]
  rfl

/-- A text with a colon is an id and a quantity. That blanks are first taken from the ends of the
whole text makes no difference to either. -/
theorem readText_of_splits (h : Splits s id quantity) :
    readText s = readQuantity (Text.trim s) quantity >>= fun n =>
      Selection.ofValues (.text id) (.whole n) := by
  obtain ⟨before, after, rfl, hafter, rfl, rfl⟩ := h
  have hchars : (before ++ ":" ++ after).toList = before.toList ++ ':' :: after.toList := by simp
  have hcolon : Text.isBlank ':' = false := by decide
  have hblank : Text.isBlankText (before ++ ":" ++ after) = false := by
    rw [Text.isBlankText, hchars, List.all_eq_false]
    exact ⟨':', by simp, by simp [hcolon]⟩
  have hnot : ':' ∉ after.toList.rdropWhile Text.isBlank := fun hmem =>
    hafter ((List.rdropWhile_prefix Text.isBlank _).subset hmem)
  have htrim := Text.trimChars_append_cons hcolon before.toList after.toList
  have hsplit : splitLastColon? (Text.trimChars (before ++ ":" ++ after).toList) =
      some (before.toList.dropWhile Text.isBlank, after.toList.rdropWhile Text.isBlank) := by
    rw [hchars, htrim, splitLastColon?_append hnot]
  rw [readText]
  dsimp only
  rw [isEmpty_trimChars hblank, if_neg Bool.false_ne_true, hsplit]
  dsimp only
  rw [Text.trimChars_dropWhile, Text.trimChars_rdropWhile]
  rfl

/-! ### Quantities -/

/-- What a written quantity is refused for: it has another character than digits and digit signs, or
none at all; or else it starts with too many digits; or else a digit sign stands behind these. -/
inductive QuantityFault (selection quantity : String) : Fault → Prop
  | form : ¬ AllSigns quantity →
      QuantityFault selection quantity (.selectionQuantity quantity selection)
  | long (digits rest : List Char) : AllSigns quantity → quantity.toList = digits ++ rest →
      AllDigits digits → (∀ c ∈ rest.head?, Text.decimalDigit? c = none) →
      Fault.longestWhole < digits.length →
      QuantityFault selection quantity (.longDigitString digits.length)
  | sign (digits : List Char) (c : Char) (rest : List Char) : AllSigns quantity →
      quantity.toList = digits ++ c :: rest → AllDigits digits → Text.decimalDigit? c = none →
      digits.length ≤ Fault.longestWhole →
      QuantityFault selection quantity (.notADigitString quantity)

theorem readQuantity_of_not_allSigns (h : ¬ AllSigns quantity) :
    readQuantity selection quantity = .error (.selectionQuantity quantity selection) := by
  have hrefused : (quantity.isEmpty || !quantity.toList.all Text.isDigit) = true := by
    rw [AllSigns, not_and_or, not_not, ← List.all_eq_true, ← String.isEmpty_iff] at h
    simpa using h
  rw [readQuantity, if_pos hrefused]

theorem readQuantity_of_allSigns (h : AllSigns quantity) {digits rest : List Char}
    (hquantity : quantity.toList = digits ++ rest) (hdigits : AllDigits digits)
    (hrest : ∀ c ∈ rest.head?, Text.decimalDigit? c = none) :
    readQuantity selection quantity =
      if Fault.longestWhole < digits.length then .error (.longDigitString digits.length)
      else if rest.isEmpty then .ok (Numeral.valueOf (digitsOf digits))
      else .error (.notADigitString quantity) := by
  have haccepted : ¬ (quantity.isEmpty || !quantity.toList.all Text.isDigit) = true := by
    have hall := List.all_eq_true.2 h.2
    simpa [hall] using h.1
  rw [readQuantity, if_neg haccepted, readDigits, hquantity,
    Numeral.spanDigits_append hdigits hrest]
  dsimp only
  rw [length_digitsOf hdigits]

theorem readQuantity_of_spells (h : Spells quantity n) :
    readQuantity selection quantity = .ok n := by
  have hquantity : quantity.toList = quantity.toList ++ [] := (List.append_nil _).symm
  have hshort : ¬ Fault.longestWhole < quantity.toList.length := by
    rw [String.length_toList]
    exact not_lt.2 h.length_le
  rw [readQuantity_of_allSigns h.allSigns hquantity h.digits (by simp), if_neg hshort,
    if_pos List.isEmpty_nil, h.value]

theorem readQuantity_of_fault (h : QuantityFault selection quantity f) :
    readQuantity selection quantity = .error f := by
  cases h with
  | form hsigns => exact readQuantity_of_not_allSigns hsigns
  | long digits rest hsigns hquantity hdigits hrest hlong =>
    rw [readQuantity_of_allSigns hsigns hquantity hdigits hrest, if_pos hlong]
  | sign digits c rest hsigns hquantity hdigits hc hshort =>
    rw [readQuantity_of_allSigns hsigns hquantity hdigits (by simpa using hc),
      if_neg (not_lt.2 hshort)]
    rfl

/-- A written quantity spells a number, or is refused. -/
theorem spells_or_fault (selection quantity : String) :
    (∃ n, Spells quantity n) ∨ ∃ f, QuantityFault selection quantity f := by
  by_cases hsigns : AllSigns quantity
  · obtain ⟨digits, rest, hquantity, hdigits, hrest⟩ := exists_allDigits_append quantity.toList
    rcases lt_or_ge Fault.longestWhole digits.length with hlong | hshort
    · exact .inr ⟨_, .long digits rest hsigns hquantity hdigits hrest hlong⟩
    · cases rest with
      | nil =>
        rw [List.append_nil] at hquantity
        refine .inl ⟨_, hsigns.1, hquantity ▸ hdigits, ?_, rfl⟩
        rwa [← String.length_toList, hquantity]
      | cons c rest =>
        exact .inr ⟨_, .sign digits c rest hsigns hquantity hdigits (hrest c rfl) hshort⟩
  · exact .inr ⟨_, .form hsigns⟩

/-! ### Selections -/

/-- A text **names** a selection: it is the id, without a colon, of a selection of one unit; or it
splits into the id and a spelling of the quantity. -/
inductive Names (s : String) (sel : Selection) : Prop
  | single : ':' ∉ s.toList → sel.id = Text.trim s → sel.quantity = 1 → Names s sel
  | counted (quantity : String) : Splits s sel.id quantity → Spells quantity sel.quantity →
      Names s sel

/-- What a text is **refused** for: it is blank; or else its quantity is refused; or else there is
no id before the colon; or else the quantity is zero. -/
inductive Refused (s : String) : Fault → Prop
  | blank : Text.isBlankText s = true → Refused s .emptySelectionText
  | quantity (id quantity : String) (f : Fault) : Splits s id quantity →
      QuantityFault (Text.trim s) quantity f → Refused s f
  | noId (quantity : String) (n : ℕ) : Splits s "" quantity → Spells quantity n →
      Refused s (.itemId (.text ""))
  | zero (id quantity : String) : Splits s id quantity → id ≠ "" → Spells quantity 0 →
      Refused s (.quantityNotPositive 0)

theorem Splits.trim_id (h : Splits s id quantity) : Text.trim id = id := by
  obtain ⟨before, after, -, -, rfl, -⟩ := h
  exact Text.trim_trim before

theorem Names.trim_id (h : Names s sel) : Text.trim sel.id = sel.id := by
  cases h with
  | single _ hid _ => rw [hid, Text.trim_trim]
  | counted _ hsplits _ => exact hsplits.trim_id

theorem Names.length_quantity_le (h : Names s sel) :
    (toString sel.quantity).length ≤ Fault.longestWhole := by
  cases h with
  | single _ _ hone =>
    rw [hone]
    decide
  | counted _ _ hspells => exact hspells.length_toString_le

theorem readText_of_names (h : Names s sel) : readText s = .ok sel := by
  cases h with
  | single hcolon hid hone =>
    have hblank : Text.isBlankText s = false := by
      rw [← Text.isBlankText_trim, ← hid, sel.id_notBlank]
    rw [readText_of_not_mem hblank hcolon]
    exact Selection.ofValues_eq_ok_iff.2 ⟨hid, by rw [hone]; rfl⟩
  | counted quantity hsplits hspells =>
    rw [readText_of_splits hsplits]
    exact bind_eq_ok_iff.2
      ⟨_, readQuantity_of_spells hspells, Selection.ofValues_eq_ok_iff.2 ⟨rfl, rfl⟩⟩

/-- A trimmed id is blank only if it is empty. -/
theorem Splits.isBlankText_eq_false (h : Splits s id quantity) (hne : id ≠ "") :
    Text.isBlankText id = false := by
  rw [← Bool.not_eq_true, Text.isBlankText_iff]
  intro hnil
  have htrim := h.trim_id
  rw [Text.trim, hnil] at htrim
  exact hne htrim.symm

theorem readText_of_refused (h : Refused s f) : readText s = .error f := by
  cases h with
  | blank hblank => exact readText_of_isBlankText hblank
  | quantity id quantity f hsplits hfault =>
    rw [readText_of_splits hsplits]
    exact bind_eq_error_iff.2 (.inl (readQuantity_of_fault hfault))
  | noId quantity n hsplits hspells =>
    rw [readText_of_splits hsplits, bind_of_eq_ok (readQuantity_of_spells hspells)]
    exact Selection.ofValues_eq_error_iff.2 (.inl ⟨rfl, rfl⟩)
  | zero id quantity hsplits hid hspells =>
    rw [readText_of_splits hsplits, bind_of_eq_ok (readQuantity_of_spells hspells)]
    exact Selection.ofValues_eq_error_iff.2 (.inr ⟨hsplits.isBlankText_eq_false hid, le_rfl, rfl⟩)

/-- Every text names a selection or is refused. -/
theorem names_or_refused (s : String) : (∃ sel, Names s sel) ∨ ∃ f, Refused s f := by
  cases hblank : Text.isBlankText s with
  | true => exact .inr ⟨_, .blank hblank⟩
  | false =>
    by_cases hcolon : ':' ∈ s.toList
    · obtain ⟨id, quantity, hsplits⟩ := exists_splits hcolon
      rcases spells_or_fault (Text.trim s) quantity with ⟨n, hspells⟩ | ⟨f, hfault⟩
      · rcases eq_or_ne id "" with rfl | hid
        · exact .inr ⟨_, .noId quantity n hsplits hspells⟩
        rcases Nat.eq_zero_or_pos n with rfl | hpos
        · exact .inr ⟨_, .zero id quantity hsplits hid hspells⟩
        · exact .inl ⟨⟨id, n, hsplits.isBlankText_eq_false hid, hpos⟩,
            .counted quantity hsplits hspells⟩
      · exact .inr ⟨f, .quantity id quantity f hsplits hfault⟩
    · exact .inl ⟨⟨Text.trim s, 1, (Text.isBlankText_trim s).trans hblank, Nat.one_pos⟩,
        .single hcolon rfl rfl⟩

/-- **Reading.** A text is read as the selection that it names. -/
theorem readText_eq_ok_iff : readText s = .ok sel ↔ Names s sel :=
  (outcome_iff (fun _ => readText_of_names) (fun _ => readText_of_refused)
    (names_or_refused s)).1 sel

/-- **Refusals.** A text that names no selection is refused for the first thing that is wrong. -/
theorem readText_eq_error_iff : readText s = .error f ↔ Refused s f :=
  (outcome_iff (fun _ => readText_of_names) (fun _ => readText_of_refused)
    (names_or_refused s)).2 f

/-- A refusal is about the form of the text, or about a value that no selection has. -/
theorem Refused.category (h : Refused s f) :
    f.reported = f ∧ (f.category = .malformedText ∨ f.category = .validation) := by
  cases h with
  | blank => exact ⟨rfl, .inl rfl⟩
  | quantity _ _ _ _ hfault => cases hfault <;> exact ⟨rfl, .inl rfl⟩
  | noId => exact ⟨rfl, .inr rfl⟩
  | zero =>
    have hshort : ¬ pow10 Fault.longestWhole ≤ 0 := (pow10_pos _).not_ge
    exact ⟨by simp [Fault.reported, Fault.wholes, hshort], .inr rfl⟩

/-! ### Written again -/

/-- A selection as it is written names the selection without the blanks around its id. -/
theorem names_text (h : (toString sel.quantity).length ≤ Fault.longestWhole) :
    Names sel.text sel.trimmed := by
  have hspells := spells_toString h
  refine .counted (toString sel.quantity) ?_ hspells
  refine ⟨sel.id, toString sel.quantity, rfl, hspells.not_mem_colon, rfl, ?_⟩
  rw [Text.trim, Text.trimChars_of_isTrimmed hspells.isTrimmed, String.ofList_toList]

theorem trimmed_eq (h : Text.trim sel.id = sel.id) : sel.trimmed = sel := by
  obtain ⟨id, quantity, hid, hquantity⟩ := sel
  rw [Selection.trimmed, Selection.mk.injEq]
  exact ⟨h, rfl⟩

/-- **Written selections.** A selection whose quantity does not have too many digits is read again
as it was written, without the blanks around its id; so is the id of a selection of one unit, if
there is no colon in it. Whatever is read of a text has an id that is neither blank nor has blanks
around it, and a positive quantity that can be written; and it is read again as it is. All other
texts are refused, for their form or for a value that no selection has. -/
theorem readText_roundTrip :
    (∀ sel : Selection, (toString sel.quantity).length ≤ Fault.longestWhole →
      readText sel.text = .ok sel.trimmed) ∧
    (∀ sel : Selection, sel.quantity = 1 → ':' ∉ sel.id.toList →
      readText sel.id = .ok sel.trimmed) ∧
    (∀ s sel, readText s = .ok sel →
      Text.isBlankText sel.id = false ∧ Text.trim sel.id = sel.id ∧ 0 < sel.quantity ∧
        (toString sel.quantity).length ≤ Fault.longestWhole ∧ readText sel.text = .ok sel) ∧
    ∀ s, (∃ sel, readText s = .ok sel) ∨ ∃ f, readText s = .error f ∧ f.reported = f ∧
      (f.category = .malformedText ∨ f.category = .validation) := by
  have hwritten : ∀ sel : Selection, (toString sel.quantity).length ≤ Fault.longestWhole →
      readText sel.text = .ok sel.trimmed := fun _ h => readText_eq_ok_iff.2 (names_text h)
  refine ⟨hwritten, fun sel hone hcolon => ?_, fun s sel h => ?_, fun s => ?_⟩
  · exact readText_eq_ok_iff.2 (.single hcolon rfl hone)
  · have hnames := readText_eq_ok_iff.1 h
    refine ⟨sel.id_notBlank, hnames.trim_id, sel.quantity_pos, hnames.length_quantity_le, ?_⟩
    rw [hwritten sel hnames.length_quantity_le, trimmed_eq hnames.trim_id]
  · rcases names_or_refused s with ⟨sel, hnames⟩ | ⟨f, hrefused⟩
    · exact .inl ⟨sel, readText_eq_ok_iff.2 hnames⟩
    · exact .inr ⟨f, readText_eq_error_iff.2 hrefused, hrefused.category⟩

/-- The starter of a menu, written with a colon in its id and blanks around it, is read as it was
written. A quantity in Arabic digits is read too, and then written in the common ones. -/
theorem readText_roundTrip_menu :
    let starter : Selection := ⟨" menu:starter ", 12, by decide, by decide⟩
    let burger : Selection := ⟨" burger", 1, by decide, by decide⟩
    let tea : Selection := ⟨"tea", 3, by decide, by decide⟩
    (toString starter.quantity).length ≤ Fault.longestWhole ∧
      starter.text = " menu:starter :12" ∧ starter.trimmed.id = "menu:starter" ∧
      readText starter.text = .ok starter.trimmed ∧
      ':' ∉ burger.id.toList ∧ burger.trimmed.id = "burger" ∧
      readText burger.id = .ok burger.trimmed ∧
      readText "tea : ٣" = .ok tea ∧ tea.text = "tea:3" ∧ readText tea.text = .ok tea := by
  intro starter burger tea
  have hquantity : (toString starter.quantity).length ≤ Fault.longestWhole := by decide
  have hcolon : ':' ∉ burger.id.toList := by decide
  have hsplits : Splits "tea : ٣" tea.id "٣" := ⟨"tea ", " ٣", rfl, by decide, rfl, rfl⟩
  have hspells : Spells "٣" tea.quantity := ⟨by decide, by decide, by decide, rfl⟩
  have htea : readText "tea : ٣" = .ok tea := readText_eq_ok_iff.2 (.counted "٣" hsplits hspells)
  obtain ⟨hwritten, hsingle, hread, -⟩ := readText_roundTrip
  obtain ⟨-, -, -, -, hagain⟩ := hread _ tea htea
  exact ⟨hquantity, by decide, by decide, hwritten starter hquantity, hcolon, by decide,
    hsingle burger rfl hcolon, htea, by decide, hagain⟩

end SelectionText

end Settlement
