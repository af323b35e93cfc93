import Settlement.AmountText
import Settlement.Proofs.Blanks
import Settlement.Proofs.WrittenNumbers

/-!
# Amounts as they are written

A `Literal` is digits, maybe with a point and more digits behind it. However it is dressed up, with
currency symbols and commas anywhere in it, with blanks around it and a code of three letters behind
it, it is read as the number that its digits spell (`AmountText.readText_dressed`). Only the range of
exponents bounds what is read, and no literal of fewer than `10 ^ 18` digits leaves it.

Money is written as such a literal with a code behind it, so that it is read as it was
(`AmountText.readText_text`).
-/

namespace Settlement

/-! ### Characters -/

namespace Text

variable {c : Char}

/-- A character is **plain** if it has no part in a numeral but as a digit. -/
private def isPlain (c : Char) : Bool :=
  !isBlank c && !isLetter c && !AmountText.isSymbol c && c != ',' && c != '_' && c != '(' &&
    c != '-' && c != '+' && c.toLower != 'i' && c.toLower != 'n' && c.toLower != 's'

private theorem isPlain_of_digit (h : (decimalDigit? c).isSome = true) : isPlain c = true := by
  have hall : ∀ low ∈ decimalZeros, ∀ i < 10, isPlain (Char.ofNat (low + i)) = true := by
    decide +kernel
  obtain ⟨d, hd⟩ := Option.isSome_iff_exists.1 h
  obtain ⟨low, hfind, -⟩ := Option.map_eq_some_iff.1 hd
  have hbounds := List.find?_some hfind
  rw [Bool.and_eq_true, decide_eq_true_iff, decide_eq_true_iff] at hbounds
  have hplain := hall low (List.mem_of_find?_eq_some hfind) (c.toNat - low) (by omega)
  rwa [Nat.add_sub_cancel' hbounds.1, Char.ofNat_toNat] at hplain

theorem not_isSymbol_of_isBlank (h : isBlank c = true) : AmountText.isSymbol c = false := by
  by_contra hsymbol
  simp only [AmountText.isSymbol, Bool.not_eq_false, Bool.or_eq_true, beq_iff_eq] at hsymbol
  rcases hsymbol with ((rfl | rfl) | rfl) | rfl <;> revert h <;> decide

/-- Letters are neither blanks nor symbols. -/
private theorem of_isLetter (h : isLetter c = true) :
    isBlank c = false ∧ AmountText.isSymbol c = false := by
  have hall : ∀ n < 128, isLetter (Char.ofNat n) = true →
      isBlank (Char.ofNat n) = false ∧ AmountText.isSymbol (Char.ofNat n) = false := by
    decide +kernel
  have hle : ∀ top : Char, c ≤ top → c.toNat ≤ top.toNat := fun _ hc => hc
  have hlt : c.toNat < 128 := by
    simp only [isLetter, isCapital, Bool.or_eq_true, Bool.and_eq_true, decide_eq_true_eq] at h
    rcases h with ⟨-, hc⟩ | ⟨-, hc⟩ <;> exact (hle _ hc).trans_lt (by decide)
  have hchar := hall c.toNat hlt
  rw [Char.ofNat_toNat] at hchar
  exact hchar h

end Text

/-! ### Literals -/

/-- All characters are decimal digits, of any script. -/
def AllDigits (cs : List Char) : Prop := ∀ c ∈ cs, (Text.decimalDigit? c).isSome = true

instance (cs : List Char) : Decidable (AllDigits cs) := List.decidableBAll _ _

/-- The values of the digits among characters. -/
def digitsOf (cs : List Char) : List ℕ := cs.filterMap Text.decimalDigit?

@[simp] theorem digitsOf_nil : digitsOf [] = [] := rfl

theorem digitsOf_append (cs cs' : List Char) : digitsOf (cs ++ cs') = digitsOf cs ++ digitsOf cs' :=
  List.filterMap_append

theorem digitsOf_lt {cs : List Char} : ∀ d ∈ digitsOf cs, d < 10 := by
  intro d hd
  obtain ⟨c, -, hc⟩ := List.mem_filterMap.1 hd
  exact Text.decimalDigit?_lt hc

theorem length_digitsOf {cs : List Char} (h : AllDigits cs) : (digitsOf cs).length = cs.length := by
  induction cs with
  | nil => rfl
  | cons c cs ih =>
    obtain ⟨d, hd⟩ := Option.isSome_iff_exists.1 (h c List.mem_cons_self)
    rw [digitsOf, List.filterMap_cons_some hd, List.length_cons, List.length_cons]
    exact congrArg _ (ih fun c' hc' => h c' (List.mem_cons_of_mem c hc'))

/-- A plain literal: digits, and maybe a point with more digits behind it. -/
structure Literal where
  whole : List Char
  places : Option (List Char)
  whole_ne_nil : whole ≠ []
  whole_digits : AllDigits whole
  places_digits : ∀ cs ∈ places, AllDigits cs

namespace Literal

/-- The digits behind the point. -/
def fraction (l : Literal) : List Char := l.places.getD []

/-- The literal as it is written. -/
def chars (l : Literal) : List Char :=
  l.whole ++ (l.places.map ('.' :: ·)).getD []

/-- The number that the digits spell. -/
def decimal (l : Literal) : Decimal :=
  ⟨false, Numeral.valueOf (digitsOf (l.whole ++ l.fraction)), -l.fraction.length⟩

theorem fraction_digits (l : Literal) : AllDigits l.fraction := by
  rw [fraction]
  cases hplaces : l.places with
  | none => exact fun c hc => nomatch hc
  | some cs => exact l.places_digits cs hplaces

/-- A character of a literal is a digit or the point. -/
theorem of_mem_chars {l : Literal} {c : Char} (h : c ∈ l.chars) :
    (Text.decimalDigit? c).isSome = true ∨ c = '.' := by
  rw [chars, List.mem_append] at h
  rcases h with h | h
  · exact .inl (l.whole_digits c h)
  · cases hplaces : l.places with
    | none =>
      rw [hplaces] at h
      cases h
    | some cs =>
      rw [hplaces] at h
      rcases List.mem_cons.1 h with rfl | h
      · exact .inr rfl
      · exact .inl (l.places_digits cs hplaces c h)

/-- A literal starts with a digit. -/
theorem exists_head (l : Literal) :
    ∃ c rest, l.chars = c :: rest ∧ (Text.decimalDigit? c).isSome = true := by
  rw [chars]
  have hdigits := l.whole_digits
  cases hwhole : l.whole with
  | nil => exact absurd hwhole l.whole_ne_nil
  | cons c rest => exact ⟨c, _, rfl, hdigits c (hwhole ▸ List.mem_cons_self)⟩

end Literal

/-! ### Reading literals -/

namespace Numeral

theorem spanDigits_append {cs rest : List Char} (hcs : AllDigits cs)
    (hrest : ∀ c ∈ rest.head?, Text.decimalDigit? c = none) :
    spanDigits (cs ++ rest) = (digitsOf cs, rest) := by
  induction cs with
  | nil =>
    cases rest with
    | nil => rfl
    | cons c rest =>
      rw [List.nil_append, spanDigits, hrest c rfl]
      rfl
  | cons c cs ih =>
    obtain ⟨d, hd⟩ := Option.isSome_iff_exists.1 (hcs c List.mem_cons_self)
    rw [List.cons_append, spanDigits, hd, ih fun c' hc' => hcs c' (List.mem_cons_of_mem c hc'),
      digitsOf, digitsOf, List.filterMap_cons_some hd]

/-- A literal is read digit by digit. -/
theorem mantissa?_literal (l : Literal) :
    mantissa? l.chars = some (digitsOf (l.whole ++ l.fraction), l.fraction.length, []) := by
  have hne : (digitsOf l.whole).isEmpty = false := by
    rw [List.isEmpty_eq_false_iff, ← List.length_pos_iff, length_digitsOf l.whole_digits]
    exact List.length_pos_iff.2 l.whole_ne_nil
  have hall : ∀ {cs}, AllDigits cs → spanDigits cs = (digitsOf cs, []) := by
    intro cs hcs
    have hspan : spanDigits (cs ++ []) = (digitsOf cs, []) := spanDigits_append hcs (by simp)
    rwa [List.append_nil] at hspan
  rw [mantissa?, Literal.chars, Literal.fraction, digitsOf_append]
  cases hplaces : l.places with
  | none =>
    rw [Option.map_none, Option.getD_none, List.append_nil, hall l.whole_digits]
    simp [hne]
  | some cs =>
    have hcs := l.places_digits cs hplaces
    rw [Option.map_some, Option.getD_some, spanDigits_append l.whole_digits (by simp; decide)]
    simp [hall hcs, hne, length_digitsOf hcs]

/-- **Literals.** An unsigned literal is read as the number that its digits spell, if that is in
range. -/
theorem unsigned?_literal (l : Literal) :
    unsigned? false l.chars = if inRange l.decimal then some (.finite l.decimal) else none := by
  have hfinite : finite? false l.chars =
      if inRange l.decimal then some (.finite l.decimal) else none := by
    rw [finite?, mantissa?_literal]
    change (if inRange ⟨false, _, 0 - (l.fraction.length : ℤ)⟩ then some (Numeric.finite _) else _) = _
    rw [zero_sub]
    rfl
  obtain ⟨c, rest, hchars, hc⟩ := l.exists_head
  have hplain := Text.isPlain_of_digit hc
  simp only [Text.isPlain, Bool.and_eq_true, bne_iff_ne] at hplain
  obtain ⟨⟨⟨-, hi⟩, hn⟩, hs⟩ := hplain
  -- a digit starts none of the words for what is no number
  rw [unsigned?, hchars, List.map_cons]
  split
  · rename_i heq
    exact absurd (List.cons.inj heq).1 hi
  · rename_i heq
    exact absurd (List.cons.inj heq).1 hi
  · rename_i heq
    exact absurd (List.cons.inj heq).1 hn
  · rename_i heq
    exact absurd (List.cons.inj heq).1 hs
  · rw [← hchars, hfinite]

end Numeral

/-- The characters of a literal are no blanks, and stand for nothing else in a written amount. -/
theorem Literal.of_mem {l : Literal} {c : Char} (h : c ∈ l.chars) :
    Text.isBlank c = false ∧ Text.isLetter c = false ∧ AmountText.isSymbol c = false ∧ c ≠ ',' ∧
      c ≠ '_' ∧ c ≠ '(' := by
  rcases Literal.of_mem_chars h with hc | rfl
  · have hplain := Text.isPlain_of_digit hc
    simp only [Text.isPlain, Bool.and_eq_true, bne_iff_ne, Bool.not_eq_true'] at hplain
    tauto
  · decide

theorem Literal.isTrimmed (l : Literal) : Text.IsTrimmed l.chars where
  head _ hc := (of_mem (List.mem_of_mem_head? hc)).1
  last _ hc := (of_mem (List.mem_of_mem_getLast? hc)).1

/-- **Numerals.** A literal denotes the number that its digits spell, if that is in range. -/
theorem Numeric.ofText?_literal (l : Literal) :
    ofText? (String.ofList l.chars) =
      if Numeral.inRange l.decimal then some (.finite l.decimal) else none := by
  have hfilter : l.chars.filter (· != '_') = l.chars :=
    List.filter_eq_self.2 fun c hc => bne_iff_ne.2 (Literal.of_mem hc).2.2.2.2.1
  obtain ⟨c, rest, hchars, hc⟩ := l.exists_head
  have hsign : Numeral.spanSign l.chars = (false, l.chars) := by
    have hplain := Text.isPlain_of_digit hc
    simp only [Text.isPlain, Bool.and_eq_true, bne_iff_ne] at hplain
    obtain ⟨⟨⟨⟨⟨-, hminus⟩, hplus⟩, -⟩, -⟩, -⟩ := hplain
    rw [hchars, Numeral.spanSign.eq_def]
    split
    · rename_i heq
      exact absurd (List.cons.inj heq).1 hminus
    · rename_i heq
      exact absurd (List.cons.inj heq).1 hplus
    · rfl
  rw [ofText?, String.toList_ofList, Text.trimChars_of_isTrimmed l.isTrimmed, hfilter, hsign]
  exact Numeral.unsigned?_literal l

/-- A number below a power of ten has no more digits than the power has zeros, or one. -/
private theorem digitCount_le {n k : ℕ} (h : n < pow10 k) (hk : 0 < k) : digitCount n ≤ k := by
  rcases Nat.eq_zero_or_pos n with rfl | hpos
  · exact (show digitCount 0 = 1 by decide +kernel).trans_le hk
  · by_contra hlt
    have hpow := pow10_le_pow10 (show k ≤ digitCount n - 1 by omega)
    exact absurd h (not_lt.2 (hpow.trans (pow10_digitCount_le hpos)))

/-- **Range.** A literal of fewer than `10 ^ 18` digits is in range. -/
theorem Literal.inRange (l : Literal) (h : (l.whole ++ l.fraction).length < 10 ^ 18) :
    Numeral.inRange l.decimal = true := by
  have hall : AllDigits (l.whole ++ l.fraction) := fun c hc =>
    (List.mem_append.1 hc).elim (l.whole_digits c) (l.fraction_digits c)
  have hlen := length_digitsOf hall
  have hwhole := List.length_pos_iff.2 l.whole_ne_nil
  have hlt : l.decimal.coefficient < pow10 (l.whole ++ l.fraction).length :=
    hlen ▸ Numeral.valueOf_lt digitsOf_lt
  have hcount := digitCount_le hlt (by rw [List.length_append]; omega)
  rw [List.length_append] at hcount h
  rw [Numeral.inRange, Bool.and_eq_true, decide_eq_true_iff, decide_eq_true_iff]
  have hexponent : l.decimal.exponent = -l.fraction.length := rfl
  rw [Decimal.leading, hexponent, Numeral.largestLeading, Numeral.leastExponent]
  constructor <;> omega

/-! ### Written amounts -/

namespace AmountText

variable {l : Literal} {written left mid right code : List Char}

/-- A text **dresses** a literal if it is the literal with symbols and commas put in anywhere. -/
def Dresses (l : Literal) (written : List Char) : Prop :=
  written.filter (fun c => c != ',' && !isSymbol c) = l.chars

instance (l : Literal) (written : List Char) : Decidable (Dresses l written) :=
  inferInstanceAs (Decidable (_ = _))

/-- A text is a **code** if it is three letters. -/
def IsCode (code : List Char) : Prop :=
  code.length = 3 ∧ ∀ c ∈ code, Text.isLetter c = true

/-- A character of a dressed literal is one of the literal, a symbol or a comma. -/
theorem Dresses.of_mem (h : Dresses l written) {c : Char} (hc : c ∈ written) :
    c ∈ l.chars ∨ isSymbol c = true ∨ c = ',' := by
  by_cases hkept : (c != ',' && !isSymbol c) = true
  · exact .inl (h ▸ List.mem_filter.2 ⟨hc, hkept⟩)
  · rw [Bool.and_eq_true, not_and_or] at hkept
    exact .inr (hkept.symm.imp (by simp) (by simp))

/-- A dressed literal has neither blanks nor letters nor a parenthesis. -/
theorem Dresses.not_blank (h : Dresses l written) {c : Char} (hc : c ∈ written) :
    Text.isBlank c = false ∧ Text.isLetter c = false ∧ c ≠ '(' := by
  rcases h.of_mem hc with hmem | hsymbol | rfl
  · obtain ⟨hblank, hletter, -, -, -, hparen⟩ := Literal.of_mem hmem
    exact ⟨hblank, hletter, hparen⟩
  · simp only [isSymbol, Bool.or_eq_true, beq_iff_eq] at hsymbol
    rcases hsymbol with ((rfl | rfl) | rfl) | rfl <;> decide
  · decide

theorem Dresses.ne_nil (h : Dresses l written) : written ≠ [] := by
  rintro rfl
  obtain ⟨c, rest, hchars, -⟩ := l.exists_head
  rw [Dresses, hchars] at h
  cases h

/-- A code at the end is dropped together with the blanks before it. -/
theorem dropCode_append {cs : List Char} (hcs : ∀ c ∈ cs.getLast?, Text.isBlank c = false)
    (hmid : ∀ c ∈ mid, Text.isBlank c = true) (hcode : IsCode code) :
    dropCode (cs ++ mid ++ code) = cs := by
  obtain ⟨hlen, hletters⟩ := hcode
  obtain ⟨x, y, z, rfl⟩ := List.length_eq_three.1 hlen
  have hx := hletters x (by simp)
  have hy := hletters y (by simp)
  have hz := hletters z (by simp)
  have hrev : (cs ++ mid ++ [x, y, z]).reverse = z :: y :: x :: (mid.reverse ++ cs.reverse) := by
    simp
  have hatEnd : dropCodeAtEnd (cs ++ mid ++ [x, y, z]) = cs := by
    rw [dropCodeAtEnd, hrev]
    dsimp only
    rw [if_pos (by rw [hx, hy, hz]; rfl), Text.dropWhile_append_of_blank (by simpa using hmid)
      (by rwa [List.head?_reverse]), List.reverse_reverse]
  rw [dropCode, hrev]
  split
  · rename_i heq
    obtain rfl := (List.cons.inj heq).1
    exact absurd hz (by decide)
  · exact hatEnd

/-- A text that does not end in a letter or in a line feed has no code to drop. -/
theorem dropCode_of_last {cs : List Char}
    (hcs : ∀ c ∈ cs.getLast?, Text.isBlank c = false ∧ Text.isLetter c = false) :
    dropCode cs = cs := by
  have hlast : ∀ {c rest}, cs.reverse = c :: rest →
      Text.isBlank c = false ∧ Text.isLetter c = false := fun heq => by
    refine hcs _ ?_
    rw [← List.head?_reverse, heq]
    rfl
  rw [dropCode]
  split
  · rename_i heq
    exact absurd (hlast heq).1 (by decide)
  · rw [dropCodeAtEnd]
    split
    · rename_i heq
      rw [(hlast heq).2, Bool.and_false, if_neg Bool.false_ne_true]
    · rfl

/-- The numeral in a text is a literal if that is what dropping the code leaves, dressed up. -/
private theorem numeral_of_dropCode {cs : List Char} (h : Dresses l written)
    (hdrop : dropCode (cs.filter (!isSymbol ·)) = written.filter (!isSymbol ·)) :
    numeral cs = l.chars := by
  have hfilter : (written.filter (!isSymbol ·)).filter (· != ',') = l.chars := by
    rw [List.filter_filter]
    exact h
  rw [numeral, hdrop, hfilter, Text.trimChars_of_isTrimmed l.isTrimmed]

/-- Neither a blank nor a letter is at the end of a dressed literal without its symbols. -/
private theorem Dresses.last (h : Dresses l written) :
    ∀ c ∈ (written.filter (!isSymbol ·)).getLast?,
      Text.isBlank c = false ∧ Text.isLetter c = false := fun c hc =>
  have hmem : c ∈ written := List.mem_of_mem_filter (List.mem_of_mem_getLast? hc)
  ⟨(h.not_blank hmem).1, (h.not_blank hmem).2.1⟩

theorem numeral_dressed (h : Dresses l written) : numeral written = l.chars :=
  numeral_of_dropCode h (dropCode_of_last h.last)

theorem numeral_dressed_code (h : Dresses l written) (hmid : ∀ c ∈ mid, Text.isBlank c = true)
    (hcode : IsCode code) : numeral (written ++ mid ++ code) = l.chars := by
  refine numeral_of_dropCode h ?_
  have hkeep : ∀ {cs : List Char}, (∀ c ∈ cs, isSymbol c = false) →
      cs.filter (!isSymbol ·) = cs := fun hcs =>
    List.filter_eq_self.2 fun c hc => by rw [hcs c hc]; rfl
  rw [List.filter_append, List.filter_append,
    hkeep fun c hc => Text.not_isSymbol_of_isBlank (hmid c hc),
    hkeep fun c hc => (Text.of_isLetter (hcode.2 c hc)).2]
  exact dropCode_append (fun c hc => (h.last c hc).1) hmid hcode

/-- What is read of a text with a literal as its numeral. -/
private theorem readText_of_numeral {cs core : List Char} (htrim : Text.trimChars cs = core)
    (hne : core ≠ []) (hparen : ∀ c ∈ core.head?, c ≠ '(') (hnumeral : numeral core = l.chars) :
    readText (String.ofList cs) =
      if Numeral.inRange l.decimal then .ok l.decimal
      else .error (.unreadableAmountText (String.ofList l.chars)) := by
  have hopen : isParenthesized core = false := by
    rw [isParenthesized, Bool.and_eq_false_iff]
    exact .inl (beq_false_of_ne fun heq => hparen _ heq rfl)
  rw [readText, String.toList_ofList, htrim]
  dsimp only
  rw [if_neg (by simpa using hne), hopen, if_neg Bool.false_ne_true, hnumeral,
    Numeric.ofText?_literal]
  split_ifs with hrange
  · rfl
  · rfl

/-- **Dressed literals.** However a literal is dressed up, with blanks around it and a code behind it
or without, it is read as the number that its digits spell, if that is in range. -/
theorem readText_dressed (h : Dresses l written) (hleft : ∀ c ∈ left, Text.isBlank c = true)
    (hmid : ∀ c ∈ mid, Text.isBlank c = true) (hright : ∀ c ∈ right, Text.isBlank c = true)
    (hcode : code = [] ∨ IsCode code) :
    readText (String.ofList (left ++ written ++ mid ++ code ++ right)) =
      if Numeral.inRange l.decimal then .ok l.decimal
      else .error (.unreadableAmountText (String.ofList l.chars)) := by
  have hhead : ∀ {tail : List Char}, ∀ c ∈ (written ++ tail).head?, c ∈ written := by
    intro tail c hc
    rw [List.head?_append_of_ne_nil _ h.ne_nil] at hc
    exact List.mem_of_mem_head? hc
  rcases hcode with rfl | hcode
  · have htrimmed : Text.IsTrimmed written :=
      ⟨fun c hc => (h.not_blank (List.mem_of_mem_head? hc)).1,
        fun c hc => (h.not_blank (List.mem_of_mem_getLast? hc)).1⟩
    have hblank : ∀ c ∈ mid ++ right, Text.isBlank c = true := by
      simpa only [List.forall_mem_append] using ⟨hmid, hright⟩
    rw [List.append_nil, List.append_assoc]
    exact readText_of_numeral (Text.trimChars_append hleft hblank htrimmed) h.ne_nil
      (fun c hc => (h.not_blank (List.mem_of_mem_head? hc)).2.2) (numeral_dressed h)
  · have hcore : written ++ mid ++ code ≠ [] := by simp [h.ne_nil]
    have htrimmed : Text.IsTrimmed (written ++ mid ++ code) := by
      refine ⟨fun c hc => ?_, fun c hc => ?_⟩
      · rw [List.append_assoc] at hc
        exact (h.not_blank (hhead c hc)).1
      · have hne : code ≠ [] := fun hnil => by simpa [hnil] using hcode.1
        rw [List.getLast?_append_of_ne_nil _ hne] at hc
        exact (Text.of_isLetter (hcode.2 c (List.mem_of_mem_getLast? hc))).1
    have hshape : left ++ written ++ mid ++ code ++ right =
        left ++ (written ++ mid ++ code) ++ right := by
      simp only [List.append_assoc]
    rw [hshape]
    refine readText_of_numeral (Text.trimChars_append hleft hright htrimmed) hcore ?_
      (numeral_dressed_code h hmid hcode)
    intro c hc
    rw [List.append_assoc] at hc
    exact (h.not_blank (hhead c hc)).2.2

end AmountText

/-! ### Money as text -/

section Positional

private theorem decimalDigit?_of_isDigit {c : Char} (h : c.isDigit = true) :
    Text.decimalDigit? c = some (c.toNat - '0'.toNat) := by
  have hbounds : 48 ≤ c.toNat ∧ c.toNat < 58 := by
    simp only [Char.isDigit, Bool.and_eq_true, decide_eq_true_eq] at h
    have hle : c.toNat ≤ '9'.toNat := h.2
    have hge : '0'.toNat ≤ c.toNat := h.1
    exact ⟨hge, Nat.lt_succ_of_le hle⟩
  rw [Text.decimalDigit?, Text.decimalZeros, List.find?_cons_of_pos (by simp [hbounds])]
  rfl

private theorem isDigit_of_mem_digitChars {n : ℕ} {c : Char} (h : c ∈ Decimal.digitChars n) :
    c.isDigit = true :=
  Nat.isDigit_of_mem_toDigits (by decide) (by decide) h

theorem allDigits_digitChars (n : ℕ) : AllDigits (Decimal.digitChars n) := fun c hc => by
  rw [decimalDigit?_of_isDigit (isDigit_of_mem_digitChars hc)]
  rfl

/-- The digits of a number spell the number. -/
theorem valueOf_digitChars (n : ℕ) : Numeral.valueOf (digitsOf (Decimal.digitChars n)) = n := by
  have hmap : digitsOf (Decimal.digitChars n) =
      (Decimal.digitChars n).map fun c => c.toNat - '0'.toNat := by
    rw [digitsOf, ← List.filterMap_eq_map]
    exact List.filterMap_congr fun c hc => decimalDigit?_of_isDigit (isDigit_of_mem_digitChars hc)
  have hdigits : Nat.ofDigitChars 10 (Nat.toDigits 10 n) 0 = n :=
    Nat.ofDigitChars_toDigits (by decide) (by decide)
  rw [hmap, Numeral.valueOf, List.foldl_map]
  exact hdigits

/-- Zeros in front of digits do not change what they spell. -/
theorem valueOf_zeros (k : ℕ) (cs : List Char) :
    Numeral.valueOf (digitsOf (List.replicate k '0' ++ cs)) = Numeral.valueOf (digitsOf cs) := by
  induction k with
  | zero => rfl
  | succ k ih =>
    rw [List.replicate_succ, List.cons_append, digitsOf,
      List.filterMap_cons_some (show Text.decimalDigit? '0' = some 0 from rfl)]
    exact ih

/-- **Positional notation.** A number in positional notation is a literal, and its digits spell it
again. -/
theorem exists_literal_positional (n places : ℕ) :
    ∃ l : Literal, l.chars = Decimal.positional (Decimal.digitChars n) places ∧
      l.decimal = ⟨false, n, -places⟩ := by
  have hne : Decimal.digitChars n ≠ [] := Nat.toDigits_ne_nil
  rw [Decimal.positional]
  split_ifs with hzero
  · refine ⟨⟨_, none, hne, allDigits_digitChars n, by simp⟩, by simp [Literal.chars], ?_⟩
    simp [Literal.decimal, Literal.fraction, valueOf_digitChars, hzero]
  · extract_lets padded
    have hall : AllDigits padded := fun c hc => by
      rcases List.mem_append.1 hc with hc | hc
      · rw [List.eq_of_mem_replicate hc]
        rfl
      · exact allDigits_digitChars n c hc
    have hlen : places < padded.length := by
      rw [List.length_append, List.length_replicate]
      omega
    refine ⟨⟨padded.take (padded.length - places), some (padded.drop (padded.length - places)), ?_,
      fun c hc => hall c (List.mem_of_mem_take hc), ?_⟩, rfl, ?_⟩
    · rw [← List.length_pos_iff, List.length_take]
      omega
    · rintro cs hcs c hc
      obtain rfl := Option.some.inj hcs
      exact hall c (List.mem_of_mem_drop hc)
    · have hvalue : Numeral.valueOf (digitsOf padded) = n :=
        (valueOf_zeros _ _).trans (valueOf_digitChars n)
      have hplaces : padded.length - (padded.length - places) = places := by omega
      rw [Literal.decimal, Literal.fraction, Option.getD_some, List.take_append_drop, hvalue,
        List.length_drop, hplaces]

end Positional

namespace AmountText

variable {m : Money}

/-- Money is written as a literal, a space and the code of its currency. -/
theorem exists_literal_text (m : Money) :
    ∃ l : Literal, l.decimal = m.amount ∧
      m.text = String.ofList ([] ++ l.chars ++ [' '] ++ m.currency.code.toList ++ []) := by
  obtain ⟨l, hchars, hdecimal⟩ := exists_literal_positional m.cents 2
  have hamount : m.amount = ⟨false, m.cents, -2⟩ := by
    simp [Money.amount, Decimal.ofHundredths]
  refine ⟨l, hdecimal.trans hamount.symm, ?_⟩
  have hpos : 0 < (Decimal.digitChars m.cents).length := Nat.length_toDigits_pos
  have htext : m.amount.text = String.ofList l.chars := by
    rw [hamount, Decimal.text, hchars]
    dsimp only
    rw [if_neg Bool.false_ne_true, if_pos (by simp; omega)]
    rfl
  rw [Money.text, htext, ← String.toList_inj]
  simp

/-- The code of a currency is three letters. -/
theorem isCode_code (c : Currency) : IsCode c.code.toList := by
  have hvalid := c.valid
  rw [isCurrencyCode] at hvalid
  split at hvalid
  · rename_i x y z heq
    simp only [Bool.and_eq_true] at hvalid
    rw [heq]
    refine ⟨rfl, ?_⟩
    simp [Text.isLetter, hvalid]
  · cases hvalid

/-- **Money as text.** Money is read again as it was written. -/
theorem readText_text (m : Money) : readText m.text = .ok m.amount := by
  obtain ⟨l, hdecimal, htext⟩ := exists_literal_text m
  have hdresses : Dresses l l.chars := List.filter_eq_self.2 fun c hc => by
    obtain ⟨-, -, hsymbol, hcomma, -⟩ := Literal.of_mem hc
    rw [hsymbol, bne_iff_ne.2 hcomma]
    rfl
  have hrange : Numeral.inRange l.decimal = true := by
    have hcount : digitCount m.cents ≤ 28 := digitCount_le m.lt_bound (by decide)
    rw [hdecimal, Numeral.inRange, Bool.and_eq_true, decide_eq_true_iff, decide_eq_true_iff]
    simp only [Decimal.leading, Money.amount, Decimal.ofHundredths, Numeral.largestLeading,
      Numeral.leastExponent, Int.natAbs_natCast]
    constructor <;> omega
  rw [htext, readText_dressed hdresses (by simp) (by simp; decide) (by simp)
    (.inr (isCode_code m.currency)), if_pos hrange, hdecimal]

/-- An amount that is read is not negative, and what is not read is refused as malformed, with
nothing but texts in the message. -/
theorem read_cases (v : Value) :
    (∃ x, read v = .ok x ∧ x.isNegative = false) ∨
      ∃ f, read v = .error f ∧ f.category = .malformedText ∧ f.wholes = [] := by
  cases v with
  | text s =>
    rw [read, readText]
    dsimp only
    split_ifs
    · exact .inr ⟨_, rfl, rfl, rfl⟩
    · exact .inr ⟨_, rfl, rfl, rfl⟩
    · split
      · exact .inr ⟨_, rfl, rfl, rfl⟩
      · split_ifs with hneg
        · exact .inr ⟨_, rfl, rfl, rfl⟩
        · exact .inl ⟨_, rfl, Bool.not_eq_true _ ▸ hneg⟩
  | _ => exact .inr ⟨_, rfl, rfl, rfl⟩

/-- **Written amounts.** Money is read again as it was written, and is the same money. A literal is
read as the number that its digits spell, with symbols and commas anywhere in it, with blanks around
it and with a code behind it, unless it is longer than exponents can count. Whatever is read, the
result is a number that is not negative, or the text is refused. -/
theorem readText_written :
    (∀ m : Money, readText m.text = .ok m.amount ∧
      Money.ofDecimal m.currency m.amount = .ok m) ∧
    (∀ (l : Literal) (left written mid code right : List Char), Dresses l written →
      (∀ c ∈ left, Text.isBlank c = true) → (∀ c ∈ mid, Text.isBlank c = true) →
      (∀ c ∈ right, Text.isBlank c = true) → (code = [] ∨ IsCode code) →
        readText (String.ofList (left ++ written ++ mid ++ code ++ right)) =
          if Numeral.inRange l.decimal then .ok l.decimal
          else .error (.unreadableAmountText (String.ofList l.chars))) ∧
    (∀ l : Literal, (l.whole ++ l.fraction).length < 10 ^ 18 →
      Numeral.inRange l.decimal = true) ∧
    ∀ s, (∃ x, readText s = .ok x ∧ x.isNegative = false) ∨
      ∃ f, readText s = .error f ∧ f.category = .malformedText := by
  refine ⟨fun m => ⟨readText_text m, Money.ofDecimal_amount m⟩,
    fun l left written mid code right h hleft hmid hright hcode =>
      readText_dressed h hleft hmid hright hcode, Literal.inRange, fun s => ?_⟩
  exact (read_cases (.text s)).imp_right fun ⟨f, hf, hcategory, _⟩ => ⟨f, hf, hcategory⟩

/-- An amount with a symbol, a comma, blanks and a code is read as the number that is left without
them. -/
theorem readText_written_thousands :
    let l : Literal := ⟨['1', '2', '3', '4'], some ['5'], by simp, by decide,
      by rintro _ ⟨⟩; decide⟩
    let written : List Char := ['€', '1', ',', '2', '3', '4', '.', '5']
    Dresses l written ∧ Text.isBlank ' ' = true ∧ IsCode ['E', 'U', 'R'] ∧
      readText " €1,234.5 EUR\n" = .ok ⟨false, 12345, -1⟩ := by
  intro l written
  have hdresses : Dresses l written := by decide
  have hblank : ∀ c ∈ [' '], Text.isBlank c = true := List.forall_mem_singleton.2 rfl
  have hcode : IsCode ['E', 'U', 'R'] := ⟨rfl, by simp; decide⟩
  obtain ⟨-, hread, hrange, -⟩ := readText_written
  have hwritten := hread l [' '] written [' '] ['E', 'U', 'R'] ['\n'] hdresses hblank hblank
    (List.forall_mem_singleton.2 rfl) (.inr hcode)
  rw [if_pos (hrange l (by decide))] at hwritten
  exact ⟨hdresses, rfl, hcode, hwritten⟩

end AmountText

end Settlement
