import Mathlib.Data.List.Basic
import Mathlib.Data.List.DropRight
import Settlement.Note
import Settlement.Text.Blank

/-!
# Blanks at the ends

A text is trimmed if no blank stands at either of its ends. Trimming a text leaves one that is
trimmed, and takes nothing but the blanks around it (`Text.trimChars_append`), so that more blanks
around it make no difference (`Text.trimChars_of_blanks`). A note is trimmed when it is kept, so
that keeping it again does not change it (`Note.Keeps.again`).
-/

namespace Settlement

namespace Text

variable {cs left right : List Char} {s : String}

/-- A text is **trimmed** if it neither starts nor ends with a blank. -/
structure IsTrimmed (cs : List Char) : Prop where
  head : ∀ c ∈ cs.head?, isBlank c = false
  last : ∀ c ∈ cs.getLast?, isBlank c = false

private theorem head_dropWhile (cs : List Char) :
    ∀ c ∈ (cs.dropWhile isBlank).head?, isBlank c = false := by
  intro c hc
  have h := List.head?_dropWhile_not isBlank cs
  rw [hc] at h
  exact h

theorem isTrimmed_trimChars (cs : List Char) : IsTrimmed (trimChars cs) where
  head c hc := by
    -- what is left at the front is not touched when the end is trimmed
    have hprefix : trimChars cs <+: cs.dropWhile isBlank := by
      rw [trimChars, ← List.reverse_suffix, List.reverse_reverse]
      exact List.dropWhile_suffix _
    refine head_dropWhile cs c ?_
    obtain ⟨rest, hrest⟩ := hprefix
    cases htrim : trimChars cs with
    | nil => simp [htrim] at hc
    | cons first tail =>
      rw [htrim] at hc hrest
      rw [← hrest]
      exact hc
  last c hc := by
    rw [trimChars, List.getLast?_reverse] at hc
    exact head_dropWhile _ c hc

theorem dropWhile_append_of_blank (hleft : ∀ c ∈ left, isBlank c = true)
    (h : ∀ c ∈ cs.head?, isBlank c = false) : (left ++ cs).dropWhile isBlank = cs := by
  rw [List.dropWhile_append_of_pos hleft]
  cases cs with
  | nil => rfl
  | cons c rest => exact List.dropWhile_cons_of_neg (by simp [h c rfl])

/-- **Trimming** takes the blanks around a trimmed text, and nothing else. -/
theorem trimChars_append (hleft : ∀ c ∈ left, isBlank c = true)
    (hright : ∀ c ∈ right, isBlank c = true) (h : IsTrimmed cs) :
    trimChars (left ++ cs ++ right) = cs := by
  rw [trimChars]
  cases cs with
  | nil =>
    have hall : ∀ c ∈ left ++ right, isBlank c = true := by
      simpa only [List.forall_mem_append] using ⟨hleft, hright⟩
    have hempty : (left ++ right ++ []).dropWhile isBlank = [] :=
      dropWhile_append_of_blank hall (by simp)
    rw [List.append_nil] at hempty ⊢
    rw [hempty]
    rfl
  | cons c rest =>
    have hhead : ∀ c' ∈ (c :: rest ++ right).head?, isBlank c' = false := fun c' hc' =>
      h.head c' hc'
    have hlast : ∀ c' ∈ (c :: rest).reverse.head?, isBlank c' = false := by
      rw [List.head?_reverse]
      exact h.last
    rw [List.append_assoc, dropWhile_append_of_blank hleft hhead, List.reverse_append,
      dropWhile_append_of_blank (by simpa using hright) hlast, List.reverse_reverse]

theorem trimChars_of_isTrimmed (h : IsTrimmed cs) : trimChars cs = cs := by
  have hnone : ∀ c ∈ ([] : List Char), isBlank c = true := by simp
  simpa using trimChars_append hnone hnone h

@[simp] theorem trim_trim (s : String) : trim (trim s) = trim s := by
  rw [trim, trim, String.toList_ofList, trimChars_of_isTrimmed (isTrimmed_trimChars _)]

/-- A text is its trimmed form with blanks around it. -/
theorem exists_blanks (cs : List Char) : ∃ left right, (∀ c ∈ left, isBlank c = true) ∧
    (∀ c ∈ right, isBlank c = true) ∧ cs = left ++ trimChars cs ++ right := by
  refine ⟨cs.takeWhile isBlank, (cs.dropWhile isBlank).rtakeWhile isBlank,
    fun _ => List.mem_takeWhile_imp, fun _ => List.mem_rtakeWhile_imp, ?_⟩
  have hright : trimChars cs ++ (cs.dropWhile isBlank).rtakeWhile isBlank =
      cs.dropWhile isBlank := List.rdropWhile_append_rtakeWhile
  rw [List.append_assoc, hright, List.takeWhile_append_dropWhile]

/-- **Blanks around a text** do not change what is left when it is trimmed. -/
theorem trimChars_of_blanks (hleft : ∀ c ∈ left, isBlank c = true)
    (hright : ∀ c ∈ right, isBlank c = true) (cs : List Char) :
    trimChars (left ++ cs ++ right) = trimChars cs := by
  obtain ⟨left', right', hleft', hright', hcs⟩ := exists_blanks cs
  have hshape : left ++ cs ++ right = (left ++ left') ++ trimChars cs ++ (right' ++ right) := by
    conv_lhs => rw [hcs]
    simp only [List.append_assoc]
  rw [hshape]
  exact trimChars_append (List.forall_mem_append.2 ⟨hleft, hleft'⟩)
    (List.forall_mem_append.2 ⟨hright', hright⟩) (isTrimmed_trimChars cs)

theorem trimChars_dropWhile (cs : List Char) : trimChars (cs.dropWhile isBlank) = trimChars cs := by
  have h : trimChars (cs.takeWhile isBlank ++ cs.dropWhile isBlank ++ []) =
      trimChars (cs.dropWhile isBlank) :=
    trimChars_of_blanks (fun _ => List.mem_takeWhile_imp) (by simp) _
  rw [← h, List.append_nil, List.takeWhile_append_dropWhile]

theorem trimChars_rdropWhile (cs : List Char) :
    trimChars (cs.rdropWhile isBlank) = trimChars cs := by
  have h : trimChars ([] ++ cs.rdropWhile isBlank ++ cs.rtakeWhile isBlank) =
      trimChars (cs.rdropWhile isBlank) :=
    trimChars_of_blanks (by simp) (fun _ => List.mem_rtakeWhile_imp) _
  rw [← h, List.nil_append, List.rdropWhile_append_rtakeWhile]

/-- A text is trimmed on either side of a character that is no blank. -/
theorem trimChars_append_cons {sep : Char} (h : isBlank sep = false) (before after : List Char) :
    trimChars (before ++ sep :: after) =
      before.dropWhile isBlank ++ sep :: after.rdropWhile isBlank := by
  have hdrop : ∀ cs rest, (cs ++ sep :: rest).dropWhile isBlank =
      cs.dropWhile isBlank ++ sep :: rest := by
    intro cs rest
    have hsep : (sep :: rest).dropWhile isBlank = sep :: rest :=
      List.dropWhile_cons_of_neg (by simp [h])
    rw [List.dropWhile_append, hsep]
    split_ifs with hempty
    · rw [List.isEmpty_iff.1 hempty, List.nil_append]
    · rfl
  -- the end is trimmed as the start of the reversed text, in which `sep` still stops the blanks
  have hreverse : (before.dropWhile isBlank ++ sep :: after).reverse =
      after.reverse ++ sep :: (before.dropWhile isBlank).reverse := by simp
  rw [trimChars, hdrop, hreverse, hdrop, List.rdropWhile]
  simp

theorem isBlankText_iff : isBlankText s = true ↔ trimChars s.toList = [] := by
  rw [isBlankText, List.all_eq_true]
  constructor
  · intro hall
    have h : trimChars (s.toList ++ [] ++ []) = [] := trimChars_of_blanks hall (by simp) []
    rwa [List.append_nil, List.append_nil] at h
  · intro hnil
    obtain ⟨left, right, hleft, hright, hs⟩ := exists_blanks s.toList
    rw [hnil, List.append_nil] at hs
    rw [hs]
    exact List.forall_mem_append.2 ⟨hleft, hright⟩

@[simp] theorem isBlankText_trim (s : String) : isBlankText (trim s) = isBlankText s := by
  rw [Bool.eq_iff_iff, isBlankText_iff, isBlankText_iff, trim, String.toList_ofList,
    trimChars_of_isTrimmed (isTrimmed_trimChars _)]

end Text

namespace Note

variable {v : Value} {note note' : Option String}

/-- A note **is kept** of a value: none of null or of blanks, and of any other text its trimmed form,
which is not too long. -/
def Keeps (v : Value) (note : Option String) : Prop :=
  v = .null ∧ note = none ∨
    ∃ s, v = .text s ∧ (Text.trim s).length ≤ Fault.longestNote ∧
      note = if (Text.trim s).isEmpty then none else some (Text.trim s)

/-- **Notes.** What is kept of a value does not depend on the owner that is named in messages. -/
theorem normalize_eq_ok_iff (owner : String) : normalize owner v = .ok note ↔ Keeps v note := by
  cases v with
  | null =>
    have hkeeps : Keeps .null note ↔ note = none := by simp [Keeps]
    rw [normalize, hkeeps, Except.ok.injEq, eq_comm]
  | text s =>
    have hkeeps : Keeps (.text s) note ↔ (Text.trim s).length ≤ Fault.longestNote ∧
        note = if (Text.trim s).isEmpty then none else some (Text.trim s) := by
      simp [Keeps]
    rw [normalize, hkeeps]
    split_ifs with hempty hlong
    · have hzero : (Text.trim s).length ≤ Fault.longestNote := by
        rw [String.isEmpty_iff.1 hempty]
        exact Nat.zero_le _
      rw [Except.ok.injEq, and_iff_right hzero, eq_comm]
    · exact iff_of_false nofun fun h => absurd hlong (Nat.not_lt.2 h.1)
    · rw [Except.ok.injEq, and_iff_right (Nat.not_lt.1 hlong), eq_comm]
  | _ => simp [normalize, Keeps]

/-- **Kept twice.** A note that is kept is kept as it is. -/
theorem Keeps.again (h : Keeps v note) :
    Keeps ((note.map Value.text).getD .null) note' ↔ note' = note := by
  rcases h with ⟨-, rfl⟩ | ⟨s, -, hlen, rfl⟩
  · simp [Keeps]
  · split_ifs with hempty
    · simp [Keeps]
    · rw [Option.map_some, Option.getD_some, ← normalize_eq_ok_iff defaultOwner, normalize,
        Text.trim_trim, if_neg hempty, if_neg (Nat.not_lt.2 hlen), Except.ok.injEq, eq_comm]

end Note

end Settlement
