/-!
# Terminal control sequences

A control sequence tells a terminal to change colours or to move. It begins with the escape
character and an opening bracket; parameters follow, then intermediates, and one final character
ends it. What is printed where no terminal reads it is rid of its sequences.

A text is rid of them in one pass from the left: what stands together once a sequence is gone is
not looked at again, and a beginning that no final character ends stays.
-/

namespace Settlement.Text

/-- The character that begins a control sequence. -/
def escape : Char := Char.ofNat 0x1B

/-- Parameters of a control sequence: U+0030 to U+003F. -/
def isParameter (c : Char) : Bool := 0x30 ≤ c.toNat && c.toNat ≤ 0x3F

/-- Intermediates of a control sequence: U+0020 to U+002F. -/
def isIntermediate (c : Char) : Bool := 0x20 ≤ c.toNat && c.toNat ≤ 0x2F

/-- Characters that end a control sequence: U+0040 to U+007E. -/
def isFinal (c : Char) : Bool := 0x40 ≤ c.toNat && c.toNat ≤ 0x7E

/-- The length of what follows the opening bracket of a control sequence, if the text completes
one. -/
def bodyLength? (cs : List Char) : Option Nat :=
  let parameters := cs.takeWhile isParameter
  let rest := cs.dropWhile isParameter
  let intermediates := rest.takeWhile isIntermediate
  match rest.dropWhile isIntermediate with
  | c :: _ => if isFinal c then some (parameters.length + intermediates.length + 1) else none
  | [] => none

/-- The length of what follows the escape character of a control sequence, if the text completes
one. -/
def sequenceLength? : List Char → Option Nat
  | '[' :: cs => (bodyLength? cs).map (· + 1)
  | _ => none

/-- The text without its control sequences, once `skipped` characters of it are passed over. -/
def plainFrom (skipped : Nat) : List Char → List Char
  | [] => []
  | c :: rest =>
    match skipped with
    | n + 1 => plainFrom n rest
    | 0 =>
      match if c = escape then sequenceLength? rest else none with
      | some n => plainFrom n rest
      | none => c :: plainFrom 0 rest

/-- The text without its control sequences. -/
def plain (s : String) : String := String.ofList (plainFrom 0 s.toList)

/-- Nothing is added and nothing changes its place. -/
theorem plainFrom_sublist (skipped : Nat) (cs : List Char) :
    List.Sublist (plainFrom skipped cs) cs := by
  induction cs generalizing skipped with
  | nil => cases skipped <;> exact .refl _
  | cons c rest ih =>
    unfold plainFrom
    split
    · exact (ih _).cons c
    · split
      · exact (ih _).cons c
      · exact (ih 0).cons_cons c

/-- A text without the escape character stays as it is. -/
theorem plainFrom_of_not_mem {cs : List Char} (h : escape ∉ cs) : plainFrom 0 cs = cs := by
  induction cs with
  | nil => rfl
  | cons c rest ih =>
    rw [List.mem_cons, not_or] at h
    have hc : ¬ c = escape := fun e => h.1 e.symm
    simp only [plainFrom, hc, ↓reduceIte, ih h.2]

end Settlement.Text
