import Mathlib.Data.List.Forall2
import Settlement.Fault

/-!
# Outcomes of computations with amounts

A computation ends with a value or with a `Fault`. One fault is about magnitudes alone: an amount
that leaves the range of money. `InRange` says that a computation does not end with it, and
`Returns r P` that a computation with no such amount returns a value with the property `P`.

A sequence of steps returns what its last step returns (`Returns.bind`), and `bind_eq_ok_iff` takes
a sequence that returned apart.
-/

namespace Settlement

section Sequence

variable {ε α β : Type}

/-- A sequence of two steps returns a value if both steps do. -/
theorem bind_eq_ok_iff {r : Except ε α} {f : α → Except ε β} {b : β} :
    (r >>= f) = .ok b ↔ ∃ a, r = .ok a ∧ f a = .ok b := by
  cases r with
  | error e => simp [bind, Except.bind]
  | ok a => simp [bind, Except.bind]

/-- A sequence of two steps fails in the first step or in the second. -/
theorem bind_eq_error_iff {r : Except ε α} {f : α → Except ε β} {e : ε} :
    (r >>= f) = .error e ↔ r = .error e ∨ ∃ a, r = .ok a ∧ f a = .error e := by
  cases r with
  | error e' => simp [bind, Except.bind]
  | ok a => simp [bind, Except.bind]

/-- What a computation returned, from a value that was read off it. -/
theorem exists_of_toOption {γ : Type} {r : Except ε α} {f : α → γ} {v : γ}
    (h : r.toOption.map f = some v) : ∃ a, r = .ok a ∧ f a = v := by
  cases r with
  | error e => cases h
  | ok a => exact ⟨a, rfl, Option.some.inj h⟩

/-- A computation fails if it returns no value. -/
theorem exists_error_iff {r : Except ε α} : (∃ e, r = .error e) ↔ ¬ ∃ a, r = .ok a := by
  cases r <;> simp

/-- **Outcomes.** If a computation ends as it should under each of some conditions, and these cover
all cases, then it ends in no other way. -/
theorem outcome_iff {r : Except ε α} {P : α → Prop} {Q : ε → Prop} (hok : ∀ a, P a → r = .ok a)
    (herror : ∀ e, Q e → r = .error e) (hall : (∃ a, P a) ∨ ∃ e, Q e) :
    (∀ a, r = .ok a ↔ P a) ∧ ∀ e, r = .error e ↔ Q e := by
  refine ⟨fun a => ⟨fun h => ?_, hok a⟩, fun e => ⟨fun h => ?_, herror e⟩⟩
  · rcases hall with ⟨b, hb⟩ | ⟨e, he⟩
    · cases h.symm.trans (hok b hb)
      exact hb
    · cases h.symm.trans (herror e he)
  · rcases hall with ⟨a, ha⟩ | ⟨e', he⟩
    · cases h.symm.trans (hok a ha)
    · cases h.symm.trans (herror e' he)
      exact he

/-- Errors put into other words leave the values as they are. -/
theorem mapError_eq_ok_iff {ε' : Type} {r : Except ε α} {f : ε → ε'} {a : α} :
    r.mapError f = .ok a ↔ r = .ok a := by
  cases r <;> simp [Except.mapError]

theorem mapError_eq_error_iff {ε' : Type} {r : Except ε α} {f : ε → ε'} {e' : ε'} :
    r.mapError f = .error e' ↔ ∃ e, r = .error e ∧ f e = e' := by
  cases r <;> simp [Except.mapError]

theorem bind_of_eq_ok {r : Except ε α} {a : α} (h : r = .ok a) (f : α → Except ε β) :
    (r >>= f) = f a := by
  rw [h]
  rfl

/-- A list of computations that each return a value returns the list of values. -/
theorem mapM_eq_ok_iff {f : α → Except ε β} {l : List α} {m : List β} :
    l.mapM f = .ok m ↔ List.Forall₂ (fun a b => f a = .ok b) l m := by
  induction l generalizing m with
  | nil => simp [pure, Except.pure, eq_comm]
  | cons a l ih =>
    rw [List.mapM_cons, bind_eq_ok_iff, List.forall₂_cons_left_iff]
    simp only [bind_eq_ok_iff, ih, pure, Except.pure, Except.ok.injEq]
    grind

/-- Each value of such a list is returned by one of the computations. -/
theorem exists_mem_of_mapM {f : α → Except ε β} {l : List α} {m : List β} (h : l.mapM f = .ok m)
    {b : β} (hb : b ∈ m) : ∃ a ∈ l, f a = .ok b := by
  have hall := mapM_eq_ok_iff.1 h
  clear h
  induction hall with
  | nil => cases hb
  | cons hfirst _ ih =>
    rcases List.mem_cons.1 hb with rfl | hrest
    · exact ⟨_, List.mem_cons_self, hfirst⟩
    · obtain ⟨a, ha, hfa⟩ := ih hrest
      exact ⟨a, List.mem_cons_of_mem _ ha, hfa⟩

/-- **Failing folds.** A fold fails at the first member at which its step fails. -/
theorem foldlM_eq_error_iff {f : β → α → Except ε β} {l : List α} {b : β} {e : ε} :
    l.foldlM f b = .error e ↔ ∃ before a after s, l = before ++ a :: after ∧
      before.foldlM f b = .ok s ∧ f s a = .error e := by
  induction l generalizing b with
  | nil => simp [pure, Except.pure]
  | cons first l ih =>
    rw [List.foldlM_cons, bind_eq_error_iff]
    constructor
    · rintro (hfirst | ⟨t, hfirst, hrest⟩)
      · exact ⟨[], first, l, b, rfl, rfl, hfirst⟩
      · obtain ⟨before, a, after, s, rfl, hbefore, hstep⟩ := ih.1 hrest
        refine ⟨first :: before, a, after, s, rfl, ?_, hstep⟩
        rwa [List.foldlM_cons, bind_of_eq_ok hfirst]
    · rintro ⟨before, a, after, s, hl, hbefore, hstep⟩
      cases before with
      | nil =>
        obtain ⟨rfl, rfl⟩ := List.cons.inj hl
        cases hbefore
        exact .inl hstep
      | cons head before =>
        obtain ⟨rfl, rfl⟩ := List.cons.inj hl
        rw [List.foldlM_cons] at hbefore
        obtain ⟨t, hhead, hbefore⟩ := bind_eq_ok_iff.1 hbefore
        exact .inr ⟨t, hhead, ih.2 ⟨before, a, after, s, rfl, hbefore, hstep⟩⟩

end Sequence

variable {α β : Type} {r : Except Fault α} {f : α → Except Fault β}

/-- A computation is **in range** if it does not end with an amount that is out of range. -/
def InRange (r : Except Fault α) : Prop := ∀ x, r ≠ .error (.amountOutOfRange x)

@[simp] theorem inRange_ok (a : α) : InRange (.ok a : Except Fault α) := fun _ h => by cases h

/-- Whether a computation ended with an amount that is out of range. -/
def leavesRange : Except Fault α → Bool
  | .error (.amountOutOfRange _) => true
  | _ => false

theorem inRange_of_leavesRange (h : leavesRange r = false) : InRange r := by
  rintro x rfl
  cases h

theorem not_inRange_iff : ¬ InRange r ↔ ∃ x, r = .error (.amountOutOfRange x) := by
  simp [InRange]

/-- The first step of a sequence that is in range is in range. -/
theorem InRange.of_bind (h : InRange (r >>= f)) : InRange r := by
  rintro x rfl
  exact h x rfl

/-- A computation **returns** a value with a property if it does so unless it leaves the range. -/
def Returns (r : Except Fault α) (P : α → Prop) : Prop := InRange r → ∃ a, r = .ok a ∧ P a

namespace Returns

variable {P Q : α → Prop} {R : β → Prop}

theorem ok {a : α} (h : P a) : Returns (.ok a) P := fun _ => ⟨a, rfl, h⟩

theorem of_exists (h : ∃ a, r = .ok a) : Returns r fun _ => True := by
  obtain ⟨a, rfl⟩ := h
  exact ok trivial

theorem mono (h : Returns r P) (hPQ : ∀ a, P a → Q a) : Returns r Q := by
  intro hr
  obtain ⟨a, ha, hP⟩ := h hr
  exact ⟨a, ha, hPQ a hP⟩

/-- A computation that returns a value returns the value that it returns. -/
theorem eq_ok (h : Returns r fun _ => True) : Returns r fun a => r = .ok a := by
  intro hr
  obtain ⟨a, ha, -⟩ := h hr
  exact ⟨a, ha, ha⟩

/-- **Sequences.** What the second step returns may rest on the property of the first. -/
theorem bind (hr : Returns r P) (hf : ∀ a, P a → Returns (f a) R) : Returns (r >>= f) R := by
  intro h
  obtain ⟨a, rfl, hP⟩ := hr h.of_bind
  exact hf a hP h

end Returns

end Settlement
