import Mathlib.Data.List.Perm.Basic
import Settlement.Proofs.Amounts

/-!
# Tables that agree

Two tables agree if they hold the same values for the same keys; only the order of the keys may
differ. Their entries are then the same up to order (`Agrees.entries_perm`), so that they have the
same sum, and writing to them, replacing their values and adding them up keeps the agreement.

A computation follows another if it returns a related value whenever the other returns one
(`Follows`). Sequences follow each other step by step (`Follows.bind`), traversals of tables that
agree entry by entry (`Agrees.follows_traverse`).
-/

namespace Settlement

/-! ### Computations that follow each other -/

section Follows

variable {ε α α' β β' : Type} {R : α → α' → Prop} {S : β → β' → Prop} {r : Except ε α}
  {r' : Except ε α'} {f : α → Except ε β} {f' : α' → Except ε β'}

/-- A computation **follows** another in a relation if it returns a related value whenever the
other one returns a value. -/
def Follows (R : α → α' → Prop) (r : Except ε α) (r' : Except ε α') : Prop :=
  ∀ a, r = .ok a → ∃ a', r' = .ok a' ∧ R a a'

namespace Follows

theorem ok {a : α} {a' : α'} (h : R a a') : Follows R (.ok a : Except ε α) (.ok a') := by
  rintro b ⟨⟩
  exact ⟨a', rfl, h⟩

theorem error (e : ε) : Follows R (.error e) r' := by
  rintro a ⟨⟩

/-- A computation follows itself. -/
theorem refl (r : Except ε α) : Follows Eq r r := fun a h => ⟨a, h, rfl⟩

/-- **Sequences.** A sequence follows another if its steps do. -/
theorem bind (h : Follows R r r') (hf : ∀ a a', R a a' → Follows S (f a) (f' a')) :
    Follows S (r >>= f) (r' >>= f') := by
  intro b hb
  obtain ⟨a, ha, hfa⟩ := bind_eq_ok_iff.1 hb
  obtain ⟨a', ha', hrel⟩ := h a ha
  obtain ⟨b', hb', hrel'⟩ := hf a a' hrel b hfa
  exact ⟨b', bind_eq_ok_iff.2 ⟨a', ha', hb'⟩, hrel'⟩

/-- **Sequences** that begin with one and the same step. -/
theorem bind_same {f' : α → Except ε β'} (hf : ∀ a, r = .ok a → Follows S (f a) (f' a)) :
    Follows S (r >>= f) (r >>= f') := by
  intro b hb
  obtain ⟨a, ha, hfa⟩ := bind_eq_ok_iff.1 hb
  obtain ⟨b', hb', hrel⟩ := hf a ha b hfa
  exact ⟨b', bind_eq_ok_iff.2 ⟨a, ha, hb'⟩, hrel⟩

end Follows

end Follows

namespace Table

variable {ε α β : Type} {t u : Table α} {k : String} {x : α}

/-! ### Agreement -/

/-- Two tables **agree** if they hold the same values for the same keys. -/
def Agrees (t u : Table α) : Prop := ∀ k, t.find? k = u.find? k

/-- Tables with the same entries agree. -/
theorem agrees_of_perm (h : t.entries.Perm u.entries) : t.Agrees u := fun k =>
  Option.ext fun x => by rw [find?_eq_some_iff, find?_eq_some_iff, h.mem_iff]

namespace Agrees

theorem mem_keys_iff (h : t.Agrees u) : k ∈ t.keys ↔ k ∈ u.keys := by
  rw [← find?_isSome_iff, ← find?_isSome_iff, h k]

/-- **Entries.** Tables that agree have the same entries up to order. -/
theorem entries_perm (h : t.Agrees u) : t.entries.Perm u.entries := by
  refine (List.perm_ext_iff_of_nodup t.nodup.of_map u.nodup.of_map).2 fun ⟨k, x⟩ => ?_
  rw [← find?_eq_some_iff, ← find?_eq_some_iff, h k]

theorem values_perm (h : t.Agrees u) : t.values.Perm u.values := h.entries_perm.map _

/-- Writing one value to tables that agree keeps the agreement. -/
theorem insert (h : t.Agrees u) (k : String) (x : α) : (t.insert k x).Agrees (u.insert k x) := by
  intro key
  rw [find?_insert, find?_insert, h key]

/-- Replacing values keeps the agreement. -/
theorem map (h : t.Agrees u) (f : String → α → β) : (t.map f).Agrees (u.map f) := by
  intro key
  rw [find?_map, find?_map, h key]

/-- **Traversals.** A traversal follows another one of a table that agrees if the steps do. -/
theorem follows_traverse {f f' : String → α → Except ε β} (h : t.Agrees u)
    (hf : ∀ k x, t.find? k = some x → Follows Eq (f k x) (f' k x)) :
    Follows Agrees (t.traverse f) (u.traverse f') := by
  intro w hw
  obtain ⟨w', hw'⟩ := exists_traverse (t := u) (f := f') fun k x hx => by
    obtain ⟨y, -, hy⟩ := find?_traverse hw ((h k).trans hx)
    obtain ⟨y', hy', -⟩ := hf k x ((h k).trans hx) y hy
    exact ⟨y', hy'⟩
  refine ⟨w', hw', fun k => ?_⟩
  cases hx : t.find? k with
  | none =>
    -- neither traversal knows the key
    have hk : k ∉ t.keys := find?_eq_none_iff.1 hx
    rw [find?_eq_none_iff.2 (keys_traverse hw ▸ hk),
      find?_eq_none_iff.2 (keys_traverse hw' ▸ mt h.mem_keys_iff.2 hk)]
  | some x =>
    obtain ⟨y, hy, hfx⟩ := find?_traverse hw hx
    obtain ⟨y', hy', hfx'⟩ := find?_traverse hw' ((h k).symm.trans hx)
    obtain ⟨z, hz, rfl⟩ := hf k x hx y hfx
    cases hz.symm.trans hfx'
    rw [hy, hy']

end Agrees

/-! ### Amounts that agree -/

variable {a b : Table Money} {c : Currency} {context : String}

/-- Amounts that agree have the same sum of cents. -/
theorem Agrees.cents_eq (h : a.Agrees b) : a.cents = b.cents :=
  (h.values_perm.map Money.cents).sum_eq

/-- Amounts that agree add up to the same sum. -/
theorem Agrees.follows_sum (h : a.Agrees b) :
    Follows Eq (Money.sum c context a.values) (Money.sum c context b.values) := by
  intro m hm
  obtain ⟨hall, hcur, hcents⟩ := Money.sum_eq_ok_iff.1 hm
  have hperm := h.values_perm
  refine ⟨m, Money.sum_eq_ok_iff.2 ⟨fun x hx => hall x (hperm.mem_iff.2 hx), hcur, ?_⟩, rfl⟩
  rw [hcents]
  exact h.cents_eq

end Table

end Settlement
