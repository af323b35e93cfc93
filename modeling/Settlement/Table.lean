/-!
# Tables in order of first mention

A `Table` gives values to keys and keeps the keys in the order in which they were first mentioned.
No key is listed twice; every table carries the proof. Writing to a key that is listed keeps its
place.

`Table.find?` reads a table, and one lemma for every operation says what is found afterwards
(`find?_insert`, `find?_map`) and in which order the keys stand (`keys_insert`, `keys_map`).
-/

namespace Settlement

/-- Values for keys, in the order of the keys' first mention. -/
structure Table (α : Type) where
  entries : List (String × α)
  nodup : (entries.map Prod.fst).Nodup

namespace Table

variable {α β ε : Type}

/-- The table without keys. -/
def empty : Table α := ⟨[], .nil⟩

/-- The keys, in order. -/
def keys (t : Table α) : List String := t.entries.map Prod.fst

/-- The values, in the order of their keys. -/
def values (t : Table α) : List α := t.entries.map Prod.snd

def size (t : Table α) : Nat := t.entries.length

/-- The value of a key in a list of entries. -/
def findIn (k : String) : List (String × α) → Option α
  | [] => none
  | (key, v) :: rest => if key = k then some v else findIn k rest

/-- The value of a key. -/
def find? (t : Table α) (k : String) : Option α := findIn k t.entries

/-- A list of entries with `v` for the key `k`: in its place, or at the end. -/
def insertIn (k : String) (v : α) : List (String × α) → List (String × α)
  | [] => [(k, v)]
  | (key, w) :: rest => if key = k then (key, v) :: rest else (key, w) :: insertIn k v rest

private theorem mem_keys_insertIn {k : String} {v : α} {l : List (String × α)} {key : String} :
    key ∈ (insertIn k v l).map Prod.fst ↔ key = k ∨ key ∈ l.map Prod.fst := by
  induction l with
  | nil => simp [insertIn]
  | cons e rest ih =>
    obtain ⟨key', w⟩ := e
    by_cases h : key' = k
    · subst h; simp [insertIn]
    · simp only [insertIn, h, ↓reduceIte, List.map_cons, List.mem_cons, ih]
      grind

private theorem nodup_insertIn {k : String} {v : α} {l : List (String × α)}
    (h : (l.map Prod.fst).Nodup) : ((insertIn k v l).map Prod.fst).Nodup := by
  induction l with
  | nil => simp [insertIn]
  | cons e rest ih =>
    obtain ⟨key, w⟩ := e
    rw [List.map_cons, List.nodup_cons] at h
    by_cases hk : key = k
    · subst hk
      simpa [insertIn] using h
    · simp only [insertIn, hk, ↓reduceIte, List.map_cons, List.nodup_cons]
      exact ⟨fun hmem => (mem_keys_insertIn.1 hmem).elim hk h.1, ih h.2⟩

/-- The table with `v` for the key `k`: in its place, or at the end. -/
def insert (t : Table α) (k : String) (v : α) : Table α :=
  ⟨insertIn k v t.entries, nodup_insertIn t.nodup⟩

/-- The table of a list of entries; the last entry of a key counts, the first gives its place. -/
def ofList (l : List (String × α)) : Table α := l.foldl (fun t e => t.insert e.1 e.2) empty

/-- The table with every value replaced. -/
def map (f : String → α → β) (t : Table α) : Table β where
  entries := t.entries.map fun e => (e.1, f e.1 e.2)
  nodup := by
    have h : (t.entries.map fun e => (e.1, f e.1 e.2)).map Prod.fst = t.entries.map Prod.fst := by
      simp
    rw [h]; exact t.nodup

/-- Replaces the values of entries one after the other, up to the first error. -/
def traverseIn (f : String → α → Except ε β) :
    List (String × α) → Except ε (List (String × β))
  | [] => .ok []
  | (k, v) :: rest => do
    let w ← f k v
    let ws ← traverseIn f rest
    .ok ((k, w) :: ws)

theorem keys_traverseIn {f : String → α → Except ε β} {l : List (String × α)}
    {l' : List (String × β)} (h : traverseIn f l = .ok l') :
    l'.map Prod.fst = l.map Prod.fst := by
  induction l generalizing l' with
  | nil => cases h; rfl
  | cons e rest ih =>
    obtain ⟨k, v⟩ := e
    unfold traverseIn at h
    cases hw : f k v with
    | error _ => simp [hw, bind, Except.bind] at h
    | ok w =>
      cases hws : traverseIn f rest with
      | error _ => simp [hw, hws, bind, Except.bind] at h
      | ok ws =>
        simp only [hw, hws, bind, Except.bind, Except.ok.injEq] at h
        subst h
        simp [ih hws]

/-- The table with every value replaced, in the order of the keys, or the first error. -/
def traverse (f : String → α → Except ε β) (t : Table α) : Except ε (Table β) :=
  match h : traverseIn f t.entries with
  | .error e => .error e
  | .ok l => .ok ⟨l, by rw [keys_traverseIn h]; exact t.nodup⟩

/-! ### Order of the keys -/

@[simp] theorem keys_empty : (empty : Table α).keys = [] := rfl

theorem nodup_keys (t : Table α) : t.keys.Nodup := t.nodup

@[simp] theorem keys_map (f : String → α → β) (t : Table α) : (t.map f).keys = t.keys := by
  simp [keys, map]

private theorem keys_insertIn (k : String) (v : α) (l : List (String × α)) :
    (insertIn k v l).map Prod.fst =
      if k ∈ l.map Prod.fst then l.map Prod.fst else l.map Prod.fst ++ [k] := by
  induction l with
  | nil => simp [insertIn]
  | cons e rest ih =>
    obtain ⟨key, w⟩ := e
    by_cases h : key = k
    · subst h; simp [insertIn]
    · have h' : ¬ k = key := fun e => h e.symm
      simp only [insertIn, h, ↓reduceIte, List.map_cons, ih, List.mem_cons, h', false_or]
      split <;> simp

/-- A key that is listed keeps its place; a new one comes last. -/
theorem keys_insert (t : Table α) (k : String) (v : α) :
    (t.insert k v).keys = if k ∈ t.keys then t.keys else t.keys ++ [k] :=
  keys_insertIn k v t.entries

theorem keys_traverse {f : String → α → Except ε β} {t : Table α} {u : Table β}
    (h : t.traverse f = .ok u) : u.keys = t.keys := by
  unfold traverse at h
  split at h
  · cases h
  · rename_i h'; cases h; exact keys_traverseIn h'

/-! ### What is found -/

@[simp] theorem find?_empty (k : String) : (empty : Table α).find? k = none := rfl

private theorem findIn_insertIn (k key : String) (v : α) (l : List (String × α)) :
    findIn key (insertIn k v l) = if key = k then some v else findIn key l := by
  induction l with
  | nil => simp [insertIn, findIn, eq_comm]
  | cons e rest ih =>
    obtain ⟨key', w⟩ := e
    by_cases h : key' = k
    · subst h
      by_cases hk : key' = key
      · simp [insertIn, findIn, hk]
      · have hk' : ¬ key = key' := fun e => hk e.symm
        simp [insertIn, findIn, hk, hk']
    · by_cases hk : key' = key
      · subst hk; simp [insertIn, findIn, h]
      · simp [insertIn, findIn, h, hk, ih]

/-- After a value is written it is found, and all others are found as before. -/
theorem find?_insert (t : Table α) (k key : String) (v : α) :
    (t.insert k v).find? key = if key = k then some v else t.find? key :=
  findIn_insertIn k key v t.entries

theorem find?_map (f : String → α → β) (t : Table α) (k : String) :
    (t.map f).find? k = (t.find? k).map (f k) := by
  simp only [find?, map]
  induction t.entries with
  | nil => rfl
  | cons e rest ih =>
    obtain ⟨key, v⟩ := e
    by_cases h : key = k
    · subst h; simp [findIn]
    · simp [findIn, h, ih]

private theorem findIn_isSome_iff {k : String} {l : List (String × α)} :
    (findIn k l).isSome = true ↔ k ∈ l.map Prod.fst := by
  induction l with
  | nil => simp [findIn]
  | cons e rest ih =>
    obtain ⟨key, v⟩ := e
    by_cases h : key = k
    · subst h; simp [findIn]
    · have h' : ¬ k = key := fun e => h e.symm
      simp only [findIn, h, ↓reduceIte, List.map_cons, List.mem_cons, h', false_or, ih]

/-- Values are found for the listed keys and for no others. -/
theorem find?_isSome_iff {t : Table α} {k : String} : (t.find? k).isSome = true ↔ k ∈ t.keys :=
  findIn_isSome_iff

end Table

end Settlement
