/-
# Maps sorted by their keys

A map is the list of its entries in strictly increasing order of the keys. It
is known by its look-up: `get?_insert`, `get?_erase` and `get?_mapValues` say
what the operations do to it, and two maps with the same look-up are equal
(`SortedMap.ext_get?`).

Key definitions: `KeyOrder`, `SortedMap`, `SortedMap.get?`,
`SortedMap.insert`, `SortedMap.erase`, `SortedMap.ofList`.
Key theorems: `SortedMap.get?_insert`, `SortedMap.get?_erase`,
`SortedMap.mem_entries_iff`, `SortedMap.ext_get?`.
-/

namespace Cadastre

universe u v

/-- A strict order in which any two keys can be compared. -/
class KeyOrder (κ : Type u) [LT κ] : Prop where
  irrefl : ∀ a : κ, ¬ a < a
  trans : ∀ {a b c : κ}, a < b → b < c → a < c
  trichotomy : ∀ a b : κ, a < b ∨ a = b ∨ b < a

instance : KeyOrder Nat where
  irrefl := Nat.lt_irrefl
  trans := Nat.lt_trans
  trichotomy := Nat.lt_trichotomy

instance : KeyOrder String where
  irrefl := String.lt_irrefl
  trans := String.lt_trans
  trichotomy a b := by
    by_cases h : a < b
    · exact .inl h
    · by_cases h' : b < a
      · exact .inr (.inr h')
      · exact .inr (.inl (String.le_antisymm (String.not_lt.mp h') (String.not_lt.mp h)))

/-- The entries of a map, in increasing order of the keys. -/
structure SortedMap (κ : Type u) (β : Type v) [LT κ] where
  entries : List (κ × β)
  sorted : entries.Pairwise fun a b => a.1 < b.1

namespace SortedMap

variable {κ : Type u} {β : Type v}

section Operations

variable [LT κ]

def empty : SortedMap κ β := ⟨[], .nil⟩

instance : Inhabited (SortedMap κ β) := ⟨empty⟩

def isEmpty (m : SortedMap κ β) : Bool := m.entries.isEmpty

def size (m : SortedMap κ β) : Nat := m.entries.length

def keys (m : SortedMap κ β) : List κ := m.entries.map (·.1)

def values (m : SortedMap κ β) : List β := m.entries.map (·.2)

/-- The value of the first entry with key `k`. -/
def find? [DecidableEq κ] (k : κ) : List (κ × β) → Option β
  | [] => none
  | (l, b) :: rest => if k = l then some b else find? k rest

def get? [DecidableEq κ] (m : SortedMap κ β) (k : κ) : Option β := find? k m.entries

/-- Puts an entry in its place; it replaces one with the same key. -/
def insertEntry [DecidableLT κ] [DecidableEq κ] (k : κ) (b : β) : List (κ × β) → List (κ × β)
  | [] => [(k, b)]
  | (l, c) :: rest =>
    if k < l then (k, b) :: (l, c) :: rest
    else if k = l then (k, b) :: rest
    else (l, c) :: insertEntry k b rest

theorem mem_insertEntry [DecidableLT κ] [DecidableEq κ] {k : κ} {b : β} {l : List (κ × β)}
    {e : κ × β} (h : e ∈ insertEntry k b l) : e = (k, b) ∨ e ∈ l := by
  induction l with
  | nil => simpa [insertEntry] using h
  | cons x xs ih =>
    obtain ⟨l, c⟩ := x
    rw [insertEntry] at h
    split at h
    · simpa using h
    · split at h
      · rcases List.mem_cons.1 h with h | h
        · exact .inl h
        · exact .inr (List.mem_cons_of_mem _ h)
      · rcases List.mem_cons.1 h with h | h
        · exact .inr (List.mem_cons.2 (.inl h))
        · rcases ih h with h | h
          · exact .inl h
          · exact .inr (List.mem_cons_of_mem _ h)

theorem sorted_insertEntry [DecidableLT κ] [DecidableEq κ] [KeyOrder κ] (k : κ) (b : β) :
    ∀ {l : List (κ × β)}, (l.Pairwise fun a b => a.1 < b.1) →
      (insertEntry k b l).Pairwise fun a b => a.1 < b.1
  | [], _ => by simp [insertEntry]
  | (l, c) :: rest, h => by
    have hh := List.pairwise_cons.1 h
    rw [insertEntry]
    split
    · rename_i hk
      refine List.pairwise_cons.2 ⟨?_, h⟩
      intro e he
      rcases List.mem_cons.1 he with rfl | he
      · exact hk
      · exact KeyOrder.trans hk (hh.1 e he)
    · rename_i hk
      split
      · rename_i hkl
        subst hkl
        exact List.pairwise_cons.2 ⟨fun e he => hh.1 e he, hh.2⟩
      · rename_i hkl
        refine List.pairwise_cons.2 ⟨?_, sorted_insertEntry k b hh.2⟩
        intro e he
        rcases mem_insertEntry he with rfl | he
        · rcases KeyOrder.trichotomy k l with h' | h' | h'
          · exact absurd h' hk
          · exact absurd h' hkl
          · exact h'
        · exact hh.1 e he

/-- The map with `b` at key `k`. -/
def insert [DecidableLT κ] [DecidableEq κ] [KeyOrder κ] (m : SortedMap κ β) (k : κ) (b : β) :
    SortedMap κ β :=
  ⟨insertEntry k b m.entries, sorted_insertEntry k b m.sorted⟩

/-- The map without key `k`. -/
def erase [DecidableEq κ] (m : SortedMap κ β) (k : κ) : SortedMap κ β :=
  ⟨m.entries.filter fun e => decide (e.1 ≠ k), m.sorted.filter _⟩

/-- The map of the given entries; of two with one key the later stays. -/
def ofList [DecidableLT κ] [DecidableEq κ] [KeyOrder κ] (l : List (κ × β)) : SortedMap κ β :=
  l.foldl (fun m e => m.insert e.1 e.2) empty

/-- The map with `f` applied to every value. -/
def mapValues {γ : Type v} (m : SortedMap κ β) (f : κ → β → γ) : SortedMap κ γ :=
  ⟨m.entries.map fun e => (e.1, f e.1 e.2), List.pairwise_map.2 m.sorted⟩

end Operations

/-! ### The look-up -/

theorem find?_insertEntry [LT κ] [DecidableLT κ] [DecidableEq κ] (k j : κ) (b : β)
    (l : List (κ × β)) :
    find? j (insertEntry k b l) = if j = k then some b else find? j l := by
  induction l with
  | nil => simp [insertEntry, find?]
  | cons x xs ih =>
    obtain ⟨l, c⟩ := x
    rw [insertEntry]
    split
    · simp [find?]
    · split
      · rename_i hkl
        subst hkl
        simp only [find?]
        split <;> rfl
      · rename_i hkl
        simp only [find?, ih]
        by_cases hj : j = l
        · subst hj
          simp [Ne.symm hkl]
        · simp [hj]

@[simp] theorem get?_insert [LT κ] [DecidableLT κ] [DecidableEq κ] [KeyOrder κ]
    (m : SortedMap κ β) (k j : κ) (b : β) :
    (m.insert k b).get? j = if j = k then some b else m.get? j :=
  find?_insertEntry k j b m.entries

theorem find?_filter_ne [DecidableEq κ] (k j : κ) (l : List (κ × β)) :
    find? j (l.filter fun e => decide (e.1 ≠ k)) = if j = k then none else find? j l := by
  induction l with
  | nil => simp [find?]
  | cons x xs ih =>
    obtain ⟨l, c⟩ := x
    by_cases hl : l = k
    · subst hl
      simp only [List.filter_cons, ne_eq, not_true_eq_false, decide_false, Bool.false_eq_true,
        if_false, find?, ih]
      by_cases hj : j = l <;> simp [hj]
    · simp only [List.filter_cons, ne_eq, hl, not_false_eq_true, decide_true, if_true, find?, ih]
      by_cases hj : j = l
      · subst hj
        simp [hl]
      · simp [hj]

@[simp] theorem get?_erase [LT κ] [DecidableEq κ] (m : SortedMap κ β) (k j : κ) :
    (m.erase k).get? j = if j = k then none else m.get? j :=
  find?_filter_ne k j m.entries

@[simp] theorem get?_empty [LT κ] [DecidableEq κ] (j : κ) :
    (empty : SortedMap κ β).get? j = none := rfl

theorem find?_map {γ : Type v} [DecidableEq κ] (f : κ → β → γ) (j : κ) (l : List (κ × β)) :
    find? j (l.map fun e => (e.1, f e.1 e.2)) = (find? j l).map (f j) := by
  induction l with
  | nil => rfl
  | cons x xs ih =>
    obtain ⟨l, c⟩ := x
    by_cases hj : j = l
    · subst hj
      simp [find?]
    · simp [find?, hj, ih]

@[simp] theorem get?_mapValues {γ : Type v} [LT κ] [DecidableEq κ] (m : SortedMap κ β)
    (f : κ → β → γ) (j : κ) : (m.mapValues f).get? j = (m.get? j).map (f j) :=
  find?_map f j m.entries

theorem find?_eq_some_iff [LT κ] [DecidableEq κ] [KeyOrder κ] {k : κ} {b : β} :
    ∀ {l : List (κ × β)}, (l.Pairwise fun a b => a.1 < b.1) →
      (find? k l = some b ↔ (k, b) ∈ l)
  | [], _ => by simp [find?]
  | (l, c) :: rest, h => by
    have hh := List.pairwise_cons.1 h
    have ih := find?_eq_some_iff (k := k) (b := b) hh.2
    rw [find?]
    split
    · rename_i hkl
      subst hkl
      constructor
      · intro h'
        simp only [Option.some.injEq] at h'
        simp [h']
      · intro h'
        rcases List.mem_cons.1 h' with h' | h'
        · simp only [Prod.mk.injEq] at h'
          simp [h'.2]
        · exact absurd (hh.1 _ h') (KeyOrder.irrefl k)
    · rename_i hkl
      simp [ih, hkl]

/-- The look-up finds exactly the entries. -/
theorem mem_entries_iff [LT κ] [DecidableEq κ] [KeyOrder κ] (m : SortedMap κ β) {k : κ} {b : β} :
    (k, b) ∈ m.entries ↔ m.get? k = some b :=
  (find?_eq_some_iff m.sorted).symm

theorem mem_keys_iff [LT κ] [DecidableEq κ] [KeyOrder κ] (m : SortedMap κ β) {k : κ} :
    k ∈ m.keys ↔ ∃ b, m.get? k = some b := by
  simp only [keys, List.mem_map, Prod.exists, ← mem_entries_iff]
  constructor
  · rintro ⟨a, b, h, rfl⟩
    exact ⟨b, h⟩
  · rintro ⟨b, h⟩
    exact ⟨k, b, h, rfl⟩

/-- Strictly sorted lists with the same members are equal. -/
theorem eq_of_mem_iff [LT κ] [KeyOrder κ] : ∀ {l m : List (κ × β)},
    (l.Pairwise fun a b => a.1 < b.1) → (m.Pairwise fun a b => a.1 < b.1) →
      (∀ e, e ∈ l ↔ e ∈ m) → l = m
  | [], [], _, _, _ => rfl
  | [], y :: _, _, _, h => absurd ((h y).2 List.mem_cons_self) (by simp)
  | x :: _, [], _, _, h => absurd ((h x).1 List.mem_cons_self) (by simp)
  | x :: xs, y :: ys, hl, hm, h => by
    have hx := List.pairwise_cons.1 hl
    have hy := List.pairwise_cons.1 hm
    have hxy : x = y := by
      rcases List.mem_cons.1 ((h x).1 List.mem_cons_self) with h' | h'
      · exact h'
      · rcases List.mem_cons.1 ((h y).2 List.mem_cons_self) with h'' | h''
        · exact h''.symm
        · exact absurd (KeyOrder.trans (hy.1 x h') (hx.1 y h'')) (KeyOrder.irrefl _)
    subst hxy
    congr 1
    refine eq_of_mem_iff hx.2 hy.2 fun e => ?_
    have he := h e
    simp only [List.mem_cons] at he
    constructor
    · intro h'
      rcases he.1 (.inr h') with rfl | h''
      · exact absurd (hx.1 _ h') (KeyOrder.irrefl _)
      · exact h''
    · intro h'
      rcases he.2 (.inr h') with rfl | h''
      · exact absurd (hy.1 _ h') (KeyOrder.irrefl _)
      · exact h''

/-- Maps with the same look-up are equal. -/
theorem ext_get? [LT κ] [DecidableEq κ] [KeyOrder κ] {m n : SortedMap κ β}
    (h : ∀ k, m.get? k = n.get? k) : m = n := by
  have he : m.entries = n.entries :=
    eq_of_mem_iff m.sorted n.sorted fun ⟨k, b⟩ => by
      rw [mem_entries_iff, mem_entries_iff, h k]
  cases m
  cases n
  simp only [mk.injEq]
  exact he

end SortedMap
end Cadastre
