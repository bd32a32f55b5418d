/-
# The list of a schema's columns

The columns of a schema version lie in a map by number and are listed by
position. If the positions differ, the list is known by its members alone
(`Schema.ordered_eq_of_perm`), so every change of the map is read off as a
change of the list: a column appended, replaced in place or taken out.
Compaction numbers the list without changing its order.

Key definitions: `Column.spec`, `Schema.listed`, `placed`, `Schema.Spaced`,
`Schema.Dense`.
Key theorems: `Schema.ordered_compact`, `Schema.ordered_append`,
`Schema.ordered_replace`, `Schema.ordered_erase`.
-/
import Cadastre.Catalog.Column
import Cadastre.Proofs.RoundTrip.Schema

namespace Cadastre

/-- A column without its position. -/
def Column.spec (c : Column) : ColumnSpec :=
  ⟨c.name, c.type, c.isKey, c.computed, c.stored, c.indexed⟩

/-- A column at a position. -/
def ColumnSpec.place (s : ColumnSpec) (pos : Nat) : Column :=
  ⟨pos, s.name, s.type, s.isKey, s.computed, s.stored, s.indexed⟩

@[simp] theorem ColumnSpec.spec_place (s : ColumnSpec) (pos : Nat) : (s.place pos).spec = s := rfl

@[simp] theorem ColumnSpec.pos_place (s : ColumnSpec) (pos : Nat) : (s.place pos).pos = pos := rfl

@[simp] theorem Column.place_spec (c : Column) (pos : Nat) :
    c.spec.place pos = { c with pos := pos } := rfl

/-- Columns at the positions `0`, `1`, … in their order. -/
def placed (l : List (ColumnId × ColumnSpec)) : List (ColumnId × Column) :=
  l.mapIdx fun i e => (e.1, e.2.place i)

@[simp] theorem map_spec_placed (l : List (ColumnId × ColumnSpec)) :
    (placed l).map (fun e => (e.1, e.2.spec)) = l := by
  refine List.ext_getElem (by simp [placed]) fun i hi hj => ?_
  simp [placed]

theorem pairwise_placed (l : List (ColumnId × ColumnSpec)) :
    (placed l).Pairwise fun a b => a.2.pos < b.2.pos := by
  rw [List.pairwise_iff_getElem]
  intro i j hi hj hij
  simpa [placed] using hij

@[simp] theorem placed_append (l : List (ColumnId × ColumnSpec)) (e : ColumnId × ColumnSpec) :
    placed (l ++ [e]) = placed l ++ [(e.1, e.2.place l.length)] := by
  simp [placed, List.mapIdx_append]

/-! ### Entries of maps -/

namespace SortedMap

variable {β : Type}

/-- A key behind all others is inserted at the end. -/
theorem entries_insert_of_lt {m : SortedMap Nat β} {k : Nat} (h : ∀ e ∈ m.entries, e.1 < k)
    (b : β) : (m.insert k b).entries = m.entries ++ [(k, b)] := by
  refine eq_of_mem_iff (m.insert k b).sorted ?_ fun ⟨j, c⟩ => ?_
  · refine List.pairwise_append.2 ⟨m.sorted, List.pairwise_singleton _ _, fun e he f hf => ?_⟩
    rw [List.mem_singleton.1 hf]
    exact h e he
  · rw [mem_entries_iff, get?_insert, List.mem_append, List.mem_singleton, mem_entries_iff,
      Prod.mk.injEq]
    by_cases hj : j = k
    · subst hj
      have hnone : m.get? j ≠ some c := fun hc =>
        Nat.lt_irrefl _ (h _ (m.mem_entries_iff.2 hc))
      simp [hnone, eq_comm]
    · simp [hj]

/-- An entry is replaced where it stands. -/
theorem entries_insert_of_mem {m : SortedMap Nat β} {k : Nat} {a : β} (h : m.get? k = some a)
    (b : β) : (m.insert k b).entries = m.entries.map fun e => if e.1 = k then (k, b) else e := by
  have hkey : ∀ e : Nat × β, (if e.1 = k then (k, b) else e).1 = e.1 := fun e => by
    split
    · rename_i he
      exact he.symm
    · rfl
  refine eq_of_mem_iff (m.insert k b).sorted ?_ fun ⟨j, c⟩ => ?_
  · rw [List.pairwise_map]
    exact m.sorted.imp fun {e f} hlt => by rw [hkey, hkey]; exact hlt
  · rw [mem_entries_iff, get?_insert, List.mem_map]
    constructor
    · intro hc
      split at hc
      · rename_i hj
        cases hc
        exact ⟨(k, a), m.mem_entries_iff.2 h, by simp [hj]⟩
      · rename_i hj
        exact ⟨(j, c), m.mem_entries_iff.2 hc, by simp [hj]⟩
    · rintro ⟨⟨i, d⟩, hi, he⟩
      split at he
      · cases he
        simp
      · rename_i hne
        cases he
        rw [if_neg hne]
        exact m.mem_entries_iff.1 hi

/-- An entry that is taken out and put behind all others stands in for itself. -/
theorem perm_insert_erase {m : SortedMap Nat β} {k j : Nat} {a : β} (h : m.get? k = some a)
    (hj : ∀ e ∈ m.entries, e.1 < j) (b : β) :
    ((m.erase k).insert j b).entries.Perm
      (m.entries.map fun e => if e.1 = k then (j, b) else e) := by
  have hlast : ∀ e ∈ (m.erase k).entries, e.1 < j := fun e he => hj e (List.mem_filter.1 he).1
  rw [entries_insert_of_lt hlast]
  obtain ⟨xs, ys, hm⟩ := List.append_of_mem (m.mem_entries_iff.2 h)
  have hsorted := m.sorted
  rw [hm, List.pairwise_append, List.pairwise_cons] at hsorted
  have hxs : ∀ e ∈ xs, e.1 ≠ k := fun e he =>
    Nat.ne_of_lt (hsorted.2.2 e he (k, a) List.mem_cons_self)
  have hys : ∀ e ∈ ys, e.1 ≠ k := fun e he => (Nat.ne_of_lt (hsorted.2.1.1 e he)).symm
  have hfilter : (m.erase k).entries = xs ++ ys := by
    have hfx : xs.filter (fun e => decide (e.1 ≠ k)) = xs :=
      List.filter_eq_self.2 fun e he => by simpa using hxs e he
    have hfy : ys.filter (fun e => decide (e.1 ≠ k)) = ys :=
      List.filter_eq_self.2 fun e he => by simpa using hys e he
    show m.entries.filter (fun e => decide (e.1 ≠ k)) = xs ++ ys
    rw [hm, List.filter_append, List.filter_cons_of_neg (by simp), hfx, hfy]
  have hmx : xs.map (fun e => if e.1 = k then (j, b) else e) = xs :=
    (List.map_congr_left fun e he => if_neg (hxs e he)).trans (List.map_id' xs)
  have hmy : ys.map (fun e => if e.1 = k then (j, b) else e) = ys :=
    (List.map_congr_left fun e he => if_neg (hys e he)).trans (List.map_id' ys)
  rw [hfilter, hm, List.map_append, List.map_cons, hmx, hmy, if_pos rfl, List.append_assoc]
  exact (List.perm_append_comm).append_left xs

end SortedMap

/-! ### The list by position -/

namespace Schema

/-- The columns of a schema version by position, without their positions. -/
def listed (s : Schema) : List (ColumnId × ColumnSpec) := s.ordered.map fun e => (e.1, e.2.spec)

/-- Different columns have different positions. -/
def Spaced (s : Schema) : Prop := s.ordered.Pairwise fun a b => a.2.pos < b.2.pos

/-- The columns are at the positions `0`, `1`, … -/
def Dense (s : Schema) : Prop := s.ordered = placed s.listed

theorem Dense.spaced {s : Schema} (h : s.Dense) : s.Spaced := by
  rw [Spaced, h]
  exact pairwise_placed _

theorem mem_ordered_iff {s : Schema} {id : ColumnId} {c : Column} :
    (id, c) ∈ s.ordered ↔ s.columns.get? id = some c :=
  s.perm_ordered.mem_iff.trans s.columns.mem_entries_iff

theorem length_listed (s : Schema) : s.listed.length = s.columns.size := by
  rw [listed, List.length_map, s.perm_ordered.length_eq]
  rfl

/-- Columns at different positions are listed in their order. -/
theorem ordered_eq_of_perm {s : Schema} {l : List (ColumnId × Column)}
    (hp : l.Perm s.columns.entries) (hl : l.Pairwise fun a b => a.2.pos < b.2.pos) :
    s.ordered = l := by
  have hperm : s.ordered.Perm l := s.perm_ordered.trans hp.symm
  exact hperm.eq_of_pairwise (fun a b _ _ hab hba => absurd hba hab.asymm) s.pairwise_ordered
    (hl.imp .inl)

/-- Every column is listed once. -/
theorem nodup_ordered (s : Schema) : (s.ordered.map (·.1)).Nodup := by
  have hkeys : (s.columns.entries.map (·.1)).Nodup :=
    List.pairwise_map.2 (s.columns.sorted.imp Nat.ne_of_lt)
  exact (s.perm_ordered.map _).nodup_iff.2 hkeys

/-- Compaction keeps the order and numbers it. -/
theorem ordered_compact (s : Schema) : s.compact.ordered = placed s.listed := by
  let order := s.ordered.map (·.1)
  have hplaced : placed s.listed =
      s.ordered.map fun e => (e.1, { e.2 with pos := order.idxOf e.1 }) := by
    refine List.ext_getElem (by simp [placed, listed]) fun i hi hj => ?_
    have hi' : i < s.ordered.length := by simpa [placed, listed] using hi
    have hio : i < order.length := by simpa [order] using hi'
    have hidx : order.idxOf order[i] = i := s.nodup_ordered.idxOf_getElem i hio
    have horder : order[i] = s.ordered[i].1 := by simp [order]
    rw [horder] at hidx
    simp [placed, listed, hidx]
  refine ordered_eq_of_perm ?_ (pairwise_placed _)
  rw [hplaced]
  exact s.perm_ordered.map _

@[simp] theorem listed_compact (s : Schema) : s.compact.listed = s.listed := by
  rw [listed, ordered_compact, map_spec_placed]

theorem dense_compact (s : Schema) : s.compact.Dense := by
  rw [Dense, listed_compact, ordered_compact]

/-! ### Names -/

theorem mem_columnNames_iff {s : Schema} {name : String} :
    name ∈ s.columnNames ↔ ∃ id c, s.columns.get? id = some c ∧ c.name = name := by
  rw [columnNames, List.mem_map]
  constructor
  · rintro ⟨⟨id, c⟩, he, hname⟩
    exact ⟨id, c, mem_ordered_iff.1 he, hname⟩
  · rintro ⟨id, c, hc, hname⟩
    exact ⟨(id, c), mem_ordered_iff.2 hc, hname⟩

/-- No two columns of a schema version have the same name. -/
theorem Sound.nodup_columnNames {s : Schema} (hs : s.Sound) : s.columnNames.Nodup := by
  have hnumbers : s.ordered.Pairwise fun a b => a.1 ≠ b.1 := List.pairwise_map.1 s.nodup_ordered
  refine List.pairwise_map.2 (hnumbers.imp_of_mem fun {a b} ha hb hne hname => hne ?_)
  exact hs.named a.1 b.1 a.2 b.2 (mem_ordered_iff.1 ha) (mem_ordered_iff.1 hb) hname

/-! ### Changes of the list -/

section Change

variable {s : Schema} {id : ColumnId} {c : Column}

/-- A column with a new number and the next position is listed last. -/
theorem ordered_append (hs : s.Dense) (hid : ∀ e ∈ s.columns.entries, e.1 < id)
    (spec : ColumnSpec) :
    ({ s with columns := s.columns.insert id (spec.place s.columns.size) } : Schema).ordered =
      placed (s.listed ++ [(id, spec)]) := by
  refine ordered_eq_of_perm ?_ (pairwise_placed _)
  rw [SortedMap.entries_insert_of_lt hid, placed_append, length_listed, ← hs]
  exact s.perm_ordered.append_right _

/-- A column that stands in for another one at its position is listed in its place. -/
theorem ordered_replace (hs : s.Spaced) (hc : s.columns.get? id = some c) {j : ColumnId}
    {d : Column} (hpos : d.pos = c.pos) {m : SortedMap ColumnId Column}
    (hm : m.entries.Perm (s.columns.entries.map fun e => if e.1 = id then (j, d) else e)) :
    ({ s with columns := m } : Schema).ordered =
      s.ordered.map fun e => if e.1 = id then (j, d) else e := by
  have hsame : ∀ e ∈ s.ordered, (if e.1 = id then (j, d) else e).2.pos = e.2.pos := by
    intro e he
    split
    · rename_i hid
      have hget : s.columns.get? e.1 = some e.2 := mem_ordered_iff.1 he
      rw [hid, hc, Option.some.injEq] at hget
      rw [hpos, hget]
    · rfl
  refine ordered_eq_of_perm ((s.perm_ordered.map _).trans hm.symm) ?_
  rw [List.pairwise_map]
  exact hs.imp_of_mem fun {a b} ha hb hlt => by rw [hsame a ha, hsame b hb]; exact hlt

/-- A column that is taken out leaves the others in their order. -/
theorem ordered_erase (hs : s.Spaced) :
    ({ s with columns := s.columns.erase id } : Schema).ordered =
      s.ordered.filter fun e => decide (e.1 ≠ id) :=
  ordered_eq_of_perm (s.perm_ordered.filter _) (hs.filter _)

end Change

/-! ### Named columns -/

section Named

variable {s : Schema} {name : String} {id : ColumnId} {c : Column}

theorem get?_of_find? (h : s.find? name = some (id, c)) : s.columns.get? id = some c :=
  s.columns.mem_entries_iff.1 (List.mem_of_find?_eq_some h)

theorem mem_keys_of_find? (h : s.find? name = some (id, c)) : id ∈ s.columns.keys :=
  s.columns.mem_keys_iff.2 ⟨c, get?_of_find? h⟩

theorem name_of_find? (h : s.find? name = some (id, c)) : c.name = name := by
  simpa using List.find?_some h

/-- A named column is the only one of its name. -/
theorem fst_eq_iff_name_eq (hs : s.Sound) (hf : s.find? name = some (id, c))
    {e : ColumnId × Column} (he : e ∈ s.ordered) : e.1 = id ↔ e.2.name = name := by
  have hc := get?_of_find? hf
  have hname := name_of_find? hf
  have hget : s.columns.get? e.1 = some e.2 := mem_ordered_iff.1 he
  constructor
  · intro hid
    rw [hid, hc, Option.some.injEq] at hget
    rw [← hget, hname]
  · intro hen
    exact hs.named e.1 id e.2 c hget hc (hen.trans hname.symm)

/-- A named column is replaced where it is listed, by what `g` makes of it. -/
theorem listed_replace (hs : s.Sound) (hsp : s.Spaced) (hf : s.find? name = some (id, c))
    {j : ColumnId} {d : Column} (hpos : d.pos = c.pos) {m : SortedMap ColumnId Column}
    (hm : m.entries.Perm (s.columns.entries.map fun e => if e.1 = id then (j, d) else e))
    {g : ColumnId × ColumnSpec → ColumnId × ColumnSpec} (hg : g (id, c.spec) = (j, d.spec)) :
    ({ s with columns := m } : Schema).listed =
      s.listed.map fun e => if e.2.name = name then g e else e := by
  have hc := get?_of_find? hf
  rw [listed, ordered_replace hsp hc hpos hm, listed, List.map_map, List.map_map]
  refine List.map_congr_left fun ⟨i, k⟩ he => ?_
  have hiff : i = id ↔ k.name = name := fst_eq_iff_name_eq hs hf he
  show ((if i = id then (j, d) else (i, k)).1, (if i = id then (j, d) else (i, k)).2.spec) =
    if k.name = name then g (i, k.spec) else (i, k.spec)
  by_cases hid : i = id
  · have hget : s.columns.get? i = some k := mem_ordered_iff.1 he
    rw [hid, hc, Option.some.injEq] at hget
    rw [if_pos hid, if_pos (hiff.1 hid), hid, ← hget, hg]
  · have hname : ¬ k.name = name := fun h => hid (hiff.2 h)
    rw [if_neg hid, if_neg hname]

/-- A named column is taken out of the list. -/
theorem listed_erase (hs : s.Sound) (hsp : s.Spaced) (hf : s.find? name = some (id, c)) :
    ({ s with columns := s.columns.erase id } : Schema).listed =
      s.listed.filter fun e => decide (e.2.name ≠ name) := by
  rw [listed, ordered_erase hsp, listed, List.filter_map]
  refine congrArg _ (List.filter_congr fun e he => ?_)
  exact decide_eq_decide.2 (not_congr (fst_eq_iff_name_eq hs hf he))

end Named
end Schema
end Cadastre
