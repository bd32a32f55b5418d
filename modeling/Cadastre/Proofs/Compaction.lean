/-
# Compaction of positions

The positions of a schema version's columns may be any numbers, repeated and with gaps;
the columns are listed by position, and those at one position by number. Compaction gives
the listed columns the positions `0`, `1`, … and leaves all else as it is
(`Schema.get?_compact_of_ordered`). As the new positions increase along the list, they
keep it, and a schema whose positions are compact already is not changed
(`Schema.Dense.compact_eq`).

Positions may as well be rewritten in the map one after the other, although the columns
that wait for theirs then stand at old positions: the list was made before, and each step
reads and writes one column (`Schema.compact_eq_renumber`).

Key definitions: `Schema.renumber`.
Key theorems: `Schema.get?_compact_of_ordered`, `Schema.Dense.compact_eq`,
`Schema.get?_renumber`, `Schema.compact_eq_renumber`, `Schema.compaction`.
-/
import Cadastre.Proofs.Listing

namespace Cadastre
namespace Schema

variable {s : Schema} {i : Nat} {id : ColumnId} {c : Column}

/-! ### What compaction does to a column -/

/-- The `i`-th column of the list gets the position `i`, and is otherwise the same. -/
theorem get?_compact_of_ordered (h : s.ordered[i]? = some (id, c)) :
    s.compact.columns.get? id = some { c with pos := i } := by
  have hplaced : s.compact.ordered[i]? = some (id, { c with pos := i }) := by
    simp [ordered_compact, placed, listed, h]
  exact mem_ordered_iff.1 (List.mem_of_getElem? hplaced)

theorem exists_getElem?_ordered (h : s.columns.get? id = some c) :
    ∃ i : Nat, s.ordered[i]? = some (id, c) :=
  List.mem_iff_getElem?.1 (mem_ordered_iff.2 h)

theorem get?_compact_eq_none_iff : s.compact.columns.get? id = none ↔ s.columns.get? id = none := by
  rw [compact, SortedMap.get?_mapValues, Option.map_eq_none_iff]

/-- The columns of the list keep their order. -/
theorem map_fst_ordered_compact (s : Schema) :
    s.compact.ordered.map (·.1) = s.ordered.map (·.1) := by
  have hlisted : ∀ k : Schema, k.listed.map (·.1) = k.ordered.map (·.1) := fun k => by
    rw [listed, List.map_map]
    rfl
  calc s.compact.ordered.map (·.1)
      = s.compact.listed.map (·.1) := (hlisted s.compact).symm
    _ = s.listed.map (·.1) := by rw [listed_compact]
    _ = s.ordered.map (·.1) := hlisted s

/-- The positions along the list are `0`, `1`, …. -/
theorem map_pos_ordered_compact (s : Schema) :
    s.compact.ordered.map (·.2.pos) = List.range s.columns.size := by
  refine List.ext_getElem ?_ fun i hi hj => ?_
  · rw [List.length_map, s.compact.perm_ordered.length_eq, List.length_range]
    simp [compact, SortedMap.mapValues, SortedMap.size]
  · simp [ordered_compact, placed]

/-- A schema with the positions `0`, `1`, … is compact. -/
theorem Dense.compact_eq (h : s.Dense) : s.compact = s := by
  have hcolumns : s.compact.columns = s.columns := by
    refine SortedMap.ext_get? fun id => ?_
    cases hget : s.columns.get? id with
    | none => exact get?_compact_eq_none_iff.2 hget
    | some c =>
      obtain ⟨i, hi⟩ := exists_getElem?_ordered hget
      -- the column is at its place in the list already
      have hpos : c.pos = i := by
        have hplaced := hi
        rw [h, placed, List.getElem?_mapIdx, Option.map_eq_some_iff] at hplaced
        obtain ⟨e, -, he⟩ := hplaced
        cases he
        rfl
      rw [get?_compact_of_ordered hi, ← hpos]
  show { s with columns := s.compact.columns } = s
  rw [hcolumns]

/-! ### One column after the other -/

/-- Gives the columns of the list the positions from `next` on, one after the other. -/
def renumber (columns : SortedMap ColumnId Column) : Nat → List ColumnId →
    SortedMap ColumnId Column
  | _, [] => columns
  | next, id :: ids =>
    match columns.get? id with
    | some c => renumber (columns.insert id { c with pos := next }) (next + 1) ids
    | none => renumber columns (next + 1) ids

/-- A column of the list gets its position in the list, counted from `next`; the others
stay where they are. -/
theorem get?_renumber {columns : SortedMap ColumnId Column} {next : Nat} {ids : List ColumnId}
    (hids : ids.Nodup) : (renumber columns next ids).get? id = (columns.get? id).map fun c =>
      if id ∈ ids then { c with pos := next + ids.idxOf id } else c := by
  induction ids generalizing columns next with
  | nil => simp [renumber]
  | cons j ids ih =>
    obtain ⟨hj, hrest⟩ := List.nodup_cons.1 hids
    rw [renumber]
    by_cases hid : id = j
    · -- its own step places it, and no later one does
      subst hid
      cases hget : columns.get? id with
      | none => simp [ih hrest, hget]
      | some c => simp [ih hrest, hj]
    · have hidx : (j :: ids).idxOf id = ids.idxOf id + 1 := by
        rw [List.idxOf_cons, beq_false_of_ne (Ne.symm hid)]
        rfl
      have hnext : next + 1 + ids.idxOf id = next + (ids.idxOf id + 1) := by omega
      cases hget : columns.get? j with
      | none => simp [ih hrest, hid, hidx, hnext]
      | some c => simp [ih hrest, hid, hidx, hnext]

/-- Rewriting the positions one after the other compacts them. -/
theorem compact_eq_renumber (s : Schema) :
    s.compact = { s with columns := renumber s.columns 0 (s.ordered.map (·.1)) } := by
  have hcolumns : renumber s.columns 0 (s.ordered.map (·.1)) = s.compact.columns := by
    refine SortedMap.ext_get? fun id => ?_
    rw [get?_renumber s.nodup_ordered, compact, SortedMap.get?_mapValues]
    cases hget : s.columns.get? id with
    | none => rfl
    | some c =>
      have hmem : id ∈ s.ordered.map (·.1) :=
        List.mem_map.2 ⟨(id, c), mem_ordered_iff.2 hget, rfl⟩
      simp only [Option.map_some, if_pos hmem, Nat.zero_add]
  rw [hcolumns]
  rfl

/-- Compaction gives the columns of any schema version the positions `0`, `1`, …, each
once, in the order of their positions and then of their numbers; it changes nothing else,
and changes nothing the second time. It is what the rewriting of the positions one after
the other does. -/
theorem compaction (s : Schema) :
    (s.compact.columns.values.map Column.pos).Perm (List.range s.columns.size) ∧
    s.compact.columns.keys = s.columns.keys ∧
    ({ s.compact with columns := s.columns } : Schema) = s ∧
    (∀ (i : Nat) (id : ColumnId) (c : Column), s.ordered[i]? = some (id, c) →
      s.compact.columns.get? id = some { c with pos := i }) ∧
    s.ordered.Perm s.columns.entries ∧
    (s.ordered.Pairwise fun a b => a.2.pos < b.2.pos ∨ (a.2.pos = b.2.pos ∧ a.1 < b.1)) ∧
    s.compact.ordered.map (·.1) = s.ordered.map (·.1) ∧
    s.compact.compact = s.compact ∧
    s.compact = { s with columns := renumber s.columns 0 (s.ordered.map (·.1)) } := by
  refine ⟨?_, s.keys_compact, rfl, fun _ _ _ => get?_compact_of_ordered, s.perm_ordered,
    s.pairwise_ordered, s.map_fst_ordered_compact, s.dense_compact.compact_eq,
    s.compact_eq_renumber⟩
  have hperm := s.compact.perm_ordered.symm.map (·.2.pos)
  rw [map_pos_ordered_compact] at hperm
  rwa [SortedMap.values, List.map_map]

end Schema

namespace Sample

/-- A text column at a position. -/
def textAt (pos : Nat) (name : String) : Column := ⟨pos, name, .string, false, none, none, false⟩

/-- Three columns, of which the first and the last have the same position. -/
def scattered : Schema where
  version := 0
  preceding := none
  columns := ((SortedMap.empty.insert 0 (textAt 7 "name")).insert 1 (textAt 2 "title")).insert 4
    (textAt 7 "home")
  retained := 1
  comment := ""

end Sample

/-- The column in the middle comes first, and the two at one position follow by number. -/
theorem Sample.compaction_scattered :
    Sample.scattered.ordered.map (·.1) = [1, 0, 4] ∧
      Sample.scattered.compact.columns.get? 1 = some (Sample.textAt 0 "title") ∧
      Sample.scattered.compact.columns.get? 0 = some (Sample.textAt 1 "name") ∧
      Sample.scattered.compact.columns.get? 4 = some (Sample.textAt 2 "home") ∧
      Sample.scattered.compact.compact = Sample.scattered.compact := by
  obtain ⟨-, -, -, hplaces, -, -, -, htwice, -⟩ := Schema.compaction Sample.scattered
  exact ⟨rfl, hplaces 0 1 _ rfl, hplaces 1 0 _ rfl, hplaces 2 4 _ rfl, htwice⟩

end Cadastre
