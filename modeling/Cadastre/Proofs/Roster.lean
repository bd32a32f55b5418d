/-
# The columns of a table as a list

The operations change the columns of a table as if these were a list with a
counter beside it: a new column comes at the end under the counter's number, a
renamed one stays in its place under its number, an altered one stays in its
place under the counter's number, and a dropped one leaves the others in their
order. The drafts of the catalog, which hold a map from numbers to columns with
positions, list the same columns after every growth and every edit.

Key definitions: `Roster`, `Roster.apply`, `Roster.declared`, `Roster.created`,
`Draft.Lists`.
Key theorems: `Roster.declared_eq`, `Growth.lists`, `Edit.lists`, `Birth.lists`.
-/
import Cadastre.Proofs.Effect
import Mathlib.Data.List.Induction

namespace Cadastre

/-- The columns of a table in their order, and the number that the next one gets. -/
structure Roster where
  next : ColumnId
  columns : List (ColumnId × ColumnSpec)

namespace Roster

def empty : Roster := ⟨0, []⟩

/-- A column comes at the end, under the next number. -/
def push (r : Roster) (s : ColumnSpec) : Roster where
  next := r.next + 1
  columns := r.columns ++ [(r.next, s)]

/-- A column gets another name, in its place and under its number. -/
def rename (r : Roster) (source target : String) : Roster where
  next := r.next
  columns := r.columns.map fun e =>
    if e.2.name = source then (e.1, { e.2 with name := target }) else e

/-- A column gets another type, in its place and under the next number. -/
def alter (r : Roster) (name : String) (type : ColumnType) : Roster where
  next := r.next + 1
  columns := r.columns.map fun e =>
    if e.2.name = name then (r.next, { e.2 with type := type }) else e

/-- A column goes, and the others stay in their order. -/
def drop (r : Roster) (name : String) : Roster where
  next := r.next
  columns := r.columns.filter fun e => decide (e.2.name ≠ name)

/-- What a mutation does to the columns; a retention or a change of rows does nothing. -/
def apply (r : Roster) : Operation → Roster
  | .addColumn _ _ s => r.push s
  | .renameColumn _ _ source target => r.rename source target
  | .alterColumn _ _ name type => r.alter name type
  | .dropColumn _ _ name => r.drop name
  | _ => r

/-- The columns after a number of mutations. -/
def replay (r : Roster) (ops : List Operation) : Roster := ops.foldl apply r

/-- The declared columns in their order, under the numbers `0`, `1`, … -/
def declared (specs : List ColumnSpec) : Roster := specs.foldl push empty

/-- The columns that an operation creates a table or view with. -/
def created : Operation → Option Roster
  | .createTable _ spec => some (declared spec.columns)
  | .createView _ spec => some (declared spec.columns)
  | _ => none

/-- The declared columns have the numbers of their places. -/
theorem declared_eq (specs : List ColumnSpec) :
    declared specs = ⟨specs.length, specs.mapIdx fun i s => (i, s)⟩ := by
  induction specs using List.reverseRecOn with
  | nil => rfl
  | append_singleton specs s ih =>
    have hlast : declared (specs ++ [s]) = (declared specs).push s := by
      rw [declared, List.foldl_append]
      rfl
    rw [hlast, ih, push, List.mapIdx_concat, List.length_append]
    rfl

theorem replay_append (r : Roster) (ops : List Operation) (op : Operation) :
    r.replay (ops ++ [op]) = (r.replay ops).apply op := by
  simp [replay]

end Roster

/-! ### Drafts -/

/-- A draft lists the columns of a roster and counts like it. -/
structure Draft.Lists (d : Draft) (r : Roster) : Prop where
  columns : d.schema.listed = r.columns
  next : d.head.nextColumn = r.next

namespace Draft

variable {d : Draft} {r : Roster}

/-- A column that is pushed is listed last. -/
theorem ordered_push {old : List Schema} (hc : d.Continues old) (hd : d.schema.Dense)
    (s : ColumnSpec) :
    (d.push s).schema.ordered = placed (d.schema.listed ++ [(d.head.nextColumn, s)]) := by
  refine Schema.ordered_append hd (fun e he => hc.lt_nextColumn ?_) s
  exact List.mem_map.2 ⟨e, he, rfl⟩

theorem dense_push {old : List Schema} (hc : d.Continues old) (hd : d.schema.Dense)
    (s : ColumnSpec) : (d.push s).schema.Dense := by
  rw [Schema.Dense, Schema.listed, ordered_push hc hd, map_spec_placed]

theorem Lists.push {old : List Schema} (hl : d.Lists r) (hc : d.Continues old)
    (hd : d.schema.Dense) (s : ColumnSpec) : (d.push s).Lists (r.push s) where
  columns := by
    rw [Schema.listed, ordered_push hc hd, map_spec_placed, hl.columns, hl.next]
    rfl
  next := congrArg (· + 1) hl.next

end Draft

section Changes

variable {c : Catalog} {t : TableId} {d d' : Draft} {r : Roster}

/-- A draft grows by the declared columns, one after the other. -/
theorem Growth.lists {visible : List VisibleColumn} {specs : List ColumnSpec}
    (hg : Growth c visible d specs d') {old : List Schema} (hc : d.Continues old)
    (hd : d.schema.Dense) (hl : d.Lists r) :
    d'.schema.Dense ∧ d'.Lists (specs.foldl Roster.push r) := by
  induction hg generalizing r with
  | nil => exact ⟨hd, hl⟩
  | cons _ _ _ ih => exact ih (hc.adopt _) (Draft.dense_push hc hd _) (hl.push hc hd _)

/-- An edit does to the columns of a draft what it does to the list. -/
theorem Edit.lists {op : Operation} (he : Edit c t d op d') {old : List Schema}
    (hc : d.Continues old) (hs : d.schema.Sound) (hd : d.schema.Dense) (hl : d.Lists r) :
    d'.Lists (r.apply op) := by
  cases he with
  | @add _ s => exact hl.push hc hd s
  | @rename _ source target id column _ _ hfind =>
    have hget := Schema.get?_of_find? hfind
    have hm := List.Perm.of_eq
      (SortedMap.entries_insert_of_mem hget { column with name := target })
    have hpos : ({ column with name := target } : Column).pos = column.pos := rfl
    refine ⟨?_, hl.next⟩
    show ({ d.schema with columns := d.schema.columns.insert id _ } : Schema).listed =
      (r.rename source target).columns
    rw [Roster.rename, ← hl.columns]
    exact Schema.listed_replace hs hd.spaced hfind hpos hm rfl
  | @alter _ name type id column _ _ hfind =>
    have hget := Schema.get?_of_find? hfind
    have hlt : ∀ e ∈ d.schema.columns.entries, e.1 < d.head.nextColumn := fun e he =>
      hc.lt_nextColumn (List.mem_map.2 ⟨e, he, rfl⟩)
    have hm := SortedMap.perm_insert_erase hget hlt { column with type := type }
    have hpos : ({ column with type := type } : Column).pos = column.pos := rfl
    refine ⟨?_, congrArg (· + 1) hl.next⟩
    show ({ d.schema with columns := (d.schema.columns.erase id).insert d.head.nextColumn _ } :
      Schema).listed = (r.alter name type).columns
    rw [Roster.alter, ← hl.columns, ← hl.next]
    exact Schema.listed_replace hs hd.spaced hfind hpos hm rfl
  | @drop _ name id _ _ hfind =>
    refine ⟨?_, hl.next⟩
    show ({ d.schema with columns := d.schema.columns.erase id } : Schema).listed =
      (r.drop name).columns
    rw [Schema.listed_erase hs hd.spaced hfind, Roster.drop, hl.columns]
  | retain => exact ⟨hl.columns, hl.next⟩

/-- A new table or view has the declared columns in their order. -/
theorem Birth.lists {op : Operation} {dir : Option DirId} (hb : Birth c op t dir d) :
    ∃ r, Roster.created op = some r ∧ d.schema.Dense ∧ d.Lists r := by
  obtain ⟨_, _, _, _, _, _, _, hgrow⟩ := hb.spec
  obtain ⟨hd, hl⟩ := hgrow.lists (r := Roster.empty) .start rfl ⟨rfl, rfl⟩
  refine ⟨Roster.declared op.columns, ?_, hd, hl⟩
  cases hb <;> rfl

/-- A change of rows changes no column. -/
theorem RowChange.apply_eq {h h' : TableHead} {op : Operation} (hr : RowChange t h op h')
    (r : Roster) : r.apply op = r := by
  cases hr <;> rfl

end Changes
end Cadastre
