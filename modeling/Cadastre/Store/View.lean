/-
# Views

A view reads the columns of its bases, those of the root first, before its own.
A fixed base version is read even when it is no longer retained; a live base is
read as of its current version.

Key definitions: `EffectiveColumn`, `Store.baseColumns`,
`Store.effectiveSchema`, `Store.resolveBases`.
-/
import Cadastre.Store.Table

namespace Cadastre

/-- A column that can be read through a table, with the table that owns it. -/
structure EffectiveColumn where
  table : TableId
  id : ColumnId
  column : Column

/-- The columns of a snapshot by position. -/
def Snapshot.columns (s : Snapshot) : List EffectiveColumn :=
  s.schema.ordered.map fun (id, c) => ⟨s.table, id, c⟩

namespace Store

/-- The columns of bases, in the order of the list. -/
def columnsOf (s : Store) : List (TableId × Option Version) → Except Error (List EffectiveColumn)
  | [] => .ok []
  | (t, v) :: rest => do
    let table ← s.table t
    let snapshot ← s.snapshotAt table (v.getD table.head.version)
    let more ← s.columnsOf rest
    .ok (snapshot.columns ++ more)

/-- The columns that a view reads from its bases, the root's first. -/
def baseColumns (s : Store) (v : ViewSource) : Except Error (List EffectiveColumn) :=
  s.columnsOf v.bases.reverse

/-- The columns of the bases, if the table is a view. -/
def inheritedColumns (s : Store) (h : TableHead) : Except Error (List EffectiveColumn) :=
  match h.view with
  | some v => s.baseColumns v
  | none => .ok []

/-- The columns that can be read through a table as of a version, its current
one if none is given. -/
def effectiveSchema (s : Store) (t : TableId) (version : Option Version) :
    Except Error (List EffectiveColumn) := do
  let table ← s.table t
  let snapshot ← s.snapshot t version
  let inherited ← s.inheritedColumns table.head
  .ok (inherited ++ snapshot.columns)

/-- The bases with every version fixed; a live one at its current version. -/
def pinAll (s : Store) : List (TableId × Option Version) →
    Except Error (List (TableId × Option Version))
  | [] => .ok []
  | (t, some v) :: rest => do
    let more ← s.pinAll rest
    .ok ((t, some v) :: more)
  | (t, none) :: rest => do
    let table ← s.table t
    let more ← s.pinAll rest
    .ok ((t, some table.head.version) :: more)

/-- The bases of a view over `base`: the base itself, then its own bases. A
snapshot fixes all their versions, that of the direct base to a readable one; a
live view fixes none, so it can be neither over a snapshot nor at a version. -/
def resolveBases (s : Store) (base : Table) (isSnapshot : Bool) (version : Option Version) :
    Except Error (List (TableId × Option Version)) :=
  let chain := (base.head.view.map (·.bases)).getD []
  if isSnapshot then do
    let v := version.getD base.head.version
    let _ ← s.snapshot base.id (some v)
    let pinned ← s.pinAll chain
    .ok ((base.id, some v) :: pinned)
  else if base.head.isSnapshot then .error (.catalog (.liveViewOverSnapshot base.id))
  else
    match version with
    | some v => .error (.catalog (.liveViewAtVersion base.id v))
    | none => .ok ((base.id, none) :: chain)

end Store
end Cadastre
