/-
# Columns that can be reclaimed

A dropped column keeps its storage while a reachable schema version holds it. A
schema version is reachable when a retained data version is read with it, or a
snapshot fixes a version that is.

Key definitions: `reclaimable`, `Store.pinnedSchemas`,
`Store.reclaimCandidates`.
-/
import Cadastre.Store.Table

namespace Cadastre

/-- The least of the versions, if there are any. -/
def leastOf : List SchemaVersion → Option SchemaVersion
  | [] => none
  | v :: vs =>
    match leastOf vs with
    | none => some v
    | some w => some (min v w)

/-- Whether a column was dropped at or before the least reachable schema version. -/
def droppedBefore (least : Option SchemaVersion) (l : ColumnLife) : Bool :=
  match l.dropped, least with
  | none, _ => false
  | some _, none => true
  | some d, some m => d ≤ m

/-- The dropped columns that no reachable schema version needs. `pinned` are
the schema versions that snapshots fix. -/
def reclaimable (history : SortedMap ColumnId ColumnLife) (schemas : List Schema)
    (retained : List DataVersion) (pinned : List SchemaVersion) : List ColumnId :=
  let reachable := retained.map (·.schemaVersion) ++ pinned
  let used := (schemas.filter fun s => reachable.contains s.version).flatMap (·.columns.keys)
  ((history.values.filter (droppedBefore (leastOf reachable))).map (·.column)).filter
    fun c => !used.contains c

namespace Store

/-- The versions of `t` that a table fixes, if it is a snapshot. -/
def pins (t : TableId) (other : Table) : List Version :=
  match other.head.view with
  | none => []
  | some v => if v.isSnapshot then v.bases.filterMap fun (b, w) => if b = t then w else none else []

/-- The schema versions of data versions of `t`. -/
def schemaVersionsOf (s : Store) (t : TableId) : List Version → Except Error (List SchemaVersion)
  | [] => .ok []
  | v :: vs => do
    let d ← s.dataVersion t v
    let more ← s.schemaVersionsOf t vs
    .ok (d.schemaVersion :: more)

/-- The schema versions of `t` that snapshots fix. -/
def pinnedSchemas (s : Store) (t : TableId) : Except Error (List SchemaVersion) :=
  s.schemaVersionsOf t (s.tables.flatMap (pins t))

/-- The columns of a table whose storage can be reclaimed. All heads are read
once the table's own records are, so their warnings come with what follows. -/
def reclaimCandidates (s : Store) (t : TableId) : Reported (List ColumnId) :=
  let own : Except Error (Table × List Schema × List DataVersion) := do
    let table ← s.table t
    let schemas ← s.schemas t
    let retained ← s.retainedVersions t
    .ok (table, schemas, retained)
  match own with
  | .error e => ⟨.error e, []⟩
  | .ok (table, schemas, retained) =>
    match s.pinnedSchemas t with
    | .error e => ⟨.error e, s.tableWarnings⟩
    | .ok pinned =>
      let found := reclaimable table.head.history schemas retained pinned
      ⟨.ok found, s.tableWarnings ++ [.debug ("table " ++ t.text ++ " has " ++
        toString found.length ++ " collectable columns")]⟩

end Store
end Cadastre
