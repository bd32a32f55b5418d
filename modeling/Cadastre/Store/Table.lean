/-
# Tables and their versions

A table is found by its head. A corrupt head is skipped in the list of all
tables, with a warning, so that one damaged table does not hide the others. Of
the data versions the most recent ones stay readable, as many as the current
schema version says; a snapshot is a table as of one of them.

Key definitions: `Table`, `Snapshot`, `Store.table`, `Store.tables`,
`Store.retainedVersions`, `Store.snapshot`, `Store.snapshotAt`.
-/
import Cadastre.Event
import Cadastre.Metadata.Schema
import Cadastre.Metadata.Table
import Cadastre.Store

namespace Cadastre

/-- A table or view, with its head. -/
structure Table where
  id : TableId
  dir : Option DirId
  head : TableHead

/-- A table as of one data version. -/
structure Snapshot where
  table : TableId
  name : String
  version : DataVersion
  schema : Schema

namespace Store

def table (s : Store) (t : TableId) : Except Error Table :=
  match s.read? TableHead (.table t) with
  | .error e => .error e
  | .ok none => .error (.catalog (.tableNotFound t))
  | .ok (some (r, h)) => .ok ⟨t, r.dir, h⟩

/-! ### All tables -/

/-- What the record of a head gives: a table, or the error of its content. -/
def tableOfRecord? : Key × Record → Option (TableId × Except Error Table)
  | (.table t, r) => some (t, (Payload.decode (.table t) r.content).map fun h => ⟨t, r.dir, h⟩)
  | _ => none

/-- What the records of all heads give. -/
def tableResults (s : Store) : List (TableId × Except Error Table) :=
  (s.scan .tables).filterMap tableOfRecord?

/-- The tables and views whose heads are sound. -/
def tables (s : Store) : List Table :=
  s.tableResults.filterMap fun (_, t) => t.toOption

/-- A warning for every head that is corrupt. -/
def tableWarnings (s : Store) : List Event :=
  s.tableResults.filterMap fun (id, t) =>
    match t with
    | .ok _ => none
    | .error e => some (.warn ("skipping table " ++ id.text ++ ": " ++ e.message))

/-- The table with a name in a directory. -/
def findTable (s : Store) (dir : DirId) (name : String) : Option Table :=
  s.tables.find? fun t => t.dir == some dir && t.head.name == name

/-! ### Versions -/

def schema (s : Store) (t : TableId) (v : SchemaVersion) : Except Error Schema :=
  s.require Schema (.schemaVersion t v)

def dataVersion (s : Store) (t : TableId) (v : Version) : Except Error DataVersion :=
  match s.read? DataVersion (.tableVersion t v) with
  | .error e => .error e
  | .ok none => .error (.catalog (.versionNotFound t v))
  | .ok (some (_, d)) => .ok d

/-- The data versions of a table, the oldest first. -/
def dataVersions (s : Store) (t : TableId) : Except Error (List DataVersion) :=
  decodeAll DataVersion (s.scan (.tableVersions t))

/-- The schema versions of a table, the oldest first. -/
def schemas (s : Store) (t : TableId) : Except Error (List Schema) :=
  decodeAll Schema (s.scan (.schemaVersions t))

/-- The last `n` elements of a list. -/
def lastOf {α : Type} (n : Nat) (l : List α) : List α := l.drop (l.length - n)

/-- The data versions that stay readable. -/
def retainedVersions (s : Store) (t : TableId) : Except Error (List DataVersion) := do
  let table ← s.table t
  let schema ← s.schema t table.head.schemaVersion
  let versions ← s.dataVersions t
  .ok (lastOf schema.retained.toNat (versions.filter fun v => v.version ≤ table.head.version))

/-- A table as of a data version, whether it stays readable or not. -/
def snapshotAt (s : Store) (t : Table) (v : Version) : Except Error Snapshot :=
  if t.head.version < v then .error (.catalog (.versionNotFound t.id v))
  else do
    let version ← s.dataVersion t.id v
    let schema ← s.schema t.id version.schemaVersion
    .ok ⟨t.id, t.head.name, version, schema⟩

/-- A table as of a data version that stays readable, its current one if none is
given. -/
def snapshot (s : Store) (t : TableId) (version : Option Version) : Except Error Snapshot := do
  let table ← s.table t
  let v := version.getD table.head.version
  let retained ← s.retainedVersions t
  if retained.any fun r => r.version == v then s.snapshotAt table v
  else .error (.catalog (.versionNotFound t v))

end Store
end Cadastre
