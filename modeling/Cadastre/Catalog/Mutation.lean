/-
# Mutations of a table

A mutation names the data version that it expects the table to be at, and makes
the next one. A schema mutation also makes the next schema version; the
positions of its columns are dense. The new version's records are written
before the head, so no reader finds them until the head is replaced.

Key definitions: `commitWrites`, `Catalog.schemaMutation`,
`Catalog.dataMutation`.
-/
import Cadastre.Catalog.Column

namespace Cadastre

/-- The records of a table's version: its schema version if that is new, its
data version, and last its head. -/
def commitWrites (t : TableId) (dir : Option DirId) (now : Float) (h : TableHead)
    (schema : Option Schema) : List (Key × Record) :=
  (match schema with
    | some s => [(.schemaVersion t s.version, .plain none s.toJson)]
    | none => []) ++
  [(.tableVersion t h.version, .plain none (DataVersion.toJson ⟨now, h.version, h.schemaVersion⟩)),
    (.table t, .plain dir h.toJson)]

namespace Catalog

/-- The table of a mutation: no snapshot, and at the expected version. -/
def mutableTable (c : Catalog) (t : TableId) (expected : Version) : Except Error Table := do
  let table ← c.store.table t
  if table.head.isSnapshot then .error (.catalog (.immutableSnapshot t))
  else if table.head.version ≠ expected then
    .error (.catalog (.versionConflict t expected table.head.version))
  else .ok table

/-- The draft of the next schema version. -/
def nextDraft (h : TableHead) (s : Schema) : Draft where
  head := { h with version := h.version + 1, schemaVersion := h.schemaVersion + 1 }
  schema := { s with version := h.schemaVersion + 1, preceding := some s.version }

/-- Makes the next schema version by `change`, which works on its draft. The
result comes with the new data version. -/
def schemaMutation {α : Type} (c : Catalog) (now : Float) (t : TableId) (expected : Version)
    (change : Draft → Except Error (Draft × α)) : Except Error (Plan (Version × α)) := do
  let table ← c.mutableTable t expected
  let schema ← c.store.schema t table.head.schemaVersion
  let (d, a) ← change (nextDraft table.head schema)
  let schema := d.schema.compact
  .ok {
    writes := commitWrites t table.dir now d.head (some schema)
    result := (d.head.version, a)
    log := [.debug ("table " ++ t.text ++ " at version " ++ toString d.head.version ++
      " with schema version " ++ toString schema.version)] }

/-- Makes the next data version by `change`, which works on its head. The result
comes with the new data version. -/
def dataMutation {α : Type} (c : Catalog) (now : Float) (t : TableId) (expected : Version)
    (change : TableHead → Except Error (TableHead × α)) : Except Error (Plan (Version × α)) := do
  let table ← c.mutableTable t expected
  let (h, a) ← change { table.head with version := table.head.version + 1 }
  .ok {
    writes := commitWrites t table.dir now h none
    result := (h.version, a)
    log := [.debug ("table " ++ t.text ++ " at version " ++ toString h.version)] }

end Catalog
end Cadastre
