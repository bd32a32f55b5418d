/-
# Changing the columns of a table

Columns are added, renamed, given another type and dropped. A column whose name
a computed column uses is neither renamed nor altered nor dropped. Altering the
type moves the column under a new number, as its values are converted into new
storage; the old number is retired like that of a dropped column.

Key definitions: `Draft.add`, `Draft.rename`, `Draft.alter`, `Draft.drop`.
-/
import Cadastre.Catalog.Mutation

namespace Cadastre

namespace Draft

/-- The column with a name. -/
def column (d : Draft) (t : TableId) (name : String) : Except Error (ColumnId × Column) :=
  match d.schema.find? name with
  | some e => .ok e
  | none => .error (.catalog (.columnNotFound t name))

/-- No other computed column uses the name. -/
def requireUnreferenced (d : Draft) (t : TableId) (name : String) : Except Error Unit :=
  match (d.schema.dependents name).find? fun c => c.name != name with
  | some c => .error (.catalog (.columnInUse t name c.name))
  | none => .ok ()

/-- Ends the life of a column with the schema version of the draft. -/
def retire (d : Draft) (t : TableId) (id : ColumnId) : Except Error Draft :=
  match d.head.history.get? id with
  | none => .error (.catalog (.missingHistory t id d.head.schemaVersion))
  | some l => .ok {
      head := { d.head with
        history := d.head.history.insert id { l with dropped := some d.head.schemaVersion } }
      schema := { d.schema with columns := d.schema.columns.erase id } }

/-- Puts a column, as it is, under the next number. -/
def adopt (d : Draft) (c : Column) : Draft :=
  let id := d.head.nextColumn
  { head := { d.head with
      nextColumn := id + 1
      history := d.head.history.insert id ⟨id, d.schema.version, none⟩ }
    schema := { d.schema with columns := d.schema.columns.insert id c } }

/-- Replaces the column under a number. -/
def update (d : Draft) (id : ColumnId) (c : Column) : Draft :=
  { d with schema := { d.schema with columns := d.schema.columns.insert id c } }

end Draft

namespace Catalog

/-- Adds a column. -/
def addColumn (c : Catalog) (t : TableId) (s : ColumnSpec) (d : Draft) :
    Except Error (Draft × ColumnId) := do
  let visible ← c.visibleColumns d
  let (d', _) ← c.appendColumns t d visible [s]
  .ok (d', d.head.nextColumn)

/-- Renames a column to a name that no visible column has. -/
def renameColumn (c : Catalog) (t : TableId) (source target : String) (d : Draft) :
    Except Error (Draft × Unit) := do
  let (id, column) ← d.column t source
  let visible ← c.visibleColumns d
  if visible.any fun v => v.name == target then
    .error (.catalog (.columnAlreadyExists t target))
  else do
    d.requireUnreferenced t source
    .ok (d.update id { column with name := target }, ())

/-- The value of a column and its value expression convert to the new type, and
an indexed column stays indexable. -/
def checkAlteration (column : Column) (type : ColumnType) : Except Error Unit := do
  let _ ← column.type.requireConversionTo type
  let _ ← match column.computed with
    | some (.expr e) => (e.type.requireConversionTo type).map fun _ => ()
    | _ => .ok ()
  if column.indexed && !type.isIndexable then
    .error (.catalog (.notIndexable column.name type))
  else .ok ()

/-- Gives a column another type, under a new number. -/
def alterColumn (t : TableId) (name : String) (type : ColumnType) (d : Draft) :
    Except Error (Draft × ColumnId) := do
  let (id, column) ← d.column t name
  d.requireUnreferenced t name
  checkAlteration column type
  let retired ← d.retire t id
  .ok (retired.adopt { column with type := type }, d.head.nextColumn)

/-- Drops a column that is no key. -/
def dropColumn (t : TableId) (name : String) (d : Draft) : Except Error (Draft × Unit) := do
  let (id, column) ← d.column t name
  if column.isKey then .error (.catalog (.primaryKeyColumn t name))
  else do
    d.requireUnreferenced t name
    let retired ← d.retire t id
    .ok (retired, ())

end Catalog
end Cadastre
