/-
# Keys as lists

A key is written as the list of its kind and its parts, a range of keys as the
list of the kind of its keys and, for versions, the table.

Key definitions: `Key.ofJson?`, `KeyRange.ofJson?`.
-/
import Cadastre.Key

namespace Cadastre

/-- A table and a version. -/
def Key.versionParts? (table version : Json) : Option (TableId × Nat) := do
  let t ← Uuid.ofJson? table
  let v ← version.nat?
  some (t, v)

/-- The key that a list writes. -/
def Key.ofJson? : Json → Option Key
  | .arr [.str "system_info"] => some .systemInfo
  | .arr [.str "dir", d] => (Uuid.ofJson? d).map .dir
  | .arr [.str "table", t] => (Uuid.ofJson? t).map .table
  | .arr [.str "function", f] => (Uuid.ofJson? f).map .function
  | .arr [.str "table_version", t, v] => (versionParts? t v).map fun (t, v) => .tableVersion t v
  | .arr [.str "table_schema_version", t, v] =>
    (versionParts? t v).map fun (t, v) => .schemaVersion t v
  | _ => none

/-- The range that a list writes. -/
def KeyRange.ofJson? : Json → Option KeyRange
  | .arr [.str "dirs"] => some .dirs
  | .arr [.str "tables"] => some .tables
  | .arr [.str "table_versions", t] => (Uuid.ofJson? t).map .tableVersions
  | .arr [.str "table_schema_versions", t] => (Uuid.ofJson? t).map .schemaVersions
  | _ => none

end Cadastre
