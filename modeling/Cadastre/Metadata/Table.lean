/-
# The head and the versions of a table

The head of a table holds its counters, the history of its columns, and for a
view its source. Every change of the table makes a data version, which names
the schema version it is read with. A column lives from the schema version that
added it to the one that dropped it.

Key definitions: `ColumnLife`, `ViewSource`, `TableHead`, `DataVersion`.
-/
import Cadastre.Metadata
import Cadastre.Metadata.ColumnMap
import Cadastre.Value.Record

namespace Cadastre

/-- When a column was added and, once dropped, when it was dropped. -/
structure ColumnLife where
  column : ColumnId
  added : SchemaVersion
  dropped : Option SchemaVersion
  deriving DecidableEq, Repr

namespace ColumnLife

def isDropped (l : ColumnLife) : Bool := l.dropped.isSome

def toJson (l : ColumnLife) : Json := .obj [
  ("col_id", .ofNat l.column),
  ("schema_version_add", .ofNat l.added),
  ("schema_version_drop", .ofOption .ofNat l.dropped)]

def ofJson? (j : Json) : Option ColumnLife := do
  let ms ← j.members? ["col_id", "schema_version_add", "schema_version_drop"]
  let column ← Json.required ms "col_id" Json.nat32?
  let added ← Json.required ms "schema_version_add" Json.nat?
  let dropped ← Json.defaulted ms "schema_version_drop" (Json.nullable Json.nat?) none
  some ⟨column, added, dropped⟩

end ColumnLife

/-- What a view derives its rows from: the direct base first, then the base's
own bases. A snapshot fixes a version of each, a live view of none. -/
structure ViewSource where
  isSnapshot : Bool
  bases : List (TableId × Option Version)
  /-- A filter over the rows of the base, which the evaluator of expressions reads. -/
  predicate : Option Json
  /-- The class that expands each base row into rows of the view. -/
  iterator : Option String
  iteratorArgs : Option Json

namespace ViewSource

/-- The direct base. -/
def base (s : ViewSource) : Option TableId := s.bases.head?.map (·.1)

/-- Whether an iterator expands the rows of the base. -/
def isComponentView (s : ViewSource) : Bool := s.iterator.isSome

def baseToJson (b : TableId × Option Version) : Json :=
  .arr [b.1.toJson, .ofOption .ofNat b.2]

def baseOfJson? : Json → Option (TableId × Option Version)
  | .arr [t, v] => do
    let t ← Uuid.ofJson? t
    let v ← Json.nullable Json.nat? v
    some (t, v)
  | _ => none

/-- A value that may be absent; `null` is its absence. -/
def freeJson? : Json → Option (Option Json) := Json.nullable some

def toJson (s : ViewSource) : Json := .obj [
  ("base_versions", .ofList baseToJson s.bases),
  ("is_snapshot", .bool s.isSnapshot),
  ("iterator_args", .ofOption id s.iteratorArgs),
  ("iterator_class_fqn", .ofOption .str s.iterator),
  ("predicate", .ofOption id s.predicate)]

def ofJson? (j : Json) : Option ViewSource := do
  let ms ← j.members?
    ["is_snapshot", "base_versions", "predicate", "iterator_class_fqn", "iterator_args"]
  let isSnapshot ← Json.required ms "is_snapshot" Json.bool?
  let bases ← Json.defaulted ms "base_versions" (Json.list? baseOfJson?) []
  let predicate ← Json.defaulted ms "predicate" freeJson? none
  let iterator ← Json.defaulted ms "iterator_class_fqn" (Json.nullable Json.str?) none
  let iteratorArgs ← Json.defaulted ms "iterator_args" freeJson? none
  some ⟨isSnapshot, bases, predicate, iterator, iteratorArgs⟩

/-- A view has a base; a snapshot fixes every base version and a live view none. -/
def flaw? (s : ViewSource) : Option String :=
  if s.bases.isEmpty then some "view has no base table"
  else if s.isSnapshot && s.bases.any (·.2.isNone) then
    some "snapshot references a live base version"
  else if !s.isSnapshot && s.bases.any (·.2.isSome) then
    some "live view references a fixed base version"
  else none

end ViewSource

/-- The head of a table or view. -/
structure TableHead where
  name : String
  version : Version
  schemaVersion : SchemaVersion
  /-- The number of the next column. -/
  nextColumn : ColumnId
  /-- The number of the next row. -/
  nextRow : RowId
  /-- One entry per column of any schema version. -/
  history : SortedMap ColumnId ColumnLife
  view : Option ViewSource

namespace TableHead

def isView (h : TableHead) : Bool := h.view.isSome

def isSnapshot (h : TableHead) : Bool := h.view.any (·.isSnapshot)

def toJson (h : TableHead) : Json := .obj [
  ("column_history", .ofColumnMap ColumnLife.toJson h.history),
  ("current_schema_version", .ofNat h.schemaVersion),
  ("current_version", .ofNat h.version),
  ("name", .str h.name),
  ("next_col_id", .ofNat h.nextColumn),
  ("next_row_id", .ofNat h.nextRow),
  ("view_md", .ofOption ViewSource.toJson h.view)]

def ofJson? (j : Json) : Option TableHead := do
  let ms ← j.members? ["name", "current_version", "current_schema_version", "next_col_id",
    "next_row_id", "column_history", "view_md"]
  let name ← Json.required ms "name" Json.str?
  let version ← Json.required ms "current_version" Json.nat?
  let schemaVersion ← Json.required ms "current_schema_version" Json.nat?
  let nextColumn ← Json.required ms "next_col_id" Json.nat32?
  let nextRow ← Json.required ms "next_row_id" Json.nat?
  let history ← Json.defaulted ms "column_history" (Json.columnMap? ColumnLife.ofJson?) .empty
  let view ← Json.defaulted ms "view_md" (Json.nullable ViewSource.ofJson?) none
  some ⟨name, version, schemaVersion, nextColumn, nextRow, history, view⟩

/-- What is wrong with the history entry that is filed under a column. -/
def entryFlaw? (h : TableHead) (column : ColumnId) (l : ColumnLife) : Option String :=
  if column ≠ l.column then
    some ("history of column " ++ toString l.column ++ " is filed under " ++ toString column)
  else if h.nextColumn ≤ column then
    some ("column " ++ toString column ++ " was never allocated")
  else if h.schemaVersion < l.added then
    some ("column " ++ toString column ++ " was added after the current schema version")
  else if l.dropped.any (· ≤ l.added) then
    some ("column " ++ toString column ++ " was dropped before it was added")
  else none

/-- The schema version does not pass the data version, the history is that of
allocated columns, and the source of a view is sound. -/
def flaw? (h : TableHead) : Option String :=
  if h.version < h.schemaVersion then
    some ("current version " ++ toString h.version ++ " precedes current schema version " ++
      toString h.schemaVersion)
  else
    match h.history.entries.findSome? fun e => h.entryFlaw? e.1 e.2 with
    | some reason => some reason
    | none => h.view.bind ViewSource.flaw?

instance : Payload TableHead := ⟨toJson, ofJson?, flaw?⟩

end TableHead

/-- A data version of a table. -/
structure DataVersion where
  /-- Seconds since the start of 1970. -/
  createdAt : Float
  version : Version
  schemaVersion : SchemaVersion
  deriving Repr

namespace DataVersion

def toJson (v : DataVersion) : Json := .obj [
  ("created_at", .ofFloat v.createdAt),
  ("schema_version", .ofNat v.schemaVersion),
  ("version", .ofNat v.version)]

def ofJson? (j : Json) : Option DataVersion := do
  let ms ← j.members? ["created_at", "version", "schema_version"]
  let createdAt ← Json.required ms "created_at" Json.float?
  let version ← Json.required ms "version" Json.nat?
  let schemaVersion ← Json.required ms "schema_version" Json.nat?
  some ⟨createdAt, version, schemaVersion⟩

/-- A data version is not older than its schema version. -/
def flaw? (v : DataVersion) : Option String :=
  if v.version < v.schemaVersion then
    some ("version " ++ toString v.version ++ " is paired with the later schema version " ++
      toString v.schemaVersion)
  else none

instance : Payload DataVersion := ⟨toJson, ofJson?, flaw?⟩

end DataVersion
end Cadastre
