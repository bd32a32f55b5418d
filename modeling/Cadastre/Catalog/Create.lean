/-
# Creating directories, tables and views

A directory is created at the top or under a directory that exists. A table is
created in a directory, at data version 0 and schema version 0, with its first
columns. A view is created over a base, whose columns it reads before its own.

Key definitions: `TableSpec`, `ViewSpec`, `Catalog.createDirectory`,
`Catalog.createTable`, `Catalog.createView`, `Catalog.ensureDirectory`.
-/
import Cadastre.Catalog.Mutation
import Cadastre.Store.Directory

namespace Cadastre

/-- A table to create. -/
structure TableSpec where
  dir : DirId
  name : String
  columns : List ColumnSpec := []
  /-- How many data versions stay readable; the catalog's default if it is not said. -/
  retained : Option UInt32 := none
  comment : String := ""

/-- The iterator of a view and its arguments. -/
structure IteratorSpec where
  className : String
  args : Json

/-- A view to create. -/
structure ViewSpec where
  dir : DirId
  name : String
  base : TableId
  isSnapshot : Bool := false
  /-- The version of the base that a snapshot fixes; its current one if it is not said. -/
  baseVersion : Option Version := none
  predicate : Option Json := none
  iterator : Option IteratorSpec := none
  columns : List ColumnSpec := []
  retained : Option UInt32 := none
  comment : String := ""

namespace Catalog

/-- Creates a directory under the given identifier. -/
def createDirectory (c : Catalog) (id : DirId) (parent : Option DirId) (name : String) :
    Except Error (Plan Directory) :=
  if !isIdentifier name then .error (.catalog (.invalidName .directory name))
  else do
    let _ ← match parent with
      | some p => (c.store.directory p).map fun _ => ()
      | none => .ok ()
    .ok {
      writes := [(.dir id, .plain parent (Payload.toJson (DirInfo.mk name)))]
      result := ⟨id, parent, name⟩
      log := [.debug ("created directory " ++ name ++ " (" ++ id.text ++ ")")] }

/-- The top directory with a name, which is created if it does not exist. -/
def ensureDirectory (c : Catalog) (id : DirId) (name : String) : Except Error (Plan Directory) :=
  match c.store.findDirectory none name with
  | .error e => .error e
  | .ok (some d) => .ok ⟨[], d, []⟩
  | .ok none => c.createDirectory id none name

/-- The head and the schema of a table or view without columns. -/
def newDraft (c : Catalog) (id : TableId) (name : String) (retained : Option UInt32)
    (comment : String) (view : Option ViewSource) : Except Error Draft :=
  if !isIdentifier name then .error (.catalog (.invalidName .table name))
  else
    let retained := retained.getD c.config.retained
    if retained = 0 then .error (.catalog (.invalidRetention id))
    else .ok {
      head := ⟨name, 0, 0, 0, 0, .empty, view⟩
      schema := ⟨0, none, .empty, retained, comment⟩ }

/-- Creates a table under the given identifier. -/
def createTable (c : Catalog) (now : Float) (id : TableId) (spec : TableSpec) :
    Except Error (Plan Table) := do
  let _ ← c.store.directory spec.dir
  let start ← c.newDraft id spec.name spec.retained spec.comment none
  let (d, _) ← c.appendColumns id start [] spec.columns
  .ok {
    writes := commitWrites id (some spec.dir) now d.head (some d.schema)
    result := ⟨id, some spec.dir, d.head⟩
    log := [.debug ("created table " ++ spec.name ++ " (" ++ id.text ++ ") with " ++
      toString d.schema.columns.size ++ " columns")] }

/-- Creates a view under the given identifier. -/
def createView (c : Catalog) (now : Float) (id : TableId) (spec : ViewSpec) :
    Except Error (Plan Table) := do
  let _ ← c.store.directory spec.dir
  let base ← c.store.table spec.base
  let bases ← c.store.resolveBases base spec.isSnapshot spec.baseVersion
  let source : ViewSource := {
    isSnapshot := spec.isSnapshot
    bases := bases
    predicate := spec.predicate
    iterator := spec.iterator.map (·.className)
    iteratorArgs := spec.iterator.map (·.args) }
  let start ← c.newDraft id spec.name spec.retained spec.comment (some source)
  let visible ← c.visibleColumns start
  let (d, _) ← c.appendColumns id start visible spec.columns
  .ok {
    writes := commitWrites id (some spec.dir) now d.head (some d.schema)
    result := ⟨id, some spec.dir, d.head⟩
    log := [.debug ("created view " ++ spec.name ++ " (" ++ id.text ++ ") over " ++
      base.id.text)] }

end Catalog
end Cadastre
