/-
# Operations on a catalog

Everything that writes to a catalog's store is an operation. An operation has a
plan, which depends on what the catalog holds and on the time, and is carried
out by writing the plan's records; a run is a list of operations, carried out
one after the other whether they fail or not.

Key definitions: `Operation`, `Outcome`, `Operation.plan`,
`Catalog.perform`, `Catalog.run`.
Key theorems: `Catalog.perform_of_error`.
-/
import Cadastre.Catalog.Alter
import Cadastre.Catalog.Create
import Cadastre.Catalog.Function
import Cadastre.Catalog.Rows

namespace Cadastre

/-- An operation that writes. New directories and tables come with fresh
identifiers, mutations with the data version they expect. -/
inductive Operation where
  /-- Writes the system record, or checks the one that exists. -/
  | init
  | createDirectory (id : DirId) (parent : Option DirId) (name : String)
  | ensureDirectory (id : DirId) (name : String)
  | createTable (id : TableId) (spec : TableSpec)
  | createView (id : TableId) (spec : ViewSpec)
  | addColumn (table : TableId) (expected : Version) (column : ColumnSpec)
  | renameColumn (table : TableId) (expected : Version) (source target : String)
  | alterColumn (table : TableId) (expected : Version) (column : String) (type : ColumnType)
  | dropColumn (table : TableId) (expected : Version) (column : String)
  | setRetention (table : TableId) (expected : Version) (retained : UInt32)
  | insertRows (table : TableId) (expected : Version) (count : Nat)
  | updateRows (table : TableId) (expected : Version) (rows : List RowId)
  | deleteRows (table : TableId) (expected : Version) (rows : List RowId)
  | storeFunction (dir : Option DirId) (function : BoundFunction)

/-- What an operation answers. -/
inductive Outcome where
  | system (info : SystemInfo)
  | directory (dir : Directory)
  | table (table : Table)
  | version (version : Version)
  | column (version : Version) (column : ColumnId)
  | rows (version : Version) (rows : List RowId)
  | function (id : FunctionId)

namespace Catalog

/-- Writes the system record of a fresh store, or checks that the existing one
is of a layout that is known. -/
def init (c : Catalog) : Except Error (Plan SystemInfo) :=
  match c.store.read? SystemInfo .systemInfo with
  | .error e => .error e
  | .ok (some (_, i)) =>
    if layoutVersion < i.layout then
      .error (.catalog (.unsupportedSchemaVersion i.layout layoutVersion))
    else .ok ⟨[], i, []⟩
  | .ok none =>
    let info : SystemInfo := ⟨layoutVersion⟩
    .ok {
      writes := [(.systemInfo, .plain none (Payload.toJson info))]
      result := info
      log := [.debug ("initialized metadata schema version " ++ toString info.layout)] }

/-- Sets how many data versions stay readable, as a schema change. -/
def setRetention (c : Catalog) (now : Float) (t : TableId) (expected : Version)
    (retained : UInt32) : Except Error (Plan (Version × Unit)) :=
  if retained = 0 then .error (.catalog (.invalidRetention t))
  else
    c.schemaMutation now t expected fun d =>
      .ok ({ d with schema := { d.schema with retained := retained } }, ())

end Catalog

namespace Outcome

def ofVersion (r : Version × Unit) : Outcome := version r.1

def ofColumn (r : Version × ColumnId) : Outcome := column r.1 r.2

def ofRows (r : Version × List RowId) : Outcome := rows r.1 r.2

end Outcome

/-- The plan of an operation at the time `now`. -/
def Operation.plan (c : Catalog) (now : Float) : Operation → Except Error (Plan Outcome)
  | init => c.init.map (·.map .system)
  | createDirectory id parent name => (c.createDirectory id parent name).map (·.map .directory)
  | ensureDirectory id name => (c.ensureDirectory id name).map (·.map .directory)
  | createTable id spec => (c.createTable now id spec).map (·.map .table)
  | createView id spec => (c.createView now id spec).map (·.map .table)
  | addColumn t v s => (c.schemaMutation now t v (c.addColumn t s)).map (·.map .ofColumn)
  | renameColumn t v source target =>
    if !isIdentifier target then .error (.catalog (.invalidName .column target))
    else (c.schemaMutation now t v (c.renameColumn t source target)).map (·.map .ofVersion)
  | alterColumn t v name type =>
    if type.isInvalid then .error (.type .invalidType)
    else (c.schemaMutation now t v (Catalog.alterColumn t name type)).map (·.map .ofColumn)
  | dropColumn t v name =>
    (c.schemaMutation now t v (Catalog.dropColumn t name)).map (·.map .ofVersion)
  | setRetention t v retained => (c.setRetention now t v retained).map (·.map .ofVersion)
  | insertRows t v count =>
    (c.dataMutation now t v (TableHead.insertRows t count)).map (·.map .ofRows)
  | updateRows t v rows =>
    (c.dataMutation now t v (TableHead.updateRows t rows)).map (·.map .ofVersion)
  | deleteRows t v rows =>
    (c.dataMutation now t v (TableHead.deleteRows t rows)).map (·.map .ofVersion)
  | storeFunction dir f => (c.storeFunction dir f).map (·.map .function)

namespace Catalog

/-- Carries out an operation. -/
def perform (c : Catalog) (now : Float) (op : Operation) : Reported Outcome × Catalog :=
  c.commit (op.plan c now)

/-- Carries out operations, each at its time. -/
def run (c : Catalog) (ops : List (Float × Operation)) : Catalog :=
  ops.foldl (fun c o => (c.perform o.1 o.2).2) c

/-- Without a limit a failing operation changes nothing. -/
theorem perform_of_error {c : Catalog} {now : Float} {op : Operation} {e : Error}
    (h : c.writesLeft = none) (he : (c.perform now op).1.result = .error e) :
    (c.perform now op).2 = c :=
  commit_of_error h he

end Catalog
end Cadastre
