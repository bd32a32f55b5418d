/-
# Reports

What a catalog holds and answers, as JSON: types with all that is known of
them, functions with their names and signatures, directories, tables, versions
and records. The time of a data version is left out, so that the same
operations give the same report at any time.

Key definitions: `Diagnostic.toJson`, `ColumnType.report`,
`BoundFunction.report`, `Table.report`, `Snapshot.report`, `Record.report`,
`Outcome.report`.
-/
import Cadastre.Catalog.Operation
import Cadastre.ColumnType.Concrete

namespace Cadastre

namespace Json

def ofStrings (l : List String) : Json := ofList .str l

def ofBytes (l : List UInt8) : Json := ofList (fun b => .ofNat b.toNat) l

end Json

def ErrorKind.name : ErrorKind → String
  | definition => "Definition"
  | type => "Type"
  | versionConflict => "VersionConflict"
  | registryConflict => "RegistryConflict"
  | corruptMetadata => "CorruptMetadata"
  | catalog => "Catalog"
  | internal => "Internal"

/-- A diagnostic with its causes. -/
def Diagnostic.toJson : Diagnostic → Json
  | mk code message label help notes cause => .obj [
      ("cause", match cause with
        | some c => c.toJson
        | none => .null),
      ("code", .str code),
      ("help", .ofOption .str help),
      ("label", .ofOption .str label),
      ("message", .str message),
      ("notes", .ofStrings notes)]

/-- An error: its code, kind and message, and its other parts if it has them. -/
def Error.report (e : Error) : List (String × Json) :=
  let d := e.diagnostic
  [("error", .str d.code), ("kind", .str d.kind.name), ("message", .str d.message)] ++
    (match d.label with
      | some l => [("label", .str l)]
      | none => []) ++
    (match d.help with
      | some h => [("help", .str h)]
      | none => []) ++
    if d.notes.isEmpty then [] else [("notes", .ofStrings d.notes)]

/-- A result under `ok`, or an error. -/
def reportResult {α : Type} (write : α → Json) : Except Error α → Json
  | .ok a => .obj [("ok", write a)]
  | .error e => .obj e.report

/-! ### Types and values -/

def ColumnType.report (t : ColumnType) : Json := .obj [
  ("display", .str t.display),
  ("image", .bool t.isImage),
  ("invalid", .bool t.isInvalid),
  ("record", reportResult id t.toRecord),
  ("scalar", .bool t.isScalar),
  ("sql", .ofOption .str t.storageType),
  ("tag", .str t.tag.name),
  ("u8", .ofNat t.tag.number)]

def TypeTag.report (t : TypeTag) : Json := .obj [
  ("display", .str t.name),
  ("make", reportResult ColumnType.report (ColumnType.ofTag t)),
  ("name", .str t.name),
  ("u8", .ofNat t.number)]

def Value.report (v : Value) : Json := .obj [
  ("display", .str v.type.display),
  ("is_none", .bool v.isNone),
  ("type", v.type.toJson),
  ("value", v.toJson)]

def Image.report (i : Image) : Json := .obj [
  ("height", .ofNat i.height.toNat),
  ("mode", i.mode.toJson),
  ("pixels", .ofBytes i.pixels),
  ("type", .str (Value.image i).type.display),
  ("width", .ofNat i.width.toNat)]

def NdArray.report (a : NdArray) : Json := .obj [
  ("array", a.toJson),
  ("data", .ofBytes a.data),
  ("dtype", a.element.toJson),
  ("item_bytes", .ofNat a.element.size),
  ("shape", .ofList .ofNat a.shape),
  ("type", .str (Value.array a).type.display)]

/-! ### Functions -/

def Implementation.report : Implementation → Json
  | callables cs => .str ("Callable(" ++ toString cs.length ++ " overloads)")
  | templates ts => .ofList (fun t => t.body.toJson) ts

def BoundFunction.report (f : BoundFunction) : Json := .obj [
  ("batch_size", .ofOption .ofNat f.batchSize),
  ("display_name", .str f.displayName),
  ("help", .str f.helpText),
  ("id", f.id.toJson),
  ("implementation", f.implementation.report),
  ("is_method", .bool f.isMethod),
  ("is_property", .bool f.isProperty),
  ("is_template", .bool f.isTemplate),
  ("name", .str f.name),
  ("path", .ofOption .str f.path),
  ("pool", .ofOption (fun _ => .str "ResourcePool(..)") f.pool),
  ("qualified_name", .str f.qualifiedName),
  ("ref", f.ref.toJson),
  ("ref_display", .str f.ref.display),
  ("signatures", .ofList Signature.toJson f.signatures)]

/-- An expression with its type and the columns it refers to. -/
def Expr.report (e : Expr) : List (String × Json) := [
  ("column_refs", .ofStrings e.columnRefs),
  ("expr", e.toJson),
  ("type", .str e.type.display)]

def Registry.report (r : Registry) : Json := .obj [
  ("empty", .bool r.isEmpty),
  ("len", .ofNat r.size),
  ("paths", .ofStrings r.paths),
  ("shared", .bool true)]

/-! ### The catalog -/

def Config.report (c : Config) : Json :=
  .arr [.ofNat c.retained.toNat, .bool c.computedStored, .str c.runtimeVersion]

def TableHead.report (h : TableHead) : Json := .obj [
  ("base", .ofOption Uuid.toJson (h.view.bind (·.base))),
  ("dropped", .ofList (fun l => .ofNat l.column) (h.history.values.filter (·.isDropped))),
  ("is_component_view", .ofOption (fun v => .bool v.isComponentView) h.view),
  ("is_snapshot", .bool h.isSnapshot),
  ("is_view", .bool h.isView)]

/-- The columns of a schema version, and those that have to do with a name. -/
def Schema.report (s : Schema) (name : String) : Json := .obj [
  ("dependents", .ofList (fun c => .str c.name) (s.dependents name)),
  ("found", .ofOption (fun e => .ofNat e.1) (s.find? name)),
  ("ordered", .ofList (fun e => .arr [.ofNat e.1, .str e.2.name]) s.ordered),
  ("stored", .ofList (fun c : Column => .arr [.str c.name, .bool c.isComputed,
    .bool (c.isStored true), .bool (c.isStored false)]) s.columns.values)]

def Directory.report (d : Directory) : Json :=
  .obj [("id", d.id.toJson), ("name", .str d.name), ("parent", .ofOption Uuid.toJson d.parent)]

def Table.report (t : Table) : Json := .obj [
  ("dir", .ofOption Uuid.toJson t.dir),
  ("id", t.id.toJson),
  ("md", t.head.toJson),
  ("name", .str t.head.name),
  ("version", .ofNat t.head.version)]

/-- A table in a list of tables. -/
def Table.line (t : Table) : Json :=
  .arr [t.id.toJson, .ofOption Uuid.toJson t.dir, .str t.head.name]

def DataVersion.report (v : DataVersion) : Json :=
  .obj [("schema_version", .ofNat v.schemaVersion), ("version", .ofNat v.version)]

/-- A snapshot, with the number of the named column. -/
def Snapshot.report (s : Snapshot) (column : Option String) : Json := .obj [
  ("column_names", .ofStrings s.schema.columnNames),
  ("found", .ofOption (fun e => .ofNat e.1) (column.bind s.schema.find?)),
  ("name", .str s.name),
  ("schema", s.schema.toJson),
  ("table", s.table.toJson),
  ("version", s.version.report)]

def EffectiveColumn.report (c : EffectiveColumn) : Json :=
  .obj [("col_id", .ofNat c.id), ("column", c.column.toJson), ("table", c.table.toJson)]

/-- The content of a record, without the time of a data version. -/
def Record.timeless : Key → Json → Json
  | .tableVersion .., .obj ms => .obj (ms.filter fun m => m.1 != "created_at")
  | _, j => j

def Record.report (k : Key) (r : Record) : Json := .obj [
  ("body", .ofOption .ofBytes r.body),
  ("dir", .ofOption Uuid.toJson r.dir),
  ("key", .str k.display),
  ("md", timeless k r.content),
  ("runtime_version", .ofOption .str r.runtimeVersion)]

namespace Outcome

def report : Outcome → Json
  | system i => Payload.toJson i
  | directory d => d.report
  | table t => t.report
  | version v => .ofNat v
  | column v c => .arr [.ofNat v, .ofNat c]
  | rows v ids => .arr [.ofNat v, .ofList .ofNat ids]
  | function id => id.toJson

/-- The identifier of what was made. -/
def id? : Outcome → Option Uuid
  | directory d => some d.id
  | table t => some t.id
  | function id => some id
  | _ => none

end Outcome
end Cadastre
