/-
# Adding columns

A column is added at the end of a schema, under the next column number. Its
name is an identifier that no visible column has. Only columns of images and
strings are indexed, and only a computed column may be without storage; a
computed column is no key, and its typed expression may use the visible columns
and the columns added before it.

Key definitions: `ColumnSpec`, `VisibleColumn`, `Draft`,
`Catalog.checkColumn`, `Catalog.checkExpr`, `Catalog.appendColumns`.
-/
import Cadastre.Catalog
import Cadastre.Metadata.Function
import Cadastre.Store.View

namespace Cadastre

/-- A column to add. -/
structure ColumnSpec where
  name : String
  type : ColumnType
  isKey : Bool := false
  computed : Option ComputedValue := none
  stored : Option Bool := none
  indexed : Bool := false

/-- A column that a value expression may use. -/
structure VisibleColumn where
  name : String
  type : ColumnType
  deriving DecidableEq, Repr

/-- The next state of a table: its head and its schema version. -/
structure Draft where
  head : TableHead
  schema : Schema

/-- Whether columns of the type can be indexed. -/
def ColumnType.isIndexable (t : ColumnType) : Bool := t.isImage || t == .string

namespace Catalog

/-- The name of a called function in diagnostics, and its signatures. -/
def callSignatures (c : Catalog) : FunctionRef → Except Error (String × List Signature)
  | .path path => (c.registry.resolve path).map fun f => (f.qualifiedName, f.signatures)
  | .id id =>
    match c.store.read? FunctionInfo (.function id) with
    | .error e => .error e
    | .ok none => .error (.catalog (.functionNotFound id))
    | .ok (some (_, i)) => .ok (i.name.getD id.text, i.function.signatures)

/-- A call names an overload that accepts the arguments and whose result
converts to the stated type. -/
def checkCall (c : Catalog) (f : FunctionRef) (overload : Nat) (args : List ColumnType)
    (returnType : ColumnType) : Except Error Unit := do
  let (name, signatures) ← c.callSignatures f
  match signatures[overload]? with
  | none => .error (.function (.unknownOverload name overload))
  | some s =>
    if (s.accepts? args).isNone then .error (.function (.noMatchingOverload name args))
    else (s.returnType.requireConversionTo returnType).map fun _ => ()

/-- A reference names a visible column that has the stated type or converts to
it. -/
def checkReference (column : String) (visible : List VisibleColumn) (name : String)
    (type : ColumnType) : Except Error Unit :=
  match visible.find? fun v => v.name == name with
  | none => .error (.catalog (.unknownColumnReference column name))
  | some v =>
    if v.type = type then .ok () else (v.type.requireConversionTo type).map fun _ => ()

mutual

/-- Checks the references and calls in the value expression of `column`.
Variables stand for the parameters of templates and are no columns. -/
def checkExpr (c : Catalog) (column : String) (visible : List VisibleColumn) :
    Expr → Except Error Unit
  | .column name type => checkReference column visible name type
  | .var name _ => .error (.catalog (.unknownColumnReference column name))
  | .literal _ => .ok ()
  | .call f overload args returnType => do
    checkArgs c column visible args
    c.checkCall f overload (args.map Expr.type) returnType

def checkArgs (c : Catalog) (column : String) (visible : List VisibleColumn) :
    List Expr → Except Error Unit
  | [] => .ok ()
  | e :: es => do
    checkExpr c column visible e
    checkArgs c column visible es

end

/-- Checks the value expression of a column of type `type`. -/
def checkComputed (c : Catalog) (column : String) (type : ColumnType)
    (visible : List VisibleColumn) : ComputedValue → Except Error Unit
  | .tree _ => .ok ()
  | .expr e => do
    c.checkExpr column visible e
    (e.type.requireConversionTo type).map fun _ => ()

/-- Checks a column on its own and against the visible columns. -/
def checkColumn (c : Catalog) (s : ColumnSpec) (visible : List VisibleColumn) :
    Except Error Unit :=
  if !isIdentifier s.name then .error (.catalog (.invalidName .column s.name))
  else if s.type.isInvalid then .error (.type .invalidType)
  else if s.indexed && !s.type.isIndexable then .error (.catalog (.notIndexable s.name s.type))
  else
    match s.computed with
    | none => if s.stored.isSome then .error (.catalog (.invalidStoragePolicy s.name)) else .ok ()
    | some v =>
      if s.isKey then .error (.catalog (.computedPrimaryKey s.name))
      else c.checkComputed s.name s.type visible v

end Catalog

namespace Draft

/-- The draft with a column under the next number, at the end of the schema. -/
def push (d : Draft) (s : ColumnSpec) : Draft :=
  let id := d.head.nextColumn
  { head := { d.head with
      nextColumn := id + 1
      history := d.head.history.insert id ⟨id, d.schema.version, none⟩ }
    schema := { d.schema with
      columns := d.schema.columns.insert id
        ⟨d.schema.columns.size, s.name, s.type, s.isKey, s.computed, s.stored, s.indexed⟩ } }

end Draft

namespace Catalog

/-- Adds columns in order, and lists their numbers. -/
def appendColumns (c : Catalog) (t : TableId) (d : Draft) (visible : List VisibleColumn) :
    List ColumnSpec → Except Error (Draft × List ColumnId)
  | [] => .ok (d, [])
  | s :: rest =>
    if visible.any fun v => v.name == s.name then
      .error (.catalog (.columnAlreadyExists t s.name))
    else do
      c.checkColumn s visible
      let (d', ids) ← c.appendColumns t (d.push s) (visible ++ [⟨s.name, s.type⟩]) rest
      .ok (d', d.head.nextColumn :: ids)

/-- The columns that a value expression of a table may use: those of its bases,
then its own. -/
def visibleColumns (c : Catalog) (d : Draft) : Except Error (List VisibleColumn) := do
  let inherited ← c.store.inheritedColumns d.head
  .ok ((inherited.map fun e => ⟨e.column.name, e.column.type⟩) ++
    d.schema.ordered.map fun (_, k) => ⟨k.name, k.type⟩)

end Catalog
end Cadastre
