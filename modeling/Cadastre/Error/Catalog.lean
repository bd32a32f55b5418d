/-
# Errors of the catalog

Why an operation on directories, tables, columns, rows, views or stored
functions is refused, and what is wrong with a stored record.

Key definitions: `CatalogError`, `CatalogError.message`,
`CatalogError.diagnostic`.
-/
import Cadastre.ColumnType
import Cadastre.Diagnostic
import Cadastre.Key

namespace Cadastre

/-- What a name belongs to. -/
inductive NameKind where
  | directory
  | table
  | column
  deriving DecidableEq, Repr

def NameKind.text : NameKind → String
  | directory => "directory"
  | table => "table"
  | column => "column"

/-- Why an operation on the catalog is refused. -/
inductive CatalogError where
  | dirNotFound (dir : DirId)
  | tableNotFound (table : TableId)
  | columnNotFound (table : TableId) (column : String)
  | columnAlreadyExists (table : TableId) (column : String)
  | versionNotFound (table : TableId) (version : Version)
  | immutableSnapshot (table : TableId)
  | viewRowMutation (table : TableId)
  | columnInUse (table : TableId) (column dependent : String)
  | primaryKeyColumn (table : TableId) (column : String)
  | invalidName (kind : NameKind) (name : String)
  | notIndexable (column : String) (type : ColumnType)
  | invalidStoragePolicy (column : String)
  | invalidRetention (table : TableId)
  | functionNotFound (function : FunctionId)
  | liveViewOverSnapshot (base : TableId)
  | rowNotAllocated (table : TableId) (row : RowId)
  | computedPrimaryKey (column : String)
  | unknownColumnReference (column reference : String)
  | liveViewAtVersion (base : TableId) (version : Version)
  | rowIdsExhausted (table : TableId) (count : Nat)
  | versionConflict (table : TableId) (expected actual : Version)
  /-- The record does not hold the fields of its kind. -/
  | undecodable (key : Key)
  /-- The record violates a rule of its kind. -/
  | invalidRecord (key : Key) (reason : String)
  | unsupportedSchemaVersion (stored supported : UInt32)
  | missingRecord (key : Key)
  | missingHistory (table : TableId) (column : ColumnId) (version : SchemaVersion)
  deriving DecidableEq, Repr

namespace CatalogError

/-- A name in the quotes of the messages. -/
def quoted (s : String) : String := "`" ++ s ++ "`"

def message : CatalogError → String
  | dirNotFound d => "directory " ++ d.text ++ " does not exist"
  | tableNotFound t => "table " ++ t.text ++ " does not exist"
  | columnNotFound t c => "table " ++ t.text ++ " has no column " ++ quoted c
  | columnAlreadyExists t c => "table " ++ t.text ++ " already has a column " ++ quoted c
  | versionNotFound t v => "table " ++ t.text ++ " has no version " ++ toString v
  | immutableSnapshot t => "table " ++ t.text ++ " is a snapshot and cannot be modified"
  | viewRowMutation t =>
    "rows of view " ++ t.text ++ " are derived from its base and cannot be inserted or deleted"
  | columnInUse t c d =>
    "column " ++ quoted c ++ " of table " ++ t.text ++ " is referenced by computed column " ++
      quoted d
  | primaryKeyColumn t c =>
    "column " ++ quoted c ++ " of table " ++ t.text ++ " is part of the primary key"
  | invalidName kind name => "invalid " ++ kind.text ++ " name " ++ quoted name
  | notIndexable c type =>
    "column " ++ quoted c ++ " of type " ++ type.display ++ " cannot be indexed"
  | invalidStoragePolicy c =>
    "column " ++ quoted c ++ " is not computed; only computed columns can be virtual"
  | invalidRetention t =>
    "table " ++ t.text ++ ": the number of retained versions must be positive"
  | functionNotFound f => "function " ++ f.text ++ " does not exist"
  | liveViewOverSnapshot b => "cannot create a live view over snapshot " ++ b.text
  | rowNotAllocated t row => "table " ++ t.text ++ " never allocated row " ++ toString row
  | computedPrimaryKey c => "computed column " ++ quoted c ++ " cannot be part of the primary key"
  | unknownColumnReference c r =>
    "computed column " ++ quoted c ++ " references unknown column " ++ quoted r
  | liveViewAtVersion b v =>
    "live view over " ++ b.text ++ " tracks its head and cannot be pinned to version " ++ toString v
  | rowIdsExhausted t count =>
    "table " ++ t.text ++ ": cannot allocate " ++ toString count ++ " more row ids"
  | versionConflict t expected actual =>
    "table " ++ t.text ++ ": expected version " ++ toString expected ++
      ", but the table is at version " ++ toString actual
  | undecodable key =>
    "cannot decode metadata record " ++ key.display ++ ": it does not hold the fields of its kind"
  | invalidRecord key reason => "metadata record " ++ key.display ++ " is invalid: " ++ reason
  | unsupportedSchemaVersion stored supported =>
    "stored metadata schema version " ++ toString stored ++
      " is newer than the supported version " ++ toString supported
  | missingRecord key => "metadata record " ++ key.display ++ " is missing"
  | missingHistory t c v =>
    "column " ++ toString c ++ " of table " ++ t.text ++
      " has no history entry at schema version " ++ toString v

def diagnostic (e : CatalogError) : Diagnostic :=
  match e with
  | dirNotFound _ => Diagnostic.plain "CATALOG_001" e.message
  | tableNotFound _ => Diagnostic.plain "CATALOG_002" e.message
  | columnNotFound .. => Diagnostic.plain "CATALOG_003" e.message
  | columnAlreadyExists .. =>
    (Diagnostic.plain "CATALOG_004" e.message).withHelp "choose a different column name"
  | versionNotFound .. =>
    (Diagnostic.plain "CATALOG_005" e.message).withNote
      "versions outside the retention window may have been collected"
  | immutableSnapshot _ => Diagnostic.plain "CATALOG_006" e.message
  | viewRowMutation _ =>
    (Diagnostic.plain "CATALOG_007" e.message).withHelp "modify the base table instead"
  | columnInUse .. =>
    (Diagnostic.plain "CATALOG_008" e.message).withHelp "drop the computed column first"
  | primaryKeyColumn .. => Diagnostic.plain "CATALOG_009" e.message
  | invalidName .. =>
    (Diagnostic.plain "CATALOG_010" e.message).withHelp
      "names must be identifiers: a letter or `_` followed by letters, digits or `_`"
  | notIndexable .. =>
    (Diagnostic.plain "CATALOG_011" e.message).withNote
      "only image and string columns can be indexed"
  | invalidStoragePolicy _ => Diagnostic.plain "CATALOG_012" e.message
  | invalidRetention _ => Diagnostic.plain "CATALOG_013" e.message
  | functionNotFound _ => Diagnostic.plain "CATALOG_014" e.message
  | liveViewOverSnapshot _ =>
    (Diagnostic.plain "CATALOG_015" e.message).withHelp "create a snapshot view instead"
  | rowNotAllocated .. => Diagnostic.plain "CATALOG_016" e.message
  | computedPrimaryKey _ => Diagnostic.plain "CATALOG_017" e.message
  | unknownColumnReference .. => Diagnostic.plain "CATALOG_018" e.message
  | liveViewAtVersion .. =>
    (Diagnostic.plain "CATALOG_019" e.message).withHelp
      "create a snapshot view to pin a base version"
  | rowIdsExhausted .. => Diagnostic.plain "CATALOG_020" e.message
  | versionConflict .. =>
    ((Diagnostic.plain "VERSION_001" e.message).withLabel "concurrent modification").withHelp
      "reload the table and retry with its current version"
  | undecodable _ => Diagnostic.plain "METADATA_001" e.message
  | invalidRecord .. => Diagnostic.plain "METADATA_002" e.message
  | unsupportedSchemaVersion .. =>
    (Diagnostic.plain "METADATA_003" e.message).withHelp "upgrade to a newer release"
  | missingRecord _ => Diagnostic.plain "METADATA_004" e.message
  | missingHistory .. => Diagnostic.plain "METADATA_005" e.message

end CatalogError
end Cadastre
