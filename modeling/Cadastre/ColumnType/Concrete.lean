/-
# Concrete column types

The types that columns have are concrete: every type but the invalid one. They
are made from a kind, if the kind has no parameters, and from a record.

Key definitions: `ColumnType.ofTag`, `ColumnType.toRecord`,
`ColumnType.ofRecord`.
Key theorems: `ColumnType.ofRecord_toRecord`.
-/
import Cadastre.ColumnType.Record
import Cadastre.Error

namespace Cadastre
namespace ColumnType

/-- The type of a kind without parameters. -/
def ofTag : TypeTag → Except Error ColumnType
  | .string => .ok string
  | .int => .ok int
  | .float => .ok float
  | .bool => .ok bool
  | .timestamp => .ok timestamp
  | .dict => .ok dict
  | .invalid => .error (.type .invalidType)
  | tag => .error (.type (.requiresParameters tag))

/-- The record of a concrete type. -/
def toRecord (t : ColumnType) : Except Error Json :=
  if t.isInvalid then .error (.type .invalidType) else .ok t.toJson

/-- The concrete type of a record. -/
def ofRecord (j : Json) : Except Error ColumnType :=
  match ofJson? j with
  | none => .error (.type .malformedRecord)
  | some t => if t.isInvalid then .error (.type .invalidTypeRecord) else .ok t

/-- A concrete type is read back from its record. -/
theorem ofRecord_toRecord {t : ColumnType} {j : Json} (h : t.toRecord = .ok j) :
    ofRecord j = .ok t := by
  unfold toRecord at h
  split at h
  · cases h
  · rename_i ht
    cases h
    simp [ofRecord, ofJson?, read?_toJson, ht]

end ColumnType
end Cadastre
