/-
# Keys of the metadata records

Every record of a store has a key: the system record, a directory, the head of
a table, one data version or schema version of a table, or a stored function.
Keys are ordered by kind, then by identifier, then by version, so the records
of one kind lie together and the versions of one table lie in their order.

Key definitions: `Key`, `Key.display`, `KeyRange`, `KeyRange.contains`,
`maxVersion`.
Key theorems: the `KeyOrder Key` instance.
-/
import Cadastre.SortedMap
import Cadastre.Uuid

namespace Cadastre

abbrev DirId := Uuid

abbrev TableId := Uuid

abbrev FunctionId := Uuid

/-- The number of a column within its table; no number is given out twice. -/
abbrev ColumnId := Nat

/-- The number of a row within its table; no number is given out twice. -/
abbrev RowId := Nat

/-- A data version of a table. -/
abbrev Version := Nat

/-- A schema version of a table. -/
abbrev SchemaVersion := Nat

/-- The last version that a scan of a table's versions reaches. -/
def maxVersion : Nat := 2 ^ 63 - 1

/-- The key of a record. -/
inductive Key where
  | systemInfo
  | dir (dir : DirId)
  | table (table : TableId)
  | tableVersion (table : TableId) (version : Version)
  | schemaVersion (table : TableId) (version : SchemaVersion)
  | function (function : FunctionId)
  deriving DecidableEq, Repr

namespace Key

/-- The place of the key's kind among the kinds. -/
def kind : Key → Nat
  | systemInfo => 0
  | dir _ => 1
  | table _ => 2
  | tableVersion .. => 3
  | schemaVersion .. => 4
  | function _ => 5

/-- The identifier in the key, as a number. -/
def owner : Key → Nat
  | systemInfo => 0
  | dir d => d.value.val
  | table t => t.value.val
  | tableVersion t _ => t.value.val
  | schemaVersion t _ => t.value.val
  | function f => f.value.val

/-- The version in the key. -/
def version : Key → Nat
  | tableVersion _ v => v
  | schemaVersion _ v => v
  | _ => 0

instance : LT Key where
  lt a b := a.kind < b.kind ∨ (a.kind = b.kind ∧
    (a.owner < b.owner ∨ (a.owner = b.owner ∧ a.version < b.version)))

theorem lt_def {a b : Key} : a < b ↔ a.kind < b.kind ∨ (a.kind = b.kind ∧
    (a.owner < b.owner ∨ (a.owner = b.owner ∧ a.version < b.version))) := Iff.rfl

instance (a b : Key) : Decidable (a < b) := decidable_of_iff _ lt_def.symm

/-- A key is known by its kind, its identifier and its version. -/
theorem eq_of_parts {a b : Key} (hk : a.kind = b.kind) (ho : a.owner = b.owner)
    (hv : a.version = b.version) : a = b := by
  cases a <;> cases b <;> simp_all [kind, owner, version, Uuid.eq_iff]

instance : KeyOrder Key where
  irrefl a h := by rw [lt_def] at h; omega
  trans h h' := by rw [lt_def] at h h' ⊢; omega
  trichotomy a b := by
    by_cases h : a = b
    · exact .inr (.inl h)
    · have hne : ¬ (a.kind = b.kind ∧ a.owner = b.owner ∧ a.version = b.version) :=
        fun ⟨hk, ho, hv⟩ => h (eq_of_parts hk ho hv)
      rw [lt_def, lt_def]
      omega

/-- The key as text. -/
def display : Key → String
  | systemInfo => "system_info"
  | dir d => "dir(" ++ d.text ++ ")"
  | table t => "table(" ++ t.text ++ ")"
  | tableVersion t v => "table_version(" ++ t.text ++ ", " ++ toString v ++ ")"
  | schemaVersion t v => "table_schema_version(" ++ t.text ++ ", " ++ toString v ++ ")"
  | function f => "function(" ++ f.text ++ ")"

end Key

/-- The keys from `first` to `last`, both included. -/
structure KeyRange where
  first : Key
  last : Key
  deriving DecidableEq, Repr

namespace KeyRange

/-- Whether the key lies in the range. -/
def contains (r : KeyRange) (k : Key) : Bool :=
  (r.first == k || decide (r.first < k)) && (k == r.last || decide (k < r.last))

/-- The keys of all directories. -/
def dirs : KeyRange := ⟨.dir .least, .dir .greatest⟩

/-- The keys of all heads of tables. -/
def tables : KeyRange := ⟨.table .least, .table .greatest⟩

/-- The keys of the data versions of a table. -/
def tableVersions (t : TableId) : KeyRange := ⟨.tableVersion t 0, .tableVersion t maxVersion⟩

/-- The keys of the schema versions of a table. -/
def schemaVersions (t : TableId) : KeyRange := ⟨.schemaVersion t 0, .schemaVersion t maxVersion⟩

end KeyRange
end Cadastre
