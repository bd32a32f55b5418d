/-
# Schema versions

A schema version holds the columns of a table by their numbers. Columns are
listed by position; of two at one position the lower number comes first. A
computed column has a value expression, typed or as a tree that the evaluator
of expressions reads, and may be stored or not.

Key definitions: `ComputedValue`, `Column`, `Schema`, `Schema.ordered`,
`Schema.find?`, `Schema.dependents`, `Schema.compact`.
Key theorems: `Schema.perm_ordered`, `Schema.pairwise_ordered`, `Schema.keys_compact`.
-/
import Cadastre.Expr.Record
import Cadastre.Metadata
import Cadastre.Metadata.ColumnMap

namespace Cadastre

/-- The value expression of a computed column. -/
inductive ComputedValue where
  /-- A typed expression over the columns of the table. -/
  | expr (e : Expr)
  /-- A tree for the evaluator of expressions, taken as it stands. -/
  | tree (j : Json)

namespace ComputedValue

/-- The names of the columns that the value refers to; a tree shows none. -/
def columnRefs : ComputedValue → List String
  | expr e => e.columnRefs
  | tree _ => []

def toJson : ComputedValue → Json
  | expr e => .obj [("expr", e.toJson), ("kind", .str "expr")]
  | tree j => .obj [("kind", .str "opaque"), ("tree", j)]

def ofJson? (j : Json) : Option ComputedValue :=
  match j.variant? .outer "kind" ["expr", "opaque"] with
  | some ("expr", r) => do
    let ms ← r.members? ["expr"]
    let e ← Json.required ms "expr" (Expr.read? .inner)
    some (expr e)
  | some ("opaque", r) => do
    let ms ← r.members? ["tree"]
    let j ← Json.required ms "tree" some
    some (tree j)
  | _ => none

end ComputedValue

/-- A column of a schema version. -/
structure Column where
  pos : Nat
  name : String
  type : ColumnType
  isKey : Bool
  computed : Option ComputedValue
  /-- Whether a computed column is stored; the catalog's default if it is not said. -/
  stored : Option Bool
  indexed : Bool

namespace Column

def isComputed (c : Column) : Bool := c.computed.isSome

/-- Whether the column has storage. Only a computed column can be without. -/
def isStored (c : Column) (default : Bool) : Bool := !c.isComputed || c.stored.getD default

def toJson (c : Column) : Json := .obj [
  ("col_type", c.type.toJson),
  ("is_indexed", .bool c.indexed),
  ("is_pk", .bool c.isKey),
  ("name", .str c.name),
  ("pos", .ofNat c.pos),
  ("stored", .ofOption .bool c.stored),
  ("value_expr", .ofOption ComputedValue.toJson c.computed)]

def ofJson? (j : Json) : Option Column := do
  let ms ← j.members? ["pos", "name", "col_type", "is_pk", "value_expr", "stored", "is_indexed"]
  let pos ← Json.required ms "pos" Json.nat?
  let name ← Json.required ms "name" Json.str?
  let type ← Json.required ms "col_type" ColumnType.ofJson?
  let isKey ← Json.defaulted ms "is_pk" Json.bool? false
  let computed ← Json.defaulted ms "value_expr" (Json.nullable ComputedValue.ofJson?) none
  let stored ← Json.defaulted ms "stored" (Json.nullable Json.bool?) none
  let indexed ← Json.defaulted ms "is_indexed" Json.bool? false
  some ⟨pos, name, type, isKey, computed, stored, indexed⟩

end Column

/-- A schema version of a table. -/
structure Schema where
  version : SchemaVersion
  /-- The schema version before this one. -/
  preceding : Option SchemaVersion
  columns : SortedMap ColumnId Column
  /-- How many data versions stay readable. -/
  retained : UInt32
  comment : String

namespace Schema

/-- Whether the first of two columns is not behind the second. -/
def inOrder (a b : ColumnId × Column) : Bool := a.2.pos ≤ b.2.pos

/-- Puts a column before the first one that it is not behind. -/
def insertColumn (c : ColumnId × Column) : List (ColumnId × Column) → List (ColumnId × Column)
  | [] => [c]
  | d :: rest => if inOrder c d then c :: d :: rest else d :: insertColumn c rest

/-- The columns by position. -/
def ordered (s : Schema) : List (ColumnId × Column) := s.columns.entries.foldr insertColumn []

/-- The names of the columns by position. -/
def columnNames (s : Schema) : List String := s.ordered.map (·.2.name)

/-- The column with the given name; of several the one with the lowest number. -/
def find? (s : Schema) (name : String) : Option (ColumnId × Column) :=
  s.columns.entries.find? fun e => e.2.name == name

/-- The columns whose values refer to a column of the given name. -/
def dependents (s : Schema) (name : String) : List Column :=
  s.columns.values.filter fun c => c.computed.any fun v => v.columnRefs.contains name

/-- The schema with the positions `0`, `1`, … in the order of its columns. -/
def compact (s : Schema) : Schema :=
  let order := s.ordered.map (·.1)
  { s with columns := s.columns.mapValues fun id c => { c with pos := order.idxOf id } }

def toJson (s : Schema) : Json := .obj [
  ("columns", .ofColumnMap Column.toJson s.columns),
  ("comment", .str s.comment),
  ("num_retained_versions", .ofNat s.retained.toNat),
  ("preceding_schema_version", .ofOption .ofNat s.preceding),
  ("schema_version", .ofNat s.version)]

def ofJson? (j : Json) : Option Schema := do
  let ms ← j.members? ["schema_version", "preceding_schema_version", "columns",
    "num_retained_versions", "comment"]
  let version ← Json.required ms "schema_version" Json.nat?
  let preceding ← Json.defaulted ms "preceding_schema_version" (Json.nullable Json.nat?) none
  let columns ← Json.defaulted ms "columns" (Json.columnMap? Column.ofJson?) .empty
  let retained ← Json.required ms "num_retained_versions" Json.uint32?
  let comment ← Json.defaulted ms "comment" Json.str? ""
  some ⟨version, preceding, columns, retained, comment⟩

/-- The first column without concrete type, or whose name stands before it. -/
def columnFlaw? (seen : List String) : List (ColumnId × Column) → Option String
  | [] => none
  | (id, c) :: rest =>
    if c.type.isInvalid then some ("column " ++ toString id ++ " has the invalid type")
    else if seen.contains c.name then some ("duplicate column name `" ++ c.name ++ "`")
    else columnFlaw? (c.name :: seen) rest

/-- A schema version follows an earlier one, its columns have types and
different names, and it retains a version. -/
def flaw? (s : Schema) : Option String :=
  match s.preceding.filter (s.version ≤ ·) with
  | some p =>
    some ("schema version " ++ toString s.version ++ " is preceded by the later version " ++
      toString p)
  | none =>
    match columnFlaw? [] s.columns.entries with
    | some reason => some reason
    | none =>
      if s.retained = 0 then some "the number of retained versions must be positive" else none

instance : Payload Schema := ⟨toJson, ofJson?, flaw?⟩

/-! ### The order of the columns -/

theorem perm_insertColumn (c : ColumnId × Column) (l : List (ColumnId × Column)) :
    (insertColumn c l).Perm (c :: l) := by
  induction l with
  | nil => exact .refl _
  | cons d l ih =>
    rw [insertColumn]
    split
    · exact .refl _
    · exact (ih.cons d).trans (.swap c d l)

theorem perm_foldr_insertColumn (l : List (ColumnId × Column)) :
    (l.foldr insertColumn []).Perm l := by
  induction l with
  | nil => exact .refl _
  | cons c l ih => exact (perm_insertColumn c _).trans (ih.cons c)

/-- The ordered columns are the columns. -/
theorem perm_ordered (s : Schema) : s.ordered.Perm s.columns.entries :=
  perm_foldr_insertColumn s.columns.entries

/-- Whether a column is before another one: by position, then by number. -/
def Before (a b : ColumnId × Column) : Prop :=
  a.2.pos < b.2.pos ∨ (a.2.pos = b.2.pos ∧ a.1 < b.1)

theorem Before.pos_le {a b : ColumnId × Column} (h : Before a b) : a.2.pos ≤ b.2.pos := by
  rcases h with h | ⟨h, _⟩
  · exact Nat.le_of_lt h
  · exact Nat.le_of_eq h

theorem Before.asymm {a b : ColumnId × Column} (h : Before a b) : ¬ Before b a := by
  rintro (h' | ⟨hpos', hid'⟩) <;> rcases h with h | ⟨hpos, hid⟩
  · exact Nat.lt_asymm h h'
  · exact Nat.ne_of_lt h' hpos.symm
  · exact Nat.ne_of_lt h hpos'.symm
  · exact Nat.lt_asymm hid hid'

/-- A column of lower number than the others comes first among those at its position. -/
theorem pairwise_insertColumn {c : ColumnId × Column} {l : List (ColumnId × Column)}
    (hc : ∀ d ∈ l, c.1 < d.1) (hl : l.Pairwise Before) : (insertColumn c l).Pairwise Before := by
  induction l with
  | nil => exact List.pairwise_singleton _ _
  | cons d l ih =>
    obtain ⟨hd, hl'⟩ := List.pairwise_cons.1 hl
    rw [insertColumn]
    split
    · rename_i hcd
      have hcd : c.2.pos ≤ d.2.pos := by simpa [inOrder] using hcd
      refine List.pairwise_cons.2 ⟨fun e he => ?_, hl⟩
      have hde : d.2.pos ≤ e.2.pos := by
        rcases List.mem_cons.1 he with rfl | he
        · exact Nat.le_refl _
        · exact (hd e he).pos_le
      rcases Nat.lt_or_eq_of_le (Nat.le_trans hcd hde) with hlt | heq
      · exact .inl hlt
      · exact .inr ⟨heq, hc e he⟩
    · rename_i hcd
      have hdc : d.2.pos < c.2.pos := by
        simp only [inOrder, decide_eq_true_eq] at hcd
        exact Nat.lt_of_not_le hcd
      refine List.pairwise_cons.2 ⟨fun e he => ?_, ih (fun e he => hc e (.tail d he)) hl'⟩
      rcases List.mem_cons.1 ((perm_insertColumn c l).mem_iff.1 he) with rfl | he
      · exact .inl hdc
      · exact hd e he

/-- Columns are listed by position, then by number. -/
theorem pairwise_ordered (s : Schema) : s.ordered.Pairwise Before := by
  have hsorted := s.columns.sorted
  rw [ordered]
  generalize s.columns.entries = l at hsorted ⊢
  induction l with
  | nil => exact .nil
  | cons c l ih =>
    obtain ⟨hc, hl⟩ := List.pairwise_cons.1 hsorted
    exact pairwise_insertColumn
      (fun d hd => hc d ((perm_foldr_insertColumn l).mem_iff.1 hd)) (ih hl)

/-- Compaction keeps the numbers and the order of the map. -/
theorem keys_compact (s : Schema) : s.compact.columns.keys = s.columns.keys := by
  simp [compact, SortedMap.keys, SortedMap.mapValues, Function.comp_def]

end Schema
end Cadastre
