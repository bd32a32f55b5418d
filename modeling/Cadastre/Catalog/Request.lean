/-
# Requests as records

What is to be created, as a record: columns, tables and views. What a record
does not say has its default, and `null` says nothing; only a predicate and the
arguments of an iterator are `null` when they are there and `null`.

Key definitions: `ColumnSpec.ofJson?`, `TableSpec.ofJson?`, `ViewSpec.ofJson?`.
-/
import Cadastre.Catalog.Create

namespace Cadastre

/-- The value expression of a column. -/
def ComputedValue.ofRequest? (j : Json) : Option ComputedValue :=
  match j.present? "expr", j.member? "tree" with
  | some e, _ => (Expr.ofJson? e).map expr
  | none, some t => some (tree t)
  | none, none => none

namespace ColumnSpec

def ofJson? (j : Json) : Option ColumnSpec := do
  let name ← (j.present? "name").bind Json.str?
  let type ← (j.present? "type").bind ColumnType.ofJson?
  let isKey ← j.optionalOr "pk" Json.bool? false
  let computed ← j.optional "computed" ComputedValue.ofRequest?
  let stored ← j.optional "stored" Json.bool?
  let indexed ← j.optionalOr "indexed" Json.bool? false
  some { name, type, isKey, computed, stored, indexed }

/-- A plain column, as the list of its name and its type. -/
def ofPair? : Json → Option ColumnSpec
  | .arr [name, type] => do
    let name ← name.str?
    let type ← ColumnType.ofJson? type
    some { name, type }
  | _ => none

end ColumnSpec

def IteratorSpec.ofJson? (j : Json) : Option IteratorSpec := do
  let className ← (j.present? "class_fqn").bind Json.str?
  some ⟨className, (j.member? "args").getD .null⟩

def TableSpec.ofJson? (j : Json) : Option TableSpec := do
  let dir ← (j.present? "dir").bind Uuid.ofJson?
  let name ← (j.present? "name").bind Json.str?
  let columns ← j.optionalOr "columns" (Json.list? ColumnSpec.ofJson?) []
  let retained ← j.optional "retained" Json.uint32?
  let comment ← j.optionalOr "comment" Json.str? ""
  some { dir, name, columns, retained, comment }

def ViewSpec.ofJson? (j : Json) : Option ViewSpec := do
  let t ← TableSpec.ofJson? j
  let base ← (j.present? "base").bind Uuid.ofJson?
  let isSnapshot ← j.optionalOr "snapshot" Json.bool? false
  let baseVersion ← j.optional "base_version" Json.nat?
  let iterator ← j.optional "iterator" IteratorSpec.ofJson?
  some {
    dir := t.dir
    name := t.name
    base := base
    isSnapshot := isSnapshot
    baseVersion := baseVersion
    predicate := j.member? "predicate"
    iterator := iterator
    columns := t.columns
    retained := t.retained
    comment := t.comment }

end Cadastre
