/-
# Expressions as records

A stored expression is a record whose field `kind` names its form. The function
of a call is an object with its path or its identifier, and the first overload
is meant unless another one is stated. What the record holds stands within it:
types, literals and the arguments of a call.

Key definitions: `Expr.toJson`, `Expr.read?`, `Expr.ofJson?`.
-/
import Cadastre.Expr
import Cadastre.Value.Record

namespace Cadastre

namespace FunctionRef

def toJson : FunctionRef → Json
  | path p => .obj [("path", .str p)]
  | id i => .obj [("id", i.toJson)]

def ofJson? (j : Json) : Option FunctionRef :=
  match j.single? with
  | some ("path", j) => j.str?.map path
  | some ("id", j) => (Uuid.ofJson? j).map id
  | _ => none

end FunctionRef

namespace Expr

mutual

/-- The record of an expression. -/
def toJson : Expr → Json
  | column name t => .obj [("col_type", t.toJson), ("kind", .str "column"), ("name", .str name)]
  | var name t => .obj [("col_type", t.toJson), ("kind", .str "variable"), ("name", .str name)]
  | literal v => .obj [("kind", .str "literal"), ("value", v.toJson)]
  | call f i args t => .obj [
      ("args", .arr (toJsonArgs args)),
      ("function", f.toJson),
      ("kind", .str "call"),
      ("overload", .ofNat i),
      ("return_type", t.toJson)]

def toJsonArgs : List Expr → List Json
  | [] => []
  | e :: es => toJson e :: toJsonArgs es

end

/-- The name and type of a column or variable. -/
def namedFields? (record : Json) : Option (String × ColumnType) := do
  let ms ← record.members? ["name", "col_type"]
  let name ← Json.required ms "name" Json.str?
  let type ← Json.required ms "col_type" (ColumnType.read? .inner)
  some (name, type)

/-- The value of a literal. -/
def literalField? (record : Json) : Option Value := do
  let ms ← record.members? ["value"]
  Json.required ms "value" (Value.read? .inner)

/-- The expression of a kind without arguments. -/
def leaf? (kind : String) (record : Json) : Option Expr :=
  match kind with
  | "column" => (namedFields? record).map fun (name, t) => column name t
  | "variable" => (namedFields? record).map fun (name, t) => var name t
  | "literal" => (literalField? record).map literal
  | _ => none

/-- The names of the kinds, by number. -/
def kinds : List String := ["column", "variable", "literal", "call"]

mutual

/-- The expression of a record at a place. -/
def read? (p : Json.Place) : Json → Option Expr
  | .obj ms =>
    match (ms.lookup "kind").bind (Json.tag? p kinds) with
    | some "call" => do
      let f ← Json.required ms "function" FunctionRef.ofJson?
      let i ← Json.defaulted ms "overload" Json.nat? 0
      let args ← argsOfMembers? ms
      let t ← Json.required ms "return_type" (ColumnType.read? .inner)
      some (call f i args t)
    | some kind => leaf? kind (.obj ms)
    | none => none
  | .arr [kind, f, i, args, t] =>
    match Json.tag? p kinds kind with
    | some "call" => do
      let f ← FunctionRef.ofJson? f
      let i ← i.nat?
      let args ← argsOfJson? args
      let t ← ColumnType.read? .inner t
      some (call f i args t)
    | _ => none
  | .arr (kind :: items) =>
    match Json.tag? p kinds kind with
    | some kind => leaf? kind (.arr items)
    | none => none
  | _ => none

/-- The expressions of the field `args`. -/
def argsOfMembers? : List (String × Json) → Option (List Expr)
  | [] => none
  | (k, j) :: ms => if k = "args" then argsOfJson? j else argsOfMembers? ms

/-- The expressions of a list. -/
def argsOfJson? : Json → Option (List Expr)
  | .arr items => argsOfList? items
  | _ => none

def argsOfList? : List Json → Option (List Expr)
  | [] => some []
  | j :: js =>
    match read? .inner j, argsOfList? js with
    | some e, some es => some (e :: es)
    | _, _ => none

end

/-- The expression of a record that stands by itself. -/
def ofJson? : Json → Option Expr := read? .outer

end Expr
end Cadastre
