/-
# Column types as records

A column type is stored as a record whose field `type` names its kind, next to
the parameters of that kind. Missing parameters are open, and the elements of
an array are `int32` unless stated. The invalid type has a record too, as types
are inferred in records; `Cadastre.ColumnType.Concrete` refuses it. The
parameters stand within a tagged record, wherever the record itself stands.

Key definitions: `ColumnType.toJson`, `ColumnType.read?`, `ColumnType.ofJson?`.
Key theorems: `ColumnType.read?_toJson`.
-/
import Cadastre.ColumnType
import Cadastre.Json.Encode

namespace Cadastre

namespace ImageMode

def toJson (m : ImageMode) : Json := .str m.name

def read? (p : Json.Place) (j : Json) : Option ImageMode := (j.case? p).bind ofName?

/-- The mode of a record that stands by itself. -/
def ofJson? : Json → Option ImageMode := read? .outer

theorem read?_toJson (p : Json.Place) (m : ImageMode) : read? p m.toJson = some m := by
  cases m <;> rfl

end ImageMode

namespace ElementType

def toJson (e : ElementType) : Json := .str e.name

def read? (p : Json.Place) (j : Json) : Option ElementType := (j.case? p).bind ofName?

/-- The element type of a record that stands by itself. -/
def ofJson? : Json → Option ElementType := read? .outer

theorem read?_toJson (p : Json.Place) (e : ElementType) : read? p e.toJson = some e := by
  cases e <;> rfl

end ElementType

namespace ColumnType

/-- The record of a type. -/
def toJson : ColumnType → Json
  | image w h m => .obj [
      ("height", .ofOption (fun n => .ofNat n.toNat) h),
      ("mode", .ofOption ImageMode.toJson m),
      ("type", .str TypeTag.image.name),
      ("width", .ofOption (fun n => .ofNat n.toNat) w)]
  | array shape e => .obj [
      ("dtype", e.toJson),
      ("shape", .ofOption (.ofList .ofNat) shape),
      ("type", .str TypeTag.array.name)]
  | t => .obj [("type", .str t.tag.name)]

/-- The type without parameters that a record names. -/
def ofFlatRecord? (record : Json) (t : ColumnType) : Option ColumnType :=
  (record.members? []).map fun _ => t

/-- The names of the kinds, by number. -/
def kinds : List String :=
  ["invalid", "string", "int", "float", "bool", "timestamp", "image", "dict", "array"]

/-- The kinds have the numbers of the type tags. -/
theorem kinds_number (t : TypeTag) : kinds[t.number]? = some t.name := by
  cases t <;> rfl

/-- The type of a record at a place. -/
def read? (p : Json.Place) (j : Json) : Option ColumnType :=
  match j.variant? p "type" kinds with
  | some ("invalid", r) => ofFlatRecord? r invalid
  | some ("string", r) => ofFlatRecord? r string
  | some ("int", r) => ofFlatRecord? r int
  | some ("float", r) => ofFlatRecord? r float
  | some ("bool", r) => ofFlatRecord? r bool
  | some ("timestamp", r) => ofFlatRecord? r timestamp
  | some ("dict", r) => ofFlatRecord? r dict
  | some ("image", r) => do
    let ms ← r.members? ["width", "height", "mode"]
    let w ← Json.defaulted ms "width" (Json.nullable Json.uint32?) none
    let h ← Json.defaulted ms "height" (Json.nullable Json.uint32?) none
    let m ← Json.defaulted ms "mode" (Json.nullable (ImageMode.read? .inner)) none
    some (image w h m)
  | some ("array", r) => do
    let ms ← r.members? ["shape", "dtype"]
    let shape ← Json.defaulted ms "shape" (Json.nullable (Json.list? Json.nat?)) none
    let e ← Json.defaulted ms "dtype" (ElementType.read? .inner) .int32
    some (array shape e)
  | _ => none

/-- The type of a record that stands by itself. -/
def ofJson? : Json → Option ColumnType := read? .outer

/-- Every type is read back from its record, wherever that stands. -/
theorem read?_toJson (p : Json.Place) (t : ColumnType) : read? p t.toJson = some t := by
  cases t with
  | image w h m =>
    have hw : Json.nullable Json.uint32? (.ofOption (fun n => .ofNat n.toNat) w) = some w :=
      Json.nullable_ofOption (fun _ => Json.noConfusion) fun a _ => Json.uint32?_toNat a
    have hh : Json.nullable Json.uint32? (.ofOption (fun n => .ofNat n.toNat) h) = some h :=
      Json.nullable_ofOption (fun _ => Json.noConfusion) fun a _ => Json.uint32?_toNat a
    have hm : Json.nullable (ImageMode.read? .inner) (.ofOption ImageMode.toJson m) = some m :=
      Json.nullable_ofOption (fun _ => Json.noConfusion) fun a _ => a.read?_toJson .inner
    simp [toJson, read?, Json.variant?, Json.tag?, TypeTag.name, Json.members?, hw, hh, hm]
  | array shape e =>
    have hs :
        Json.nullable (Json.list? Json.nat?) (.ofOption (.ofList .ofNat) shape) = some shape :=
      Json.nullable_ofOption (fun _ => Json.noConfusion) fun a _ => Json.list?_ofList fun _ _ => rfl
    simp [toJson, read?, Json.variant?, Json.tag?, TypeTag.name, Json.members?, hs,
      e.read?_toJson]
  | _ => rfl

end ColumnType
end Cadastre
