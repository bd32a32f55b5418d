/-
# Values as records

A value is stored as an object that maps the name of its kind to its content;
none is the string `None`. Images and arrays are records of their parts, with
the bytes as numbers; a timestamp is its text. A value may stand within a tagged
record, as the literal of an expression does.

Key definitions: `Value.toJson`, `Value.read?`, `Value.ofJson?`.
-/
import Cadastre.ColumnType.Record
import Cadastre.Timestamp.Reader
import Cadastre.Value

namespace Cadastre

namespace Image

def toJson (i : Image) : Json := .obj [
  ("height", .ofNat i.height.toNat),
  ("mode", i.mode.toJson),
  ("pixels", .ofList (fun b => .ofNat b.toNat) i.pixels),
  ("width", .ofNat i.width.toNat)]

/-- The image of a record. The buffer is taken as it stands. -/
def read? (p : Json.Place) (j : Json) : Option Image := do
  let ms ← j.members? ["width", "height", "mode", "pixels"]
  let width ← Json.required ms "width" Json.uint32?
  let height ← Json.required ms "height" Json.uint32?
  let mode ← Json.required ms "mode" (ImageMode.read? p)
  let pixels ← Json.required ms "pixels" (Json.list? Json.uint8?)
  some ⟨width, height, mode, pixels⟩

end Image

namespace NdArray

def toJson (a : NdArray) : Json := .obj [
  ("data", .ofList (fun b => .ofNat b.toNat) a.data),
  ("dtype", a.element.toJson),
  ("shape", .ofList .ofNat a.shape)]

/-- The array of a record. The buffer is taken as it stands. -/
def read? (p : Json.Place) (j : Json) : Option NdArray := do
  let ms ← j.members? ["shape", "dtype", "data"]
  let shape ← Json.required ms "shape" (Json.list? Json.nat?)
  let element ← Json.required ms "dtype" (ElementType.read? p)
  let data ← Json.required ms "data" (Json.list? Json.uint8?)
  some ⟨shape, element, data⟩

end NdArray

namespace Json

/-- A float as a number; one that is no number is `null`. -/
def ofFloat (x : Float) : Json := if x.isFinite then float x else null

end Json

namespace Value

/-- The record of a value. -/
def toJson : Value → Json
  | none => .str "None"
  | string s => .obj [("String", .str s)]
  | int n => .obj [("Int", .int n.toInt)]
  | float x => .obj [("Float", .ofFloat x)]
  | bool b => .obj [("Bool", .bool b)]
  | timestamp t => .obj [("Timestamp", .str t.text)]
  | image i => .obj [("Image", i.toJson)]
  | dict j => .obj [("Dict", j)]
  | array a => .obj [("Array", a.toJson)]

/-- The value of a record at a place. -/
def read? (p : Json.Place) (j : Json) : Option Value :=
  if j.case? p = some "None" then some none
  else
    match j.single? with
    | some ("String", j) => j.str?.map string
    | some ("Int", j) => j.int64?.map int
    | some ("Float", j) => j.float?.map float
    | some ("Bool", j) => j.bool?.map bool
    | some ("Timestamp", j) => (j.str?.bind Timestamp.ofRecord?).map timestamp
    | some ("Image", j) => (Image.read? p j).map image
    | some ("Dict", j) => some (dict j)
    | some ("Array", j) => (NdArray.read? p j).map array
    | _ => Option.none

/-- The value of a record that stands by itself. -/
def ofJson? : Json → Option Value := read? .outer

end Value
end Cadastre
