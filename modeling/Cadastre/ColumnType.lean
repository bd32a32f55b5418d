/-
# Column types

The type of a column: a scalar, a free-form JSON value, an image with optional
size and pixel mode, or an array with an optional shape and an element type. An
image or array type constrains the fields it states and leaves the others open.
The invalid type stands for an unknown type while one is inferred; no column
has it.

Key definitions: `ColumnType`, `TypeTag`, `ImageMode`, `ElementType`,
`ColumnType.display`, `ColumnType.Refines`.
Key theorems: `TypeTag.ofNumber?_number`, `ColumnType.Refines.refl`,
`ColumnType.Refines.trans`.
-/

namespace Cadastre

/-- The pixels of an image: one grey byte each, or red, green and blue. -/
inductive ImageMode where
  | gray
  | rgb
  deriving DecidableEq, Repr

namespace ImageMode

/-- Bytes per pixel. -/
def channels : ImageMode → Nat
  | gray => 1
  | rgb => 3

def name : ImageMode → String
  | gray => "L"
  | rgb => "RGB"

def ofName? : String → Option ImageMode
  | "L" => some gray
  | "RGB" => some rgb
  | _ => none

theorem ofName?_name (m : ImageMode) : ofName? m.name = some m := by cases m <;> rfl

end ImageMode

/-- The type of the elements of an array. -/
inductive ElementType where
  | bool
  | int8
  | int16
  | int32
  | int64
  | uint8
  | uint16
  | uint32
  | uint64
  | float16
  | float32
  | float64
  deriving DecidableEq, Repr

namespace ElementType

/-- Bytes per element. -/
def size : ElementType → Nat
  | bool | int8 | uint8 => 1
  | int16 | uint16 | float16 => 2
  | int32 | uint32 | float32 => 4
  | int64 | uint64 | float64 => 8

def name : ElementType → String
  | bool => "bool"
  | int8 => "int8"
  | int16 => "int16"
  | int32 => "int32"
  | int64 => "int64"
  | uint8 => "uint8"
  | uint16 => "uint16"
  | uint32 => "uint32"
  | uint64 => "uint64"
  | float16 => "float16"
  | float32 => "float32"
  | float64 => "float64"

def ofName? : String → Option ElementType
  | "bool" => some bool
  | "int8" => some int8
  | "int16" => some int16
  | "int32" => some int32
  | "int64" => some int64
  | "uint8" => some uint8
  | "uint16" => some uint16
  | "uint32" => some uint32
  | "uint64" => some uint64
  | "float16" => some float16
  | "float32" => some float32
  | "float64" => some float64
  | _ => none

theorem ofName?_name (e : ElementType) : ofName? e.name = some e := by cases e <;> rfl

theorem size_pos (e : ElementType) : 0 < e.size := by cases e <;> decide

end ElementType

/-- The kind of a column type, without its parameters. -/
inductive TypeTag where
  | invalid
  | string
  | int
  | float
  | bool
  | timestamp
  | image
  | dict
  | array
  deriving DecidableEq, Repr

namespace TypeTag

def name : TypeTag → String
  | invalid => "invalid"
  | string => "string"
  | int => "int"
  | float => "float"
  | bool => "bool"
  | timestamp => "timestamp"
  | image => "image"
  | dict => "dict"
  | array => "array"

def number : TypeTag → Nat
  | invalid => 0
  | string => 1
  | int => 2
  | float => 3
  | bool => 4
  | timestamp => 5
  | image => 6
  | dict => 7
  | array => 8

def ofNumber? : Nat → Option TypeTag
  | 0 => some invalid
  | 1 => some string
  | 2 => some int
  | 3 => some float
  | 4 => some bool
  | 5 => some timestamp
  | 6 => some image
  | 7 => some dict
  | 8 => some array
  | _ => none

theorem ofNumber?_number (t : TypeTag) : ofNumber? t.number = some t := by cases t <;> rfl

end TypeTag

/-- The type of a column. -/
inductive ColumnType where
  /-- An unknown type. -/
  | invalid
  | string
  | int
  | float
  | bool
  | timestamp
  | image (width height : Option UInt32) (mode : Option ImageMode)
  /-- Free-form JSON. -/
  | dict
  | array (shape : Option (List Nat)) (element : ElementType)
  deriving DecidableEq, Repr

namespace ColumnType

def tag : ColumnType → TypeTag
  | invalid => .invalid
  | string => .string
  | int => .int
  | float => .float
  | bool => .bool
  | timestamp => .timestamp
  | image .. => .image
  | dict => .dict
  | array .. => .array

/-- The type of images of one size and mode. -/
def sizedImage (width height : UInt32) (mode : ImageMode) : ColumnType :=
  image (some width) (some height) (some mode)

def isInvalid (t : ColumnType) : Bool := t.tag == .invalid

def isImage (t : ColumnType) : Bool := t.tag == .image

def isScalar (t : ColumnType) : Bool :=
  match t with
  | string | int | float | bool | timestamp => true
  | _ => false

/-- The type of the storage column behind a column. Images are stored by their
location, timestamps as numbers. -/
def storageType : ColumnType → Option String
  | invalid => none
  | string => some "VARCHAR"
  | int => some "INTEGER"
  | float => some "FLOAT"
  | bool => some "BOOLEAN"
  | timestamp => some "INTEGER"
  | image .. => some "VARCHAR"
  | dict => some "VARCHAR"
  | array .. => some "BLOB"

/-- The dimensions of a shape, in brackets. -/
def shapeText (shape : List Nat) : String :=
  "[" ++ String.intercalate ", " (shape.map toString) ++ "]"

/-- The type as text. An image type that fixes one dimension and no mode shows
as `image(?)`. -/
def display : ColumnType → String
  | image none none none => "image"
  | image (some w) (some h) (some m) =>
    "image(" ++ toString w ++ "x" ++ toString h ++ ", " ++ m.name ++ ")"
  | image (some w) (some h) none => "image(" ++ toString w ++ "x" ++ toString h ++ ")"
  | image _ _ (some m) => "image(" ++ m.name ++ ")"
  | image _ _ none => "image(?)"
  | array (some shape) e => "array(" ++ shapeText shape ++ ", " ++ e.name ++ ")"
  | array none e => "array(" ++ e.name ++ ")"
  | t => t.tag.name

/-! ### Constraints -/

/-- `Meets a b`: the field `a` of a type satisfies the constraint `b`. -/
def Meets {α : Type} (a b : Option α) : Prop := b = none ∨ a = b

/-- `Refines s t`: the type `s` has the kind of `t` and agrees with every field
that `t` constrains. -/
def Refines : ColumnType → ColumnType → Prop
  | image w h m, image w' h' m' => Meets w w' ∧ Meets h h' ∧ Meets m m'
  | array shape e, array shape' e' => Meets shape shape' ∧ e = e'
  | s, t => s = t

theorem Meets.refl {α : Type} (a : Option α) : Meets a a := .inr rfl

theorem Meets.trans {α : Type} {a b c : Option α} (h : Meets a b) (h' : Meets b c) :
    Meets a c := by
  rcases h' with h' | rfl
  · exact .inl h'
  · exact h

theorem Refines.refl (t : ColumnType) : Refines t t := by
  cases t <;> simp [Refines, Meets.refl]

theorem Refines.tag_eq {s t : ColumnType} (h : Refines s t) : s.tag = t.tag := by
  cases s <;> cases t <;> simp_all [Refines, tag]

theorem Refines.trans {r s t : ColumnType} (h : Refines r s) (h' : Refines s t) : Refines r t := by
  have h1 := h.tag_eq
  have h2 := h'.tag_eq
  cases s with
  | image =>
    cases r <;> simp [tag] at h1
    cases t <;> simp [tag] at h2
    exact ⟨h.1.trans h'.1, h.2.1.trans h'.2.1, h.2.2.trans h'.2.2⟩
  | array =>
    cases r <;> simp [tag] at h1
    cases t <;> simp [tag] at h2
    exact ⟨h.1.trans h'.1, h.2.trans h'.2⟩
  | _ =>
    cases r <;> simp [tag] at h1
    cases t <;> simp [tag] at h2
    exact h

end ColumnType
end Cadastre
