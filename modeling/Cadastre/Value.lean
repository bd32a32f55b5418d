/-
# Values

A value of a column: none, a scalar, a timestamp, an image, free-form JSON or an
array. Every value but none has a most specific type; a value conforms to a type
when its own type refines it, and none conforms to every type.

Key definitions: `Value`, `Value.type`, `Value.same`, `Value.Conforms`.
Key theorems: `Value.same_self`.
-/
import Cadastre.Image
import Cadastre.Json
import Cadastre.NdArray
import Cadastre.Timestamp

namespace Cadastre

/-- A value of a column. -/
inductive Value where
  | none
  | string (s : String)
  | int (n : Int64)
  | float (x : Float)
  | bool (b : Bool)
  | timestamp (t : Timestamp)
  | image (i : Image)
  | dict (j : Json)
  | array (a : NdArray)
  deriving Repr

namespace Value

instance : Inhabited Value := ⟨none⟩

def isNone : Value → Bool
  | none => true
  | _ => false

/-- The most specific type of a value; the invalid type for none. -/
def type : Value → ColumnType
  | none => .invalid
  | string _ => .string
  | int _ => .int
  | float _ => .float
  | bool _ => .bool
  | timestamp _ => .timestamp
  | image i => .sizedImage i.width i.height i.mode
  | dict _ => .dict
  | array a => .array (some a.shape) a.element

/-- Equality of values; floats compare as numbers. -/
def same : Value → Value → Bool
  | none, none => true
  | string a, string b => a == b
  | int a, int b => a == b
  | float a, float b => a == b
  | bool a, bool b => a == b
  | timestamp a, timestamp b => a == b
  | image a, image b => a == b
  | dict a, dict b => a.same b
  | array a, array b => a == b
  | _, _ => false

/-- Every float in the value is a number. -/
def NoNaN : Value → Prop
  | float x => (x == x) = true
  | dict j => j.NoNaN
  | _ => True

/-- A value without NaN is the same as itself. -/
theorem same_self {v : Value} (h : v.NoNaN) : v.same v = true := by
  cases v with
  | float x => exact h
  | dict j => exact Json.same_self j h
  | _ => simp [same]

/-- The value is none or of the type. -/
def Conforms (v : Value) (t : ColumnType) : Prop := v.isNone = true ∨ v.type.Refines t

end Value
end Cadastre
