/-
# Errors of types and values

Why a type, a value or a conversion is refused.

Key definitions: `TypeError`, `TypeError.message`, `TypeError.diagnostic`.
-/
import Cadastre.ColumnType
import Cadastre.Diagnostic

namespace Cadastre

/-- Why a type, a value or a conversion is refused. -/
inductive TypeError where
  /-- The kind of type has parameters, so its name alone is no type. -/
  | requiresParameters (tag : TypeTag)
  /-- The invalid type where a column type is needed. -/
  | invalidType
  | noConversion (source target : ColumnType)
  /-- A conversion met a value of another kind than the one it converts. -/
  | valueMismatch (expected : TypeTag) (actual : ColumnType)
  /-- The record does not hold the fields of a column type. -/
  | malformedRecord
  /-- The record is that of the invalid type. -/
  | invalidTypeRecord
  | imageBufferMismatch (width height : UInt32) (mode : ImageMode) (length : Nat)
  | arrayBufferMismatch (shape : List Nat) (length : Nat)
  | imageTooLarge (width height : UInt32) (mode : ImageMode)
  | arrayTooLarge (shape : List Nat)
  deriving DecidableEq, Repr

namespace TypeError

/-- The size and mode of an image. -/
def imageText (width height : UInt32) (mode : ImageMode) : String :=
  toString width ++ "x" ++ toString height ++ " " ++ mode.name

def message : TypeError → String
  | requiresParameters tag => "column type " ++ tag.name ++ " requires parameters"
  | invalidType => "the invalid type is not a concrete column type"
  | noConversion source target =>
    "no conversion from " ++ source.display ++ " to " ++ target.display
  | valueMismatch expected actual =>
    "conversion expects " ++ expected.name ++ " values, got " ++ actual.display
  | malformedRecord =>
    "malformed column type record: it does not hold the fields of a column type"
  | invalidTypeRecord => "malformed column type record: the invalid type cannot be persisted"
  | imageBufferMismatch w h m length =>
    "image buffer of " ++ toString length ++ " bytes does not match " ++ imageText w h m
  | arrayBufferMismatch shape length =>
    "array buffer of " ++ toString length ++ " bytes does not match shape " ++
      ColumnType.shapeText shape
  | imageTooLarge w h m => "a " ++ imageText w h m ++ " image does not fit in memory"
  | arrayTooLarge shape =>
    "an array of shape " ++ ColumnType.shapeText shape ++ " does not fit in memory"

def diagnostic (e : TypeError) : Diagnostic :=
  match e with
  | requiresParameters tag =>
    ((Diagnostic.plain "TYPE_001" e.message).withLabel "parameterised type").withHelp
      ("declare the " ++ tag.name ++ " type explicitly with its dimensions")
  | invalidType =>
    (Diagnostic.plain "TYPE_002" e.message).withNote
      "the invalid type only exists while a type is being inferred"
  | noConversion .. =>
    ((Diagnostic.plain "TYPE_003" e.message).withLabel "incompatible types").withNote
      "supported conversions: string -> timestamp, image -> image, identical types"
  | valueMismatch .. =>
    (Diagnostic.plain "TYPE_004" e.message).withLabel "value has the wrong type"
  | malformedRecord | invalidTypeRecord =>
    (Diagnostic.plain "TYPE_005" e.message).withHelp
      "a column type record needs a `type` tag plus the fields of that variant"
  | imageBufferMismatch .. =>
    (Diagnostic.plain "TYPE_006" e.message).withNote "pixel buffers hold one byte per channel"
  | arrayBufferMismatch .. => Diagnostic.plain "TYPE_007" e.message
  | imageTooLarge .. => Diagnostic.plain "TYPE_008" e.message
  | arrayTooLarge .. => Diagnostic.plain "TYPE_009" e.message

end TypeError
end Cadastre
