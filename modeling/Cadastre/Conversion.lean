/-
# Conversions

How the values of one type become values of another: as they are, by reading a
string as a timestamp, or by resizing and recolouring an image. A text that is
no timestamp becomes none, and none passes through every conversion.

Key definitions: `Conversion`, `ColumnType.conversionTo?`,
`ColumnType.requireConversionTo`, `Conversion.apply`.
-/
import Cadastre.Timestamp.Reader
import Cadastre.Value

namespace Cadastre

/-- A step of an image conversion. -/
inductive ImageStep where
  | resize (width height : UInt32)
  | recolor (mode : ImageMode)
  deriving DecidableEq, Repr

/-- An image conversion: a resize, then a recolouring, each only if needed. -/
structure ImagePipeline where
  resize : Option (UInt32 × UInt32)
  recolor : Option ImageMode
  deriving DecidableEq, Repr

/-- How values of one type become values of another. -/
inductive Conversion where
  | noop
  | parseTimestamp
  | image (p : ImagePipeline)
  deriving DecidableEq, Repr

namespace ImagePipeline

/-- The steps, in the order in which they are done. -/
def steps (p : ImagePipeline) : List ImageStep :=
  (match p.resize with
    | some (w, h) => [.resize w h]
    | none => []) ++
  match p.recolor with
    | some m => [.recolor m]
    | none => []

end ImagePipeline

/-- Does one step. -/
def ImageStep.apply (i : Image) : ImageStep → Except Error Image
  | resize w h => i.resize w h
  | recolor m => i.recolor m

/-- Does the steps one after the other. -/
def ImageStep.applyAll (i : Image) : List ImageStep → Except Error Image
  | [] => .ok i
  | s :: ss =>
    match s.apply i with
    | .ok i => applyAll i ss
    | .error e => .error e

namespace ColumnType

/-- Whether the target leaves a field open or the source has it. -/
def fits {α : Type} [DecidableEq α] (source target : Option α) : Bool :=
  target.isNone || target == source

/-- The conversion of images. A target that fixes only one dimension is not
reachable. -/
def imageConversion? (width height : Option UInt32) (mode : Option ImageMode)
    (width' height' : Option UInt32) (mode' : Option ImageMode) : Option Conversion :=
  if width'.isNone != height'.isNone then none
  else if fits width width' && fits height height' && fits mode mode' then some .noop
  else
    let resize := match width', height' with
      | some w, some h => if width = some w ∧ height = some h then none else some (w, h)
      | _, _ => none
    some (.image ⟨resize, if mode' = mode then none else mode'⟩)

/-- How values of the first type become values of the second; `none` if they
cannot. -/
def conversionTo? : ColumnType → ColumnType → Option Conversion
  | invalid, _ => none
  | _, invalid => none
  | string, timestamp => some .parseTimestamp
  | image w h m, image w' h' m' => imageConversion? w h m w' h' m'
  | array shape e, array shape' e' =>
    if e = e' ∧ fits shape shape' = true then some .noop else none
  | s, t => if s = t then some .noop else none

def requireConversionTo (source target : ColumnType) : Except Error Conversion :=
  match source.conversionTo? target with
  | some c => .ok c
  | none => .error (.type (.noConversion source target))

end ColumnType

namespace Conversion

def isNoop (c : Conversion) : Bool := c == noop

/-- Converts a value. -/
def apply (c : Conversion) (v : Value) : Except Error Value :=
  match v, c with
  | .none, _ => .ok .none
  | v, noop => .ok v
  | .string s, parseTimestamp =>
    match Timestamp.parse? s with
    | some t => .ok (.timestamp t)
    | none => .ok .none
  | v, parseTimestamp => .error (.type (.valueMismatch .string v.type))
  | .image i, image p => (ImageStep.applyAll i p.steps).map .image
  | v, image _ => .error (.type (.valueMismatch .image v.type))

@[simp] theorem apply_none (c : Conversion) : c.apply .none = .ok .none := by
  cases c <;> rfl

@[simp] theorem apply_noop (v : Value) : noop.apply v = .ok v := by
  cases v <;> rfl

end Conversion
end Cadastre
