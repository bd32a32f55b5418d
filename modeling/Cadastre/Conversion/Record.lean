/-
# Conversions as records

A conversion shows as the name of its kind, or for images as an object of the
size and mode it leads to, with the steps in the order in which they are done.
The steps follow from the rest and are not read.

Key definitions: `Conversion.toJson`, `Conversion.ofJson?`.
-/
import Cadastre.ColumnType.Record
import Cadastre.Conversion

namespace Cadastre

def ImageStep.toJson : ImageStep → Json
  | resize w h => .arr [.str "resize", .ofNat w.toNat, .ofNat h.toNat]
  | recolor m => .arr [.str "recolor", m.toJson]

namespace ImagePipeline

def sizeToJson (s : UInt32 × UInt32) : Json := .arr [.ofNat s.1.toNat, .ofNat s.2.toNat]

def sizeOfJson? : Json → Option (UInt32 × UInt32)
  | .arr [w, h] => do
    let w ← w.uint32?
    let h ← h.uint32?
    some (w, h)
  | _ => none

def toJson (p : ImagePipeline) : Json := .obj [
  ("recolor", .ofOption ImageMode.toJson p.recolor),
  ("resize", .ofOption sizeToJson p.resize),
  ("steps", .ofList ImageStep.toJson p.steps)]

def ofJson? (j : Json) : Option ImagePipeline := do
  let resize ← j.optional "resize" sizeOfJson?
  let recolor ← j.optional "recolor" ImageMode.ofJson?
  some ⟨resize, recolor⟩

end ImagePipeline

namespace Conversion

def toJson : Conversion → Json
  | noop => .str "noop"
  | parseTimestamp => .str "parse_timestamp"
  | image p => p.toJson

def ofJson? : Json → Option Conversion
  | .str "noop" => some noop
  | .str "parse_timestamp" => some parseTimestamp
  | .obj ms => (ImagePipeline.ofJson? (.obj ms)).map image
  | _ => none

end Conversion
end Cadastre
