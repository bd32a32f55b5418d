/-
# Signatures as records

A stored signature is a record of its parameters and its return type. A missing
default is no default, and what is not said to be batched is not.

Key definitions: `Signature.toJson`, `Signature.ofJson?`.
-/
import Cadastre.Signature
import Cadastre.Value.Record

namespace Cadastre

namespace Parameter

def toJson (p : Parameter) : Json := .obj [
  ("col_type", p.type.toJson),
  ("default", .ofOption Value.toJson p.default),
  ("is_batched", .bool p.batched),
  ("name", .str p.name)]

def ofJson? (j : Json) : Option Parameter := do
  let ms ← j.members? ["name", "col_type", "default", "is_batched"]
  let name ← Json.required ms "name" Json.str?
  let type ← Json.required ms "col_type" ColumnType.ofJson?
  let default ← Json.defaulted ms "default" (Json.nullable Value.ofJson?) none
  let batched ← Json.defaulted ms "is_batched" Json.bool? false
  some ⟨name, type, default, batched⟩

end Parameter

namespace Signature

def toJson (s : Signature) : Json := .obj [
  ("is_batched", .bool s.batched),
  ("parameters", .ofList Parameter.toJson s.parameters),
  ("return_type", s.returnType.toJson)]

def ofJson? (j : Json) : Option Signature := do
  let ms ← j.members? ["parameters", "return_type", "is_batched"]
  let parameters ← Json.required ms "parameters" (Json.list? Parameter.ofJson?)
  let returnType ← Json.required ms "return_type" ColumnType.ofJson?
  let batched ← Json.defaulted ms "is_batched" Json.bool? false
  some ⟨parameters, returnType, batched⟩

end Signature
end Cadastre
