/-
# Function descriptors as records

A described parameter or result has a type, a type variable, or neither, which
leaves its type open. What is not said to be batched is not, and a function
without qualified name is known by its name.

Key definitions: `TypeSpec.ofJson?`, `ParamSpec.ofJson?`,
`FunctionDescriptor.ofJson?`, `TypeSubstitution.ofJson?`.
-/
import Cadastre.Descriptor
import Cadastre.Signature.Resolve
import Cadastre.Value.Record

namespace Cadastre

/-- The type in a described parameter or result. -/
def TypeSpec.ofJson? (j : Json) : Option TypeSpec :=
  match j.present? "type", j.present? "var" with
  | some t, _ => (ColumnType.ofJson? t).map known
  | none, some x => x.str?.map var
  | none, none => some unspecified

def ParamSpec.ofJson? (j : Json) : Option ParamSpec := do
  let name ← (j.present? "name").bind Json.str?
  let type ← TypeSpec.ofJson? j
  let default ← j.optional "default" Value.ofJson?
  let batched ← j.optionalOr "batched" Json.bool? false
  some ⟨name, type, default, batched⟩

def ReturnSpec.ofJson? (j : Json) : Option ReturnSpec := do
  let type ← TypeSpec.ofJson? j
  let batched ← j.optionalOr "batched" Json.bool? false
  some ⟨type, batched⟩

def FunctionDescriptor.ofJson? (j : Json) : Option FunctionDescriptor := do
  let name ← (j.present? "name").bind Json.str?
  let module ← j.optional "module" Json.str?
  let qualifiedName ← j.optionalOr "qualname" Json.str? name
  let params ← j.optionalOr "params" (Json.list? ParamSpec.ofJson?) []
  let result ← j.optionalOr "returns" ReturnSpec.ofJson? ⟨.unspecified, false⟩
  some ⟨name, module, qualifiedName, params, result⟩

/-- The types of an object's members. -/
def TypeSubstitution.ofMembers? : List (String × Json) → Option TypeSubstitution
  | [] => some []
  | (x, j) :: ms =>
    match ColumnType.ofJson? j, ofMembers? ms with
    | some t, some σ => some ((x, t) :: σ)
    | _, _ => none

/-- A substitution, as an object that maps each variable to its type. -/
def TypeSubstitution.ofJson? : Json → Option TypeSubstitution
  | .obj ms => ofMembers? ms
  | _ => none

end Cadastre
