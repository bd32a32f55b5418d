/-
# Signatures from descriptors

A signature is resolved from a descriptor: each type is the one given
explicitly, or else the declared one, with type variables replaced by a
substitution. A parameter has no second of its name and no invalid type.

Key definitions: `TypeSubstitution`, `FunctionDescriptor.parameters`,
`FunctionDescriptor.signature`.
-/
import Cadastre.Descriptor
import Cadastre.Signature

namespace Cadastre

/-- What each type variable stands for. -/
abbrev TypeSubstitution := List (String × ColumnType)

namespace TypeSpec

/-- The type of a declaration. `position` names the parameter, or is `return`. -/
def resolve (spec : TypeSpec) (function position : String) (substitution : TypeSubstitution) :
    Except Error ColumnType :=
  match spec with
  | known t => .ok t
  | var x =>
    match substitution.lookup x with
    | some t => .ok t
    | none => .error (.function (.unboundTypeVariable function x))
  | unspecified => .error (.function (.unspecifiedType function position))

end TypeSpec

/-- The parameter of a declaration: an explicit type goes before the declared
one. -/
def ParamSpec.resolve (spec : ParamSpec) (function : String) (explicit : Option ColumnType)
    (substitution : TypeSubstitution) : Except Error Parameter := do
  let type ← match explicit with
    | some t => .ok t
    | none => spec.type.resolve function spec.name substitution
  if type.isInvalid then .error (.function (.invalidParameterType function spec.name))
  else .ok ⟨spec.name, type, spec.default, spec.batched⟩

/-- The parameters of declarations; `seen` are the names of those before.
Without explicit types, `explicit` is `none` for each. -/
def resolveParams (function : String) (substitution : TypeSubstitution) (seen : List String) :
    List (ParamSpec × Option ColumnType) → Except Error (List Parameter)
  | [] => .ok []
  | (spec, explicit) :: rest => do
    if seen.contains spec.name then
      .error (.function (.duplicateParameter function spec.name))
    else
      let p ← spec.resolve function explicit substitution
      let ps ← resolveParams function substitution (spec.name :: seen) rest
      .ok (p :: ps)

namespace FunctionDescriptor

/-- The parameters of a descriptor. Explicit types must be as many as the
parameters. -/
def parameters (d : FunctionDescriptor) (function : String) (explicit : Option (List ColumnType))
    (substitution : TypeSubstitution) : Except Error (List Parameter) :=
  match explicit with
  | none => resolveParams function substitution [] (d.params.map fun s => (s, none))
  | some types =>
    if types.length = d.params.length then
      resolveParams function substitution [] (d.params.zip (types.map some))
    else
      .error (.function (.parameterTypesArity function d.params.length types.length))

/-- The signature of a descriptor. -/
def signature (d : FunctionDescriptor) (function : String) (explicit : Option (List ColumnType))
    (explicitReturn : Option ColumnType) (substitution : TypeSubstitution) :
    Except Error Signature := do
  let parameters ← d.parameters function explicit substitution
  let returnType ← match explicitReturn with
    | some t => .ok t
    | none => d.result.type.resolve function "return" substitution
  .ok ⟨parameters, returnType, d.result.batched⟩

end FunctionDescriptor
end Cadastre
