/-
# Binding

A declaration is validated and becomes a function. A plain declaration has one
signature and may be batched, a method or a property; with type substitutions
it has one signature per substitution and is none of these. A template is
declared by an expression over its parameters, whose type is the return type.

Key definitions: `BindOptions`, `BoundFunction.ofDescriptor`,
`BoundFunction.ofTemplate`.
-/
import Cadastre.BoundFunction
import Cadastre.Signature.Resolve

namespace Cadastre

/-- How a callable is bound. -/
structure BindOptions where
  batchSize : Option Nat := none
  /-- A callable that is executed instead of the described one. -/
  substitute : Option Callable := none
  isMethod : Bool := false
  isProperty : Bool := false
  pool : Option ResourcePool := none
  /-- One overload per substitution. -/
  typeSubstitutions : Option (List TypeSubstitution) := none
  paramTypes : Option (List ColumnType) := none
  returnType : Option ColumnType := none
  functionName : Option String := none
  /-- Whether the function is stored by value even if it has a path. -/
  stored : Bool := false

namespace BindOptions

/-- The path of the function. -/
def path? (o : BindOptions) (d : FunctionDescriptor) : Option String :=
  if o.stored then none else d.symbolPath?

def name (o : BindOptions) (d : FunctionDescriptor) : String := o.functionName.getD d.name

/-- The name of the function in diagnostics. -/
def qualifiedName (o : BindOptions) (d : FunctionDescriptor) : String :=
  (o.path? d).getD (o.name d)

/-- A method or property needs a path, is not both, and a property has one
parameter. -/
def checkRole (o : BindOptions) (d : FunctionDescriptor) (s : Signature) : Except Error Unit :=
  if o.isMethod ∧ o.isProperty then .error (.function (.methodAndProperty (o.name d)))
  else if o.isProperty ∧ s.parameters.length ≠ 1 then
    .error (.function (.propertyArity (o.name d) s.parameters.length))
  else if (o.isMethod ∨ o.isProperty) ∧ o.path? d = none then
    .error (.function (.methodWithoutPath (o.name d)))
  else .ok ()

/-- The signature of a plain declaration. -/
def plainSignature (o : BindOptions) (d : FunctionDescriptor) : Except Error (List Signature) := do
  let s ← d.signature (o.qualifiedName d) o.paramTypes o.returnType []
  s.checkBatching (o.qualifiedName d) o.batchSize
  o.checkRole d s
  .ok [s]

/-- Type substitutions need a path and exclude batching and roles. -/
def checkSubstitutions (o : BindOptions) (d : FunctionDescriptor) (l : List TypeSubstitution) :
    Except Error Unit :=
  if o.path? d = none then .error (.function (.substitutionWithoutPath (o.qualifiedName d)))
  else if o.batchSize.isSome then
    .error (.function (.substitutionWithBatching (o.qualifiedName d)))
  else if o.isMethod ∨ o.isProperty then
    .error (.function (.substitutionWithMethod (o.qualifiedName d)))
  else if l.isEmpty then .error (.function (.emptySubstitutions (o.qualifiedName d)))
  else .ok ()

/-- The signatures of the substitutions, in order. -/
def substitutedSignatures (o : BindOptions) (d : FunctionDescriptor) :
    List TypeSubstitution → Except Error (List Signature)
  | [] => .ok []
  | σ :: σs => do
    let s ← d.signature (o.qualifiedName d) o.paramTypes o.returnType σ
    let ss ← substitutedSignatures o d σs
    .ok (s :: ss)

/-- The signatures of a declaration. -/
def signatures (o : BindOptions) (d : FunctionDescriptor) : Except Error (List Signature) :=
  match o.typeSubstitutions with
  | none => o.plainSignature d
  | some l => do
    o.checkSubstitutions d l
    o.substitutedSignatures d l

/-- The callable that is executed. -/
def chosenCallable (o : BindOptions) (d : FunctionDescriptor) (c : Callable) :
    Except Error Callable :=
  match o.substitute with
  | none => .ok c
  | some s =>
    if o.path? d = none then .error (.function (.substituteWithoutPath (o.qualifiedName d)))
    else .ok s

end BindOptions

namespace BoundFunction

/-- The function of a described callable. -/
def ofDescriptor (id : FunctionId) (d : FunctionDescriptor) (c : Callable) (o : BindOptions) :
    Except Error BoundFunction := do
  let signatures ← o.signatures d
  let c ← o.chosenCallable d c
  .ok {
    id := id
    name := o.name d
    path := o.path? d
    signatures := signatures
    implementation := .callables (List.replicate signatures.length c)
    batchSize := o.batchSize
    isMethod := o.isMethod
    isProperty := o.isProperty
    pool := o.pool }

/-- The variable that stands for a parameter. -/
def placeholder (p : Parameter) : Expr := .var p.name p.type

/-- The template function whose body `build` makes of one variable per
parameter. -/
def ofTemplate (id : FunctionId) (d : FunctionDescriptor) (paramTypes : Option (List ColumnType))
    (build : List Expr → Except Error Expr) : Except Error BoundFunction := do
  let name := d.symbolPath?.getD d.name
  let parameters ← d.parameters name paramTypes []
  if parameters.any (·.batched) then .error (.function (.batchedTemplate name))
  else
    let body ← build (parameters.map placeholder)
    if body.type.isInvalid then .error (.function (.untypedTemplate name))
    else
      let s : Signature := ⟨parameters, body.type, false⟩
      .ok {
        id := id
        name := d.name
        path := d.symbolPath?
        signatures := [s]
        implementation := .templates [⟨s, body⟩]
        batchSize := none
        isMethod := false
        isProperty := false
        pool := none }

end BoundFunction
end Cadastre
