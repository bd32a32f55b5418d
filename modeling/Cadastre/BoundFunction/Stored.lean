/-
# Functions stored by value

A function that no path leads to is stored by value: a template as its
expressions, a callable as the body of bytes that its loader understands, next
to the signatures. All overloads of a callable share one body.

Key definitions: `StoredFunction`, `BoundFunction.toStored`,
`BoundFunction.ofStored`.
-/
import Cadastre.BoundFunction

namespace Cadastre

/-- What a stored function is. -/
inductive StoredKind where
  | callable
  | template
  deriving DecidableEq, Repr

/-- The stored form of a function. -/
structure StoredFunction where
  name : String
  kind : StoredKind
  signatures : List Signature
  batchSize : Option Nat
  templates : List ExprTemplate
  deriving Repr

namespace StoredKind

def name : StoredKind → String
  | callable => "callable"
  | template => "template"

def toJson (k : StoredKind) : Json := .str k.name

def ofJson? (j : Json) : Option StoredKind :=
  match j.case? .outer with
  | some "callable" => some callable
  | some "template" => some template
  | _ => none

end StoredKind

namespace StoredFunction

def toJson (f : StoredFunction) : Json := .obj [
  ("batch_size", .ofOption .ofNat f.batchSize),
  ("kind", f.kind.toJson),
  ("name", .str f.name),
  ("signatures", .ofList Signature.toJson f.signatures),
  ("templates", .ofList ExprTemplate.toJson f.templates)]

def ofJson? (j : Json) : Option StoredFunction := do
  let ms ← j.members? ["name", "kind", "signatures", "batch_size", "templates"]
  let name ← Json.required ms "name" Json.str?
  let kind ← Json.required ms "kind" StoredKind.ofJson?
  let signatures ← Json.required ms "signatures" (Json.list? Signature.ofJson?)
  let batchSize ← Json.defaulted ms "batch_size" (Json.nullable Json.nat?) none
  let templates ← Json.defaulted ms "templates" (Json.list? ExprTemplate.ofJson?) []
  some ⟨name, kind, signatures, batchSize, templates⟩

end StoredFunction

namespace BoundFunction

/-- The stored form of a function, and the body of its callable. A callable
without body cannot be stored. -/
def toStored (f : BoundFunction) : Except Error (StoredFunction × Option (List UInt8)) :=
  match f.implementation with
  | .templates ts => .ok (⟨f.name, .template, f.signatures, none, ts⟩, none)
  | .callables cs =>
    match cs.head?.bind Callable.body with
    | some body => .ok (⟨f.name, .callable, f.signatures, f.batchSize, []⟩, some body)
    | none => .error (.function (.notPersistable f.qualifiedName))

/-- What the stored function does, one entry per signature. -/
def loadImplementation (id : FunctionId) (f : StoredFunction) (body : Option (List UInt8))
    (load : CallableLoader) : Except Error Implementation :=
  match f.kind, body with
  | .template, _ =>
    if f.templates.length = f.signatures.length then .ok (.templates f.templates)
    else
      .error (.function (.malformedRecord ("function " ++ id.text ++ " has " ++
        toString f.templates.length ++ " templates for " ++ toString f.signatures.length ++
        " signatures")))
  | .callable, none =>
    .error (.function (.malformedRecord ("function " ++ id.text ++ " has no body")))
  | .callable, some body =>
    (load body).map fun c => .callables (List.replicate f.signatures.length c)

/-- The function of a stored form. It has no path. -/
def ofStored (id : FunctionId) (f : StoredFunction) (body : Option (List UInt8))
    (load : CallableLoader) : Except Error BoundFunction :=
  if f.signatures.isEmpty then
    .error (.function (.malformedRecord ("function " ++ id.text ++ " has no signatures")))
  else
    (loadImplementation id f body load).map fun implementation => {
      id := id
      name := f.name
      path := none
      signatures := f.signatures
      implementation := implementation
      batchSize := f.batchSize
      isMethod := false
      isProperty := false
      pool := none }

end BoundFunction
end Cadastre
