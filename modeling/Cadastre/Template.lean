/-
# Expression templates

A template is an expression over the parameters of a signature. A call of it
expands in place: each parameter is replaced by its argument, or by its default
as a literal when there is no argument. Arguments are put in as they are, so a
variable inside an argument is never taken for a parameter.

Key definitions: `ExprTemplate`, `ExprTemplate.bindings`,
`ExprTemplate.instantiate`.
-/
import Cadastre.Expr.Record
import Cadastre.Signature.Record

namespace Cadastre

/-- The body of a template, with its signature. -/
structure ExprTemplate where
  signature : Signature
  body : Expr
  deriving Repr

namespace ExprTemplate

/-- Equality of templates; values compare as values. -/
def same (s t : ExprTemplate) : Bool := s.signature.same t.signature && s.body.same t.body

/-- What each parameter stands for; of two with one name the later counts. -/
def bindings : List Parameter → List Expr → String → Option Expr
  | [], _, _ => none
  | p :: ps, args, x =>
    match bindings ps args.tail x with
    | some e => some e
    | none =>
      if x = p.name then
        match args with
        | a :: _ => some a
        | [] => p.default.map .literal
      else none

/-- The body with the arguments in the place of the parameters. -/
def instantiate (t : ExprTemplate) (args : List Expr) : Expr :=
  t.body.substitute (bindings t.signature.parameters args)

def toJson (t : ExprTemplate) : Json :=
  .obj [("expr", t.body.toJson), ("signature", t.signature.toJson)]

def ofJson? (j : Json) : Option ExprTemplate := do
  let ms ← j.members? ["signature", "expr"]
  let signature ← Json.required ms "signature" Signature.ofJson?
  let body ← Json.required ms "expr" Expr.ofJson?
  some ⟨signature, body⟩

end ExprTemplate
end Cadastre
