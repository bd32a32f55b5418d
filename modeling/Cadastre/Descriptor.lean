/-
# Function descriptors

What a host declares about a callable: its name and module, and for each
parameter and the result a type, a type variable or nothing, and whether it is
batched. A function that lives in a module under an identifier has a symbol
path.

Key definitions: `TypeSpec`, `ParamSpec`, `ReturnSpec`, `FunctionDescriptor`,
`FunctionDescriptor.symbolPath?`.
-/
import Cadastre.Identifier
import Cadastre.Value

namespace Cadastre

/-- The declared type of a parameter or result. -/
inductive TypeSpec where
  | known (t : ColumnType)
  /-- A type variable, bound by a substitution. -/
  | var (name : String)
  /-- No declaration; the type must be given when the function is bound. -/
  | unspecified
  deriving DecidableEq, Repr

/-- A declared parameter. A batched parameter receives a list of values. -/
structure ParamSpec where
  name : String
  type : TypeSpec
  default : Option Value
  batched : Bool

/-- A declared result. -/
structure ReturnSpec where
  type : TypeSpec
  batched : Bool
  deriving DecidableEq, Repr

/-- What a host declares about a callable. -/
structure FunctionDescriptor where
  name : String
  /-- The declaring module; none for a local callable. -/
  module : Option String
  qualifiedName : String
  params : List ParamSpec
  result : ReturnSpec

namespace FunctionDescriptor

/-- The path of a callable that lives in a module under an identifier. -/
def symbolPath? (d : FunctionDescriptor) : Option String :=
  match d.module with
  | some m =>
    if m.isEmpty || !isIdentifier d.name then none else some (m ++ "." ++ d.qualifiedName)
  | none => none

end FunctionDescriptor
end Cadastre
