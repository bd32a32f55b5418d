/-
# Errors

An error is the cause for which an operation is refused: a type, a function or
the catalog refuses it, or a callable, a loader or a store of the host does and
describes the cause itself. Where the process would not go on at all, since it
asks for more memory than there are addresses or reads past the end of a buffer,
the cause is a breakdown, with the message that the process ends with.

Key definitions: `Error`, `Error.diagnostic`, `Error.kind`, `Error.capacityOverflow`,
`Error.sliceOutOfRange`, `requireBuffer`.
-/
import Cadastre.Error.Catalog
import Cadastre.Error.Function
import Cadastre.Error.Type

namespace Cadastre

/-- The cause for which an operation is refused. -/
inductive Error where
  | type (e : TypeError)
  | function (e : FunctionError)
  | catalog (e : CatalogError)
  /-- A cause that lies with the host. -/
  | host (d : Diagnostic)
  /-- The process breaks off. -/
  | breakdown (message : String)
  deriving Repr

namespace Error

def diagnostic : Error → Diagnostic
  | type e => e.diagnostic
  | function e => e.diagnostic
  | catalog e => e.diagnostic
  | host d => d
  | breakdown message => .plain "panic" message

def code (e : Error) : String := e.diagnostic.code

def message (e : Error) : String := e.diagnostic.message

def kind (e : Error) : ErrorKind := e.diagnostic.kind

/-- A buffer is asked for that cannot be. -/
def capacityOverflow : Error := .breakdown "capacity overflow"

/-- A slice from `first` to `last` is not within the length. Where it starts is looked
at before where it ends. -/
def sliceOutOfRange (first last length : Nat) : Error :=
  .breakdown ((if length < first then "range start index " ++ toString first
    else "range end index " ++ toString last) ++
      " out of range for slice of length " ++ toString length)

end Error

/-- The process breaks off if it asks for a buffer of so many bytes that the last
of them has no address. -/
def requireBuffer (bytes : Nat) : Except Error Unit :=
  if bytes < 2 ^ 63 then .ok () else .error .capacityOverflow

end Cadastre
