/-
# Callables

The executable body of a function, supplied by the host. It is called on one
row of arguments, or on many rows as columns: a batched parameter's column has
one value per row, any other column a single value. Each instance has a number
of its own; a callable that can be stored has a body of bytes.

Key definitions: `Callable`, `Callable.scalar`, `Callable.batch`,
`Callable.withBody`, `Callable.sameBody`, `Callable.rowArgs`.
-/
import Cadastre.Error
import Cadastre.Value

namespace Cadastre

/-- The executable body of a function. -/
structure Callable where
  /-- The number of the instance. -/
  instanceId : Nat
  call : List Value → Except Error Value
  callBatch : List (List Value) → Nat → Except Error (List Value)
  /-- The bytes from which a loader makes the callable again. -/
  body : Option (List UInt8)

namespace Callable

/-- The arguments of a row: each column's value for the row, or its first one. -/
def rowArgs (columns : List (List Value)) (row : Nat) : List Value :=
  columns.map fun column => (column[row]?).getD (column.head?.getD .none)

/-- Calls row after row. -/
def callRows (call : List Value → Except Error Value) (columns : List (List Value)) :
    List Nat → Except Error (List Value)
  | [] => .ok []
  | row :: rows => do
    let v ← call (rowArgs columns row)
    let vs ← callRows call columns rows
    .ok (v :: vs)

/-- A callable of single rows; a batch is called row by row. -/
def scalar (instanceId : Nat) (f : List Value → Except Error Value) : Callable where
  instanceId := instanceId
  call := f
  callBatch columns rows := callRows f columns (List.range rows)
  body := none

/-- A callable of batches; a single row is a batch of one, of which the last
result counts. -/
def batch (instanceId : Nat) (f : List (List Value) → Nat → Except Error (List Value)) :
    Callable where
  instanceId := instanceId
  call args := (f (args.map fun a => [a]) 1).map fun vs => vs.getLast?.getD .none
  callBatch := f
  body := none

/-- A new instance with a body attached. -/
def withBody (c : Callable) (instanceId : Nat) (body : List UInt8) : Callable :=
  { c with instanceId := instanceId, body := some body }

/-- Whether two callables do the same: they are one instance or have equal
bodies. -/
def sameBody (c d : Callable) : Bool :=
  c.instanceId == d.instanceId ||
    match c.body, d.body with
    | some b, some b' => b == b'
    | _, _ => false

end Callable

/-- Turns a stored body back into a callable. -/
abbrev CallableLoader := List UInt8 → Except Error Callable

end Cadastre
