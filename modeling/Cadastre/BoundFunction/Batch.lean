/-
# Batched execution

Many rows are executed in chunks: runs of consecutive rows, at most as many as
the batch size, that take the same overload and have the same values for the
parameters that are not batched. A chunk is called once, with one column per
parameter, and must give one result per row. A function without batch size is
called row by row.

Key definitions: `Chunk`, `BoundFunction.execBatch`.
-/
import Cadastre.BoundFunction

namespace Cadastre

/-- Consecutive rows for one call. A batched parameter's column holds a value
per row, any other the value that the rows share. -/
structure Chunk where
  overload : Nat
  columns : List (List Value)
  rows : Nat
  deriving Repr

namespace Chunk

/-- The chunk of one row. -/
def ofRow (overload : Nat) (row : List Value) : Chunk := ⟨overload, row.map fun v => [v], 1⟩

/-- Whether the values agree with the columns that are not batched. -/
def agrees : List Parameter → List (List Value) → List Value → Bool
  | p :: ps, c :: cs, v :: vs =>
    (p.batched || match c.head? with
      | some w => w.same v
      | none => false) && agrees ps cs vs
  | _, _, _ => true

/-- Whether a row can join the chunk. -/
def fits (c : Chunk) (overload : Nat) (s : Signature) (row : List Value) : Bool :=
  overload == c.overload && agrees s.parameters c.columns row

/-- The columns with the values of the batched parameters at their ends. -/
def extend : List Parameter → List (List Value) → List Value → List (List Value)
  | p :: ps, c :: cs, v :: vs => (if p.batched then c ++ [v] else c) :: extend ps cs vs
  | _, cs, _ => cs

/-- The chunk with one more row. -/
def push (c : Chunk) (s : Signature) (row : List Value) : Chunk :=
  ⟨c.overload, extend s.parameters c.columns row, c.rows + 1⟩

end Chunk

namespace BoundFunction

/-- Calls a chunk; there must be a result per row. -/
def callChunk (f : BoundFunction) (c : Chunk) : Except Error (List Value) :=
  match f.callable c.overload with
  | .error e => .error e
  | .ok callable =>
    match callable.callBatch c.columns c.rows with
    | .error e => .error e
    | .ok vs =>
      if vs.length = c.rows then .ok vs
      else .error (.function (.batchResultLength f.qualifiedName c.rows vs.length))

/-- Executes rows in chunks of at most `size` rows. `chunk` holds the rows that
have not been called yet; it is called when a row does not fit, and at the end. -/
def execChunks (f : BoundFunction) (size : Nat) : Option Chunk → List (List Value) →
    Except Error (List Value)
  | none, [] => .ok []
  | some c, [] => f.callChunk c
  | none, row :: rows =>
    match f.resolveRow row with
    | .error e => .error e
    | .ok (i, _, vs) => execChunks f size (some (.ofRow i vs)) rows
  | some c, row :: rows =>
    match f.resolveRow row with
    | .error e => .error e
    | .ok (i, s, vs) =>
      if c.rows < size ∧ c.fits i s vs = true then execChunks f size (some (c.push s vs)) rows
      else
        match f.callChunk c with
        | .error e => .error e
        | .ok out =>
          match execChunks f size (some (.ofRow i vs)) rows with
          | .error e => .error e
          | .ok more => .ok (out ++ more)

/-- Executes row after row. -/
def execRows (f : BoundFunction) : List (List Value) → Except Error (List Value)
  | [] => .ok []
  | row :: rows =>
    match f.exec row with
    | .error e => .error e
    | .ok v =>
      match execRows f rows with
      | .error e => .error e
      | .ok vs => .ok (v :: vs)

/-- Calls the function on many rows. -/
def execBatch (f : BoundFunction) (rows : List (List Value)) : Except Error (List Value) :=
  match f.batchSize with
  | some n => f.execChunks n none rows
  | none => f.execRows rows

end BoundFunction
end Cadastre
