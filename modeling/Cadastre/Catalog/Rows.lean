/-
# Rows of a table

Inserting gives out the next row numbers and lists them, each as a 64-bit word.
Updating and deleting name rows that were given out; a deleted row's number is
not given out again. The rows of a view come from its base, so none are inserted
or deleted there.

Key definitions: `TableHead.insertRows`, `TableHead.updateRows`,
`TableHead.deleteRows`.
-/
import Cadastre.Error
import Cadastre.Metadata.Table

namespace Cadastre
namespace TableHead

def requireRows (h : TableHead) (t : TableId) : Except Error Unit :=
  if h.isView then .error (.catalog (.viewRowMutation t)) else .ok ()

/-- Every row was given out. -/
def requireAllocated (h : TableHead) (t : TableId) (rows : List RowId) : Except Error Unit :=
  match rows.find? fun r => decide (h.nextRow ≤ r) with
  | some r => .error (.catalog (.rowNotAllocated t r))
  | none => .ok ()

/-- Gives out `count` row numbers; they end at `2 ^ 64 - 1`. -/
def insertRows (t : TableId) (count : Nat) (h : TableHead) :
    Except Error (TableHead × List RowId) := do
  h.requireRows t
  if 2 ^ 64 ≤ h.nextRow + count then .error (.catalog (.rowIdsExhausted t count))
  else do
    requireBuffer (8 * count)
    .ok ({ h with nextRow := h.nextRow + count }, List.range' h.nextRow count)

def updateRows (t : TableId) (rows : List RowId) (h : TableHead) :
    Except Error (TableHead × Unit) := do
  h.requireAllocated t rows
  .ok (h, ())

def deleteRows (t : TableId) (rows : List RowId) (h : TableHead) :
    Except Error (TableHead × Unit) := do
  h.requireRows t
  h.requireAllocated t rows
  .ok (h, ())

end TableHead
end Cadastre
