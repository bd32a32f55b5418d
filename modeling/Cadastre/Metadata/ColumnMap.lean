/-
# Maps by column number as records

The columns of a table are stored as an object whose member names are the
column numbers in decimal, without signs or leading zeros.

Key definitions: `ColumnId.text`, `ColumnId.ofText?`, `Json.ofColumnMap`,
`Json.columnMap?`.
Key theorems: `ColumnId.ofText?_text`, `ColumnId.text_of_ofText?`.
-/
import Cadastre.Json.Encode
import Cadastre.Key
import Cadastre.Text.Digits

namespace Cadastre

namespace ColumnId

def text (c : ColumnId) : String := String.ofList (Text.decimal c)

/-- The column number that a text writes. -/
def ofText? (s : String) : Option ColumnId :=
  if Text.digitsValue s.toList < 2 ^ 32 ∧ text (Text.digitsValue s.toList) = s then
    some (Text.digitsValue s.toList)
  else none

theorem ofText?_text {c : ColumnId} (h : c < 2 ^ 32) : ofText? (text c) = some c := by
  have hv : Text.digitsValue (text c).toList = c := by
    simp [text, Text.digitsValue_decimal]
  simp only [ofText?, hv, h, and_self, if_true]

/-- Only the text of a column number is read as one. -/
theorem text_of_ofText? {s : String} {c : ColumnId} (h : ofText? s = some c) : text c = s := by
  unfold ofText? at h
  split at h
  · rename_i hs
    cases h
    exact hs.2
  · cases h

end ColumnId

namespace Json

variable {α : Type}

/-- The members of a map by column number. -/
def ofColumnMap (write : α → Json) (m : SortedMap ColumnId α) : Json :=
  .obj (m.entries.map fun e => (ColumnId.text e.1, write e.2))

/-- The entries of the members. -/
def columnEntries? (read : Json → Option α) : List (String × Json) → Option (List (ColumnId × α))
  | [] => some []
  | (k, j) :: ms =>
    match ColumnId.ofText? k, read j, columnEntries? read ms with
    | some c, some a, some es => some ((c, a) :: es)
    | _, _, _ => none

/-- A map by column number. -/
def columnMap? (read : Json → Option α) : Json → Option (SortedMap ColumnId α)
  | obj ms => (columnEntries? read ms).map SortedMap.ofList
  | _ => none

end Json
end Cadastre
