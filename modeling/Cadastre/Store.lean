/-
# The store

A store holds records under their keys. A record is a JSON content with the
columns that stand next to it: a directory, and for a stored callable its body
and the runtime version under which the body was taken. A scan lists the
records of a range of keys in the order of the keys.

Key definitions: `Record`, `Store`, `Store.scan`, `Store.read?`,
`Store.require`, `Store.decodeAll`.
Key theorems: `Store.mem_scan_iff`, `Store.pairwise_scan`.
-/
import Cadastre.Metadata

namespace Cadastre

/-- A stored record. -/
structure Record where
  /-- The directory of a table or function; the parent of a directory. -/
  dir : Option DirId
  content : Json
  /-- The body of a stored callable. -/
  body : Option (List UInt8)
  /-- The runtime version under which the body was taken. -/
  runtimeVersion : Option String

/-- A record with only a content and a directory. -/
def Record.plain (dir : Option DirId) (content : Json) : Record := ⟨dir, content, none, none⟩

/-- The records by key. -/
abbrev Store := SortedMap Key Record

namespace Store

/-- The records of a range, in the order of their keys. -/
def scan (s : Store) (r : KeyRange) : List (Key × Record) :=
  s.entries.filter fun e => r.contains e.1

/-- The record of a key with its content; `none` if there is no record. -/
def read? (α : Type) [Payload α] (s : Store) (key : Key) : Except Error (Option (Record × α)) :=
  match s.get? key with
  | none => .ok none
  | some r => (Payload.decode key r.content).map fun a => some (r, a)

/-- The content of a record that other records refer to. -/
def require (α : Type) [Payload α] (s : Store) (key : Key) : Except Error α :=
  match s.get? key with
  | none => .error (.catalog (.missingRecord key))
  | some r => Payload.decode key r.content

/-- The contents of records; the first corrupt one is the error. -/
def decodeAll (α : Type) [Payload α] : List (Key × Record) → Except Error (List α)
  | [] => .ok []
  | (k, r) :: rest => do
    let a ← Payload.decode k r.content
    let as ← decodeAll α rest
    .ok (a :: as)

/-- A scan finds exactly the records of its range. -/
theorem mem_scan_iff (s : Store) (r : KeyRange) {k : Key} {x : Record} :
    (k, x) ∈ s.scan r ↔ s.get? k = some x ∧ r.contains k = true := by
  simp [scan, ← SortedMap.mem_entries_iff]

/-- A scan is in strictly increasing order of the keys. -/
theorem pairwise_scan (s : Store) (r : KeyRange) : (s.scan r).Pairwise fun a b => a.1 < b.1 :=
  s.sorted.filter _

end Store
end Cadastre
