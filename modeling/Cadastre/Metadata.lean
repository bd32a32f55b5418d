/-
# Metadata records

The content of a metadata record is JSON. Fields that are unknown are ignored,
and optional fields and collections that are missing are empty. A content that
lacks a required field, or that violates a rule of its kind, is corrupt: it is
refused with an error that names the record's key.

Key definitions: `Payload`, `Payload.decode`, `SystemInfo`, `DirInfo`,
`layoutVersion`.
Key theorems: `Payload.decode_toJson`.
-/
import Cadastre.Error
import Cadastre.Json.Encode

namespace Cadastre

/-- The content of a kind of record: how it is written and read, and what is
wrong with it, if anything is. -/
class Payload (α : Type) where
  toJson : α → Json
  ofJson? : Json → Option α
  flaw? : α → Option String

/-- Reads the content of the record with the given key. -/
def Payload.decode {α : Type} [Payload α] (key : Key) (j : Json) : Except Error α :=
  match (ofJson? j : Option α) with
  | none => .error (.catalog (.undecodable key))
  | some a =>
    match flaw? a with
    | some reason => .error (.catalog (.invalidRecord key reason))
    | none => .ok a

/-- What is read from what was written, if the kind reads what it writes. -/
theorem Payload.decode_toJson {α : Type} [Payload α] {key : Key} {a : α}
    (h : ofJson? (toJson a) = some a) (hf : flaw? a = none) : decode key (toJson a) = .ok a := by
  simp [decode, h, hf]

/-- The version of the layout in which records are written. -/
def layoutVersion : UInt32 := 1

/-- The system record: the layout of the store's records. -/
structure SystemInfo where
  layout : UInt32
  deriving DecidableEq, Repr

instance : Payload SystemInfo where
  toJson i := .obj [("schema_version", .ofNat i.layout.toNat)]
  ofJson? j := do
    let ms ← j.members? ["schema_version"]
    let layout ← Json.required ms "schema_version" Json.uint32?
    some ⟨layout⟩
  flaw? i := if i.layout = 0 then some "schema version 0 does not exist" else none

/-- The record of a directory. Its parent stands next to the content. -/
structure DirInfo where
  name : String
  deriving DecidableEq, Repr

instance : Payload DirInfo where
  toJson i := .obj [("name", .str i.name)]
  ofJson? j := do
    let ms ← j.members? ["name"]
    let name ← Json.required ms "name" Json.str?
    some ⟨name⟩
  flaw? _ := none

end Cadastre
