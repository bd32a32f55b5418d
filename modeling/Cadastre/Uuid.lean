/-
# Identifiers of 128 bits

Directories, tables and functions are named by 128-bit identifiers, ordered as
numbers. Their text is 32 hexadecimal digits in groups of 8, 4, 4, 4 and 12;
reading also takes the digits without hyphens, the text in braces and the text
after `urn:uuid:`, and letters of either case.

Key definitions: `Uuid`, `Uuid.text`, `Uuid.parse?`, `Uuid.least`,
`Uuid.greatest`.
Key theorems: `Uuid.lt_irrefl`, `Uuid.lt_trans`, `Uuid.lt_trichotomy`.
-/
import Cadastre.Json.Decode
import Cadastre.Text.Hex

namespace Cadastre

/-- An identifier of 128 bits. -/
structure Uuid where
  value : Fin (2 ^ 128)
  deriving DecidableEq, Repr

namespace Uuid

instance : Inhabited Uuid := ⟨⟨0⟩⟩

instance : LT Uuid := ⟨fun a b => a.value.val < b.value.val⟩

instance (a b : Uuid) : Decidable (a < b) := inferInstanceAs (Decidable (a.value.val < b.value.val))

theorem lt_def {a b : Uuid} : a < b ↔ a.value.val < b.value.val := Iff.rfl

theorem eq_iff {a b : Uuid} : a = b ↔ a.value.val = b.value.val := by
  cases a
  cases b
  simp [Fin.ext_iff]

theorem lt_irrefl (a : Uuid) : ¬ a < a := Nat.lt_irrefl _

theorem lt_trans {a b c : Uuid} (h : a < b) (h' : b < c) : a < c := Nat.lt_trans h h'

theorem lt_trichotomy (a b : Uuid) : a < b ∨ a = b ∨ b < a := by
  rcases Nat.lt_trichotomy a.value.val b.value.val with h | h | h
  · exact .inl h
  · exact .inr (.inl (eq_iff.2 h))
  · exact .inr (.inr h)

def ofNat (n : Nat) : Uuid := ⟨Fin.ofNat (2 ^ 128) n⟩

/-- The first identifier of the order. -/
def least : Uuid := ⟨0⟩

/-- The last identifier of the order. -/
def greatest : Uuid := ⟨⟨2 ^ 128 - 1, by decide⟩⟩

/-! ### Text -/

/-- The last `k` hexadecimal digits of `n`, the highest first. -/
def digits : Nat → Nat → List Char
  | 0, _ => []
  | k + 1, n => digits k (n / 16) ++ [Text.hexDigit (n % 16)]

/-- Puts hyphens between the groups of 32 digits. -/
def hyphenate (ds : List Char) : List Char :=
  ds.take 8 ++ '-' :: (ds.drop 8).take 4 ++ '-' :: (ds.drop 12).take 4 ++
    '-' :: (ds.drop 16).take 4 ++ '-' :: ds.drop 20

/-- The identifier as text, in lower case. -/
def text (u : Uuid) : String := String.ofList (hyphenate (digits 32 u.value.val))

/-- The number that hexadecimal digits write. -/
def value? : Nat → List Char → Option Nat
  | n, [] => some n
  | n, c :: cs =>
    match Text.hexValue? c with
    | some d => value? (n * 16 + d) cs
    | none => none

/-- The digits of a text with hyphens between its groups. -/
def ungroup? (cs : List Char) : Option (List Char) :=
  if cs.length = 36 ∧ cs[8]? = some '-' ∧ cs[13]? = some '-' ∧ cs[18]? = some '-' ∧
      cs[23]? = some '-' then
    some (cs.take 8 ++ (cs.drop 9).take 4 ++ (cs.drop 14).take 4 ++ (cs.drop 19).take 4 ++
      cs.drop 24)
  else none

/-- The digits of a text in any of the accepted forms. -/
def bareDigits? (cs : List Char) : Option (List Char) :=
  if cs.length = 32 then some cs
  else if cs.length = 38 ∧ cs.head? = some '\x7b' ∧ cs.getLast? = some '\x7d' then
    ungroup? ((cs.drop 1).take 36)
  else if cs.length = 45 ∧ (cs.take 9).map Char.toLower = "urn:uuid:".toList then
    ungroup? (cs.drop 9)
  else ungroup? cs

/-- The identifier that a text writes. -/
def parse? (s : String) : Option Uuid :=
  match bareDigits? s.toList with
  | some ds => (value? 0 ds).map ofNat
  | none => none

instance : ToString Uuid := ⟨text⟩

def toJson (u : Uuid) : Json := .str u.text

def ofJson? (j : Json) : Option Uuid :=
  match j.str? with
  | some s => parse? s
  | none => none

end Uuid
end Cadastre
