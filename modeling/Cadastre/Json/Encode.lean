/-
# Putting JSON values together

The counterparts of the readers: an optional value is `null` when it is absent,
a list holds its elements in order. What is written with a writer is read back
by a reader that undoes it.

Key definitions: `Json.ofOption`, `Json.ofList`, `Json.ofNat`.
Key theorems: `Json.nullable_ofOption`, `Json.list?_ofList`.
-/
import Cadastre.Json.Decode

namespace Cadastre
namespace Json

/-- An optional value; `null` is its absence. -/
def ofOption {α : Type} (write : α → Json) : Option α → Json
  | none => null
  | some a => write a

/-- A list of values. -/
def ofList {α : Type} (write : α → Json) (l : List α) : Json := arr (l.map write)

def ofNat (n : Nat) : Json := int n

theorem nullable_ofOption {α : Type} {write : α → Json} {read : Json → Option α} {o : Option α}
    (hn : ∀ a, write a ≠ null) (h : ∀ a ∈ o, read (write a) = some a) :
    nullable read (ofOption write o) = some o := by
  cases o with
  | none => rfl
  | some a =>
    have ha := h a rfl
    have hn := hn a
    simp only [ofOption]
    cases hw : write a <;> simp_all [nullable]

theorem list?_ofList {α : Type} {write : α → Json} {read : Json → Option α} {l : List α}
    (h : ∀ a ∈ l, read (write a) = some a) : list? read (ofList write l) = some l :=
  readAll_map h

end Json
end Cadastre
