/-
# Arrays of numbers

An array is its shape, its element type and its elements as bytes, the last
dimension first. Its buffer holds the size of an element times the product of
the dimensions, and that number fits a 64-bit word at every step of the product.

Key definitions: `NdArray`, `NdArray.byteCount?`, `NdArray.create`.
Key theorems: `NdArray.byteCount?_eq_some`.
-/
import Cadastre.Error
import Cadastre.Power

namespace Cadastre

/-- An array of any number of dimensions. -/
structure NdArray where
  shape : List Nat
  element : ElementType
  data : List UInt8
  deriving DecidableEq, Repr

namespace NdArray

/-- The product of `n` and the dimensions; `none` as soon as it passes a 64-bit
word, even if a dimension zero follows. -/
def byteCount? (n : Nat) : List Nat → Option Nat
  | [] => some n
  | d :: ds => if n * d < 2 ^ 64 then byteCount? (n * d) ds else none

/-- The array with the given bytes, if they fill its shape. -/
def create (shape : List Nat) (element : ElementType) (data : List UInt8) : Except Error NdArray :=
  match byteCount? element.size shape with
  | none => .error (.type (.arrayTooLarge shape))
  | some n =>
    if data.length = n then .ok ⟨shape, element, data⟩
    else .error (.type (.arrayBufferMismatch shape data.length))

/-- A number of bytes that fits is the product. -/
theorem byteCount?_eq_some {n k : Nat} {shape : List Nat} (h : byteCount? n shape = some k) :
    k = n * shape.foldr (· * ·) 1 := by
  induction shape generalizing n with
  | nil => simp_all [byteCount?]
  | cons d ds ih =>
    rw [byteCount?] at h
    split at h
    · rw [ih h, List.foldr_cons, Nat.mul_assoc]
    · cases h

end NdArray
end Cadastre
