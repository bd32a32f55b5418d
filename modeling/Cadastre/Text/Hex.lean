/-
# Hexadecimal digits

Identifiers and the escapes of JSON strings are written in hexadecimal digits.
Digits are written in lower case and read in either case.

Key definitions: `hexDigit`, `hexValue?`.
Key theorems: `hexValue?_hexDigit`.
-/

namespace Cadastre
namespace Text

/-- The digit of a number below 16. -/
def hexDigit (n : Nat) : Char := if n < 10 then Char.ofNat (48 + n) else Char.ofNat (87 + n)

/-- The number of a digit. -/
def hexValue? (c : Char) : Option Nat :=
  if '0' ≤ c ∧ c ≤ '9' then some (c.toNat - 48)
  else if 'a' ≤ c ∧ c ≤ 'f' then some (c.toNat - 87)
  else if 'A' ≤ c ∧ c ≤ 'F' then some (c.toNat - 55)
  else none

/-- A digit is read back. -/
theorem hexValue?_hexDigit : ∀ {n : Nat}, n < 16 → hexValue? (hexDigit n) = some n := by decide

end Text
end Cadastre
