/-
# Decimal digits

Numbers are written in decimal digits, in as many as they need (`decimal`) or
with zeros in front up to a width (`padded`). Only the ten ASCII digits count
when a number is read.

Key definitions: `decimal`, `padded`, `digitsValue`, `numberOf`.
Key theorems: `digitsValue_decimal`, `digitsValue_padded`, `isDigit_of_mem_padded`.
-/

namespace Cadastre
namespace Text

/-- The digit of a number below 10. -/
def decimalDigit (n : Nat) : Char := Char.ofNat (48 + n)

/-- The digits of a number, without leading zeros. -/
def decimal (n : Nat) : List Char :=
  if n < 10 then [decimalDigit n] else decimal (n / 10) ++ [decimalDigit (n % 10)]
termination_by n
decreasing_by omega

/-- The digits of a number, with zeros in front up to `width` digits. -/
def padded (width n : Nat) : List Char :=
  List.replicate (width - (decimal n).length) '0' ++ decimal n

/-- The number that decimal digits write. -/
def digitsValue (ds : List Char) : Nat := ds.foldl (fun n c => n * 10 + (c.toNat - 48)) 0

/-- Reads a number of `1` to `max` digits. -/
def readUpTo (max : Nat) (cs : List Char) : Option (Nat × List Char) :=
  match (cs.take max).takeWhile Char.isDigit with
  | [] => none
  | ds => some (digitsValue ds, cs.drop ds.length)

/-- Reads a number of exactly `count` digits. -/
def readExactly (count : Nat) (cs : List Char) : Option (Nat × List Char) :=
  let ds := (cs.take count).takeWhile Char.isDigit
  if ds.length = count then some (digitsValue ds, cs.drop count) else none

/-- Reads a number of one or more digits. -/
def readAny (cs : List Char) : Option (Nat × List Char) :=
  match cs.takeWhile Char.isDigit with
  | [] => none
  | ds => some (digitsValue ds, cs.dropWhile Char.isDigit)

/-! ### Reading what was written -/

theorem toNat_decimalDigit : ∀ {n : Nat}, n < 10 → (decimalDigit n).toNat = 48 + n := by decide

theorem isDigit_decimalDigit : ∀ {n : Nat}, n < 10 → (decimalDigit n).isDigit = true := by decide

theorem digitsValue_append (as bs : List Char) :
    digitsValue (as ++ bs) = bs.foldl (fun n c => n * 10 + (c.toNat - 48)) (digitsValue as) := by
  simp [digitsValue]

/-- The digits of a number write that number. -/
theorem digitsValue_decimal (n : Nat) : digitsValue (decimal n) = n := by
  fun_induction decimal n with
  | case1 n h => simp [digitsValue, toNat_decimalDigit h]
  | case2 n h ih =>
    have hd : n % 10 < 10 := Nat.mod_lt _ (by decide)
    rw [digitsValue_append, ih]
    simp only [List.foldl_cons, List.foldl_nil, toNat_decimalDigit hd]
    omega

theorem digitsValue_zeros (k : Nat) : digitsValue (List.replicate k '0') = 0 := by
  induction k with
  | zero => rfl
  | succ k ih =>
    rw [List.replicate_succ', digitsValue_append, ih]
    rfl

/-- Zeros in front do not change the number. -/
theorem digitsValue_padded (width n : Nat) : digitsValue (padded width n) = n := by
  rw [padded, digitsValue_append, digitsValue_zeros]
  exact digitsValue_decimal n

theorem isDigit_of_mem_decimal {n : Nat} {c : Char} (h : c ∈ decimal n) : c.isDigit = true := by
  fun_induction decimal n with
  | case1 n hn =>
    rw [List.mem_singleton.1 h]
    exact isDigit_decimalDigit hn
  | case2 n hn ih =>
    rcases List.mem_append.1 h with h | h
    · exact ih h
    · rw [List.mem_singleton.1 h]
      exact isDigit_decimalDigit (Nat.mod_lt _ (by decide))

/-- A written number holds digits only. -/
theorem isDigit_of_mem_padded {width n : Nat} {c : Char} (h : c ∈ padded width n) :
    c.isDigit = true := by
  rcases List.mem_append.1 h with h | h
  · rw [List.eq_of_mem_replicate h]
    decide
  · exact isDigit_of_mem_decimal h

end Text
end Cadastre
