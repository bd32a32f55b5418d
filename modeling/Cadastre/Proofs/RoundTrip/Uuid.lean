/-
# Identifiers are read back from their text

The text of an identifier is its 32 digits with hyphens. Taking the hyphens out
gives the digits (`ungroup?_hyphenate`), and the digits write the number
(`value?_digits`), as it is below `16 ^ 32`.

Key theorems: `Uuid.parse?_text`, `Uuid.ofJson?_toJson`.
-/
import Cadastre.Uuid

namespace Cadastre
namespace Uuid

@[simp] theorem length_digits (k n : Nat) : (digits k n).length = k := by
  induction k generalizing n with
  | zero => rfl
  | succ k ih => simp [digits, ih]

theorem value?_append (a : Nat) (xs ys : List Char) :
    value? a (xs ++ ys) = (value? a xs).bind fun b => value? b ys := by
  induction xs generalizing a with
  | nil => rfl
  | cons x xs ih =>
    simp only [List.cons_append, value?]
    split
    · exact ih _
    · rfl

/-- The last `k` digits of a number write its remainder. -/
theorem value?_digits (k n : Nat) : value? 0 (digits k n) = some (n % 16 ^ k) := by
  induction k generalizing n with
  | zero => simp [digits, value?, Nat.mod_one]
  | succ k ih =>
    have hd : n % 16 < 16 := Nat.mod_lt _ (by decide)
    have hn : n % 16 ^ (k + 1) = n / 16 % 16 ^ k * 16 + n % 16 := by
      rw [Nat.pow_succ', Nat.mod_mul]
      omega
    simp only [digits, value?_append, ih, Option.bind_some, value?, Text.hexValue?_hexDigit hd, hn]

/-- The hyphens stand where the reader looks for them. -/
theorem ungroup?_groups {a b c d e : List Char} (ha : a.length = 8) (hb : b.length = 4)
    (hc : c.length = 4) (hd : d.length = 4) (he : e.length = 12) :
    ungroup? (a ++ '-' :: b ++ '-' :: c ++ '-' :: d ++ '-' :: e) =
      some (a ++ b ++ c ++ d ++ e) := by
  have hnil {l : List Char} {n k : Nat} (hl : l.length = n) (hk : n ≤ k) : l.drop k = [] :=
    List.drop_eq_nil_of_le (by omega)
  simp [ungroup?, List.drop_append, ha, hb, hc, hd, he, hnil ha, hnil hb, hnil hc, hnil hd]

theorem ungroup?_hyphenate {ds : List Char} (h : ds.length = 32) :
    ungroup? (hyphenate ds) = some ds := by
  rw [hyphenate, ungroup?_groups (by simp [h]) (by simp [h]) (by simp [h]) (by simp [h])
    (by simp [h])]
  have e1 : ds.take 8 ++ (ds.drop 8).take 4 = ds.take 12 := by rw [← List.take_add]
  have e2 : ds.take 12 ++ (ds.drop 12).take 4 = ds.take 16 := by rw [← List.take_add]
  have e3 : ds.take 16 ++ (ds.drop 16).take 4 = ds.take 20 := by rw [← List.take_add]
  rw [e1, e2, e3, List.take_append_drop]

/-- An identifier is read back from its text. -/
theorem parse?_text (u : Uuid) : parse? u.text = some u := by
  have hl : (hyphenate (digits 32 u.value.val)).length = 36 := by simp [hyphenate]
  have hv : value? 0 (digits 32 u.value.val) = some u.value.val := by
    have hmod : u.value.val % 16 ^ 32 = u.value.val := Nat.mod_eq_of_lt u.value.isLt
    rw [value?_digits, hmod]
  have hu : ofNat u.value.val = u := by
    obtain ⟨v⟩ := u
    simp [ofNat]
  simp [parse?, text, bareDigits?, hl, ungroup?_hyphenate, hv, hu]

/-- A stored identifier is read back. -/
theorem ofJson?_toJson (u : Uuid) : ofJson? u.toJson = some u := parse?_text u

end Uuid
end Cadastre
