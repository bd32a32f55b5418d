/-
# Blank characters

The text of a timestamp may have blanks in front of its numbers. A blank is a
character with the White_Space property of the Unicode character database: the
ASCII blanks, the no-break space, the spaces of typography and the two
separators.

Key definitions: `isBlank`, `dropBlanks`.
Key theorems: `isBlank_of_isWhitespace`, `dropBlanks_eq_self`.
-/

namespace Cadastre
namespace Text

/-- A blank: a character with the White_Space property. -/
def isBlank (c : Char) : Bool :=
  let n := c.toNat
  (decide (9 ≤ n) && decide (n ≤ 13)) || n == 32 || n == 133 || n == 160 || n == 5760 ||
    (decide (8192 ≤ n) && decide (n ≤ 8202)) || n == 8232 || n == 8233 || n == 8239 ||
    n == 8287 || n == 12288

/-- The text without the blanks it starts with. -/
def dropBlanks (cs : List Char) : List Char := cs.dropWhile isBlank

/-- The blanks of ASCII are blanks. -/
theorem isBlank_of_isWhitespace {c : Char} (h : c.isWhitespace = true) : isBlank c = true := by
  simp only [Char.isWhitespace, Bool.or_eq_true, decide_eq_true_eq] at h
  rcases h with ((h | h) | h) | h <;> subst h <;> decide

/-- A text that starts with no blank stays as it is. -/
theorem dropBlanks_eq_self {c : Char} {cs : List Char} (h : isBlank c = false) :
    dropBlanks (c :: cs) = c :: cs := by
  simp [dropBlanks, h]

end Text
end Cadastre
