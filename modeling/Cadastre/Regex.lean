/-
# Regular expressions

The values of fields are matched with regular expressions. This module holds
their trees, as far as it matters whether a matcher can be made of them, and
`Cadastre.Regex.Reader` reads them.

An expression matches characters, or bytes where its flag `u` is off. No table
of Unicode is at hand: characters have no shorthand classes, no word boundaries
and no folding of case. Bytes have them for ASCII, and what matches a byte that
is not ASCII is refused, as it could match a part of a character.

Key definitions: `CharSet`, `Regex`, `Regex.depth`, `Regex.check`,
`Regex.isUsable`.
Key theorems: `Regex.check_group`.
-/

namespace Cadastre

/-- The flags that are switched on or off, by their letters. -/
abbrev RegexFlags := List (Char × Bool)

/-- What the flags say while an expression is walked through. -/
structure RegexMode where
  unicode : Bool := true
  ignoreCase : Bool := false
  deriving DecidableEq, Repr

/-- The mode with some flags switched. -/
def RegexMode.switch (m : RegexMode) (fs : RegexFlags) : RegexMode where
  unicode := (fs.lookup 'u').getD m.unicode
  ignoreCase := (fs.lookup 'i').getD m.ignoreCase

/-- A character that stands for itself. `isByte` says that it is written as the
two hexadecimal digits of a byte. -/
structure RegexLiteral where
  char : Char
  isByte : Bool
  deriving DecidableEq, Repr

/-- What matches one place of a text. -/
inductive RegexAtom where
  | literal (l : RegexLiteral)
  /-- Every character but the end of a line. -/
  | any
  /-- The start or the end of a text or line. -/
  | anchor
  | wordBoundary
  /-- The digits, blanks or word characters, or all others. -/
  | shorthand (negated : Bool)
  deriving DecidableEq, Repr

/-- A set of characters. -/
inductive CharSet where
  | empty
  | literal (l : RegexLiteral)
  | range (first last : RegexLiteral)
  /-- A set that is known by its name, as in `[:alpha:]`, or its complement. -/
  | named (negated : Bool)
  | shorthand (negated : Bool)
  | union (items : List CharSet)
  /-- An intersection or a difference. -/
  | combined (left right : CharSet)
  /-- A set in brackets, or its complement. -/
  | bracketed (negated : Bool) (s : CharSet)
  deriving Repr

/-- A regular expression. -/
inductive Regex where
  | empty
  /-- Flags for what follows in the same group. -/
  | flags (fs : RegexFlags)
  | atom (a : RegexAtom)
  | set (s : CharSet)
  | repeated (r : Regex)
  | group (fs : RegexFlags) (r : Regex)
  | concat (rs : List Regex)
  | alternation (rs : List Regex)
  deriving Repr

/-! ### Nesting -/

namespace CharSet

mutual

/-- How deep a set nests. -/
def depth : CharSet → Nat
  | union items => maxDepth items + 1
  | combined l r => max l.depth r.depth + 1
  | bracketed _ s => s.depth + 1
  | _ => 0

def maxDepth : List CharSet → Nat
  | [] => 0
  | s :: ss => max (depth s) (maxDepth ss)

end

end CharSet

namespace Regex

mutual

/-- How deep an expression nests. -/
def depth : Regex → Nat
  | set s => s.depth
  | repeated r => r.depth + 1
  | group _ r => r.depth + 1
  | concat rs => maxDepth rs + 1
  | alternation rs => maxDepth rs + 1
  | _ => 0

def maxDepth : List Regex → Nat
  | [] => 0
  | r :: rs => max (depth r) (maxDepth rs)

end

/-- An expression nests at most so deep. -/
def maxNesting : Nat := 250

end Regex

/-! ### What can be matched -/

/-- Whether a literal is an ASCII character. -/
def RegexLiteral.isAscii (l : RegexLiteral) : Bool := l.char.toNat < 128

/-- Whether an atom can be matched. A literal that is not ASCII matches its
bytes one after the other, but a single byte is no character. -/
def RegexAtom.isUsable (m : RegexMode) : RegexAtom → Bool
  | literal l => if m.unicode then !m.ignoreCase else !l.isByte || l.isAscii
  | any => m.unicode
  | anchor => true
  | wordBoundary => !m.unicode
  | shorthand negated => !m.unicode && !negated

namespace CharSet

mutual

/-- Whether a set can be matched. -/
def isUsable (m : RegexMode) : CharSet → Bool
  | empty => true
  | literal l => if m.unicode then !m.ignoreCase else l.isAscii
  | range first last => if m.unicode then !m.ignoreCase else first.isAscii && last.isAscii
  | named negated => if m.unicode then !m.ignoreCase else !negated
  | shorthand negated => !m.unicode && !negated
  | union items => allUsable m items
  | combined l r => l.isUsable m && r.isUsable m
  | bracketed negated s => (m.unicode || !negated) && s.isUsable m

def allUsable (m : RegexMode) : List CharSet → Bool
  | [] => true
  | s :: ss => isUsable m s && allUsable m ss

end

end CharSet

namespace Regex

mutual

/-- The mode after an expression that can be matched. -/
def check (m : RegexMode) : Regex → Option RegexMode
  | empty => some m
  | flags fs => some (m.switch fs)
  | atom a => if a.isUsable m then some m else none
  | set s => if s.isUsable m then some m else none
  | repeated r => check m r
  | group fs r => (check (m.switch fs) r).map fun _ => m
  | concat rs => checkAll m rs
  | alternation rs => checkAll m rs

def checkAll (m : RegexMode) : List Regex → Option RegexMode
  | [] => some m
  | r :: rs =>
    match check m r with
    | some m => checkAll m rs
    | none => none

end

/-- Whether a matcher can be made of an expression. -/
def isUsable (r : Regex) : Bool := decide (r.depth ≤ maxNesting) && (r.check {}).isSome

/-- The flags of a group end with it. -/
theorem check_group {m n : RegexMode} {fs : RegexFlags} {r : Regex}
    (h : (group fs r).check m = some n) : n = m := by
  rw [check] at h
  obtain ⟨_, _, rfl⟩ := Option.map_eq_some_iff.1 h
  rfl

end Regex
end Cadastre
