/-
# Reading regular expressions

An expression is read from left to right; groups and sets in brackets may
nest. With the flag `x` blanks and comments count for nothing. What needs a
closing brace is not read, such as a counted repetition: an expression is the
value of a field, and the first closing brace ends the field.

Key definitions: `Regex.skip`, `Regex.readEscape`, `Regex.readSet`,
`Regex.parse?`.
Key theorems: `Regex.length_skip_le`.
-/
import Cadastre.Regex
import Cadastre.Text.Blank
import Cadastre.Text.Hex
import Cadastre.Text.Letter

namespace Cadastre
namespace Regex

/-- The text after the blanks and comments it starts with. A comment goes from
a hash to the end of the line. -/
def skipBlanks (inComment : Bool) : List Char → List Char
  | [] => []
  | c :: cs =>
    if inComment then skipBlanks (c != '\n') cs
    else if Text.isBlank c then skipBlanks false cs
    else if c = '#' then skipBlanks true cs
    else c :: cs

/-- The text where reading goes on; only with the flag `x` is anything skipped. -/
def skip (verbose : Bool) (cs : List Char) : List Char :=
  if verbose then skipBlanks false cs else cs

theorem length_skipBlanks_le (inComment : Bool) (cs : List Char) :
    (skipBlanks inComment cs).length ≤ cs.length := by
  induction cs generalizing inComment with
  | nil => simp [skipBlanks]
  | cons c cs ih =>
    rw [skipBlanks]
    split
    · exact Nat.le_succ_of_le (ih _)
    · split
      · exact Nat.le_succ_of_le (ih _)
      · split
        · exact Nat.le_succ_of_le (ih _)
        · exact Nat.le_refl _

theorem length_skip_le (verbose : Bool) (cs : List Char) :
    (skip verbose cs).length ≤ cs.length := by
  unfold skip
  split
  · exact length_skipBlanks_le false cs
  · exact Nat.le_refl _

/-! ### Escapes -/

/-- Reads `count` hexadecimal digits after the ones of `n`. -/
def readHex (verbose : Bool) : Nat → Nat → List Char → Option (Nat × List Char)
  | 0, n, cs => some (n, cs)
  | count + 1, n, cs =>
    match skip verbose cs with
    | [] => none
    | c :: cs =>
      match Text.hexValue? c with
      | some d => readHex verbose count (n * 16 + d) cs
      | none => none

/-- Reads a character as `count` hexadecimal digits of its number. -/
def readCode (verbose : Bool) (count : Nat) (cs : List Char) : Option (RegexAtom × List Char) :=
  match readHex verbose count 0 cs with
  | some (n, cs) =>
    if n.isValidChar then some (.literal ⟨Char.ofNat n, count == 2⟩, cs) else none
  | none => none

/-- The control character that a letter stands for. -/
def control? : Char → Option Char
  | 'a' => some '\x07'
  | 'f' => some '\x0c'
  | 't' => some '\t'
  | 'n' => some '\n'
  | 'r' => some '\r'
  | 'v' => some '\x0b'
  | _ => none

/-- Reads what follows a backslash. Every mark of ASCII stands for itself, but
the angle brackets are the ends of words. There is no reference to a group and
no property of Unicode. -/
def readEscape (verbose : Bool) : List Char → Option (RegexAtom × List Char)
  | [] => none
  | c :: cs =>
    if c = 'x' then readCode verbose 2 cs
    else if c = 'u' then readCode verbose 4 cs
    else if c = 'U' then readCode verbose 8 cs
    else if c ∈ ['d', 's', 'w'] then some (.shorthand false, cs)
    else if c ∈ ['D', 'S', 'W'] then some (.shorthand true, cs)
    else if c ∈ ['A', 'z'] then some (.anchor, cs)
    else if c ∈ ['b', 'B', '<', '>'] then some (.wordBoundary, cs)
    else if c.toNat < 128 ∧ !c.isAlphanum then some (.literal ⟨c, false⟩, cs)
    else (control? c).map fun c => (.literal ⟨c, false⟩, cs)

/-! ### Sets of characters -/

def setNames : List String :=
  ["alnum", "alpha", "ascii", "blank", "cntrl", "digit", "graph", "lower", "print", "punct",
    "space", "upper", "word", "xdigit"]

/-- Reads a set by its name, after the bracket: a colon, the name, a colon and a
bracket. -/
def readNamed : List Char → Option (Bool × List Char)
  | ':' :: cs =>
    let negated := cs.head? == some '^'
    let cs := if negated then cs.tail else cs
    if String.ofList (cs.takeWhile (· != ':')) ∈ setNames then
      match cs.dropWhile (· != ':') with
      | ':' :: ']' :: cs => some (negated, cs)
      | _ => none
    else none
  | _ => none

/-- The set that an atom stands for within brackets. -/
def setOfAtom? : RegexAtom → Option CharSet
  | .literal l => some (.literal l)
  | .shorthand negated => some (.shorthand negated)
  | _ => none

/-- Reads one end of a range. -/
def readEnd (verbose : Bool) : List Char → Option (RegexAtom × List Char)
  | [] => none
  | c :: cs => if c = '\\' then readEscape verbose cs else some (.literal ⟨c, false⟩, cs)

/-- The character that follows a dash. A hash counts as a blank here. -/
def afterDash? (verbose : Bool) (cs : List Char) : Option Char :=
  if verbose then
    match Text.dropBlanks cs with
    | '#' :: cs => (Text.dropBlanks cs).head?
    | cs => cs.head?
  else cs.head?

/-- Reads a range, or what stands alone. A dash before a bracket or another
dash does not make a range. -/
def readRange (verbose : Bool) (cs : List Char) : Option (CharSet × List Char) :=
  match readEnd verbose cs with
  | none => none
  | some (first, cs) =>
    match skip verbose cs with
    | [] => none
    | '-' :: rest =>
      if afterDash? verbose rest ∈ [some ']', some '-'] then
        (setOfAtom? first).map fun s => (s, '-' :: rest)
      else
        match first, readEnd verbose (skip verbose rest) with
        | .literal a, some (.literal b, cs) =>
          if a.char ≤ b.char then some (.range a b, cs) else none
        | _, _ => none
    | cs => (setOfAtom? first).map fun s => (s, cs)

/-- A set in brackets that is being read: whether it is a complement, what
stands before the last operator, and the items after it, the last one first. -/
structure SetLevel where
  negated : Bool
  left : Option CharSet
  items : List CharSet

namespace SetLevel

def add (l : SetLevel) (s : CharSet) : SetLevel := { l with items := s :: l.items }

/-- What has been read so far. -/
def value (l : SetLevel) : CharSet :=
  let last := match l.items with
    | [] => .empty
    | [s] => s
    | items => .union items.reverse
  match l.left with
  | some s => .combined s last
  | none => last

/-- The level after an operator. -/
def operate (l : SetLevel) : SetLevel := { l with left := some l.value, items := [] }

/-- The set, at its closing bracket. -/
def close (l : SetLevel) : CharSet := .bracketed l.negated l.value

end SetLevel

/-- Reads the dashes at the start of a set, which stand for themselves. -/
def readDashes (verbose : Bool) (l : SetLevel) (cs : List Char) : SetLevel × List Char :=
  match _h : skip verbose cs with
  | '-' :: rest => readDashes verbose (l.add (.literal ⟨'-', false⟩)) rest
  | rest => (l, rest)
termination_by cs.length
decreasing_by
  have := length_skip_le verbose cs
  simp only [_h, List.length_cons] at this
  omega

/-- Reads the start of a set after its bracket. A closing bracket stands for
itself there. -/
def openSet (verbose : Bool) (cs : List Char) : SetLevel × List Char :=
  let (negated, cs) := match skip verbose cs with
    | '^' :: cs => (true, cs)
    | cs => (false, cs)
  let (l, cs) := readDashes verbose ⟨negated, none, []⟩ cs
  match l.items, cs with
  | [], ']' :: cs => (l.add (.literal ⟨']', false⟩), cs)
  | _, cs => (l, cs)

/-- The sets that are being read, the innermost first, or the whole set. -/
inductive SetState where
  | reading (l : SetLevel) (outer : List SetLevel)
  | done (s : CharSet)

/-- Reads the next item, operator or bracket of a set. -/
def stepSet (verbose : Bool) (l : SetLevel) (outer : List SetLevel) :
    List Char → Option (SetState × List Char)
  | '[' :: cs =>
    match readNamed cs with
    | some (negated, cs) => some (.reading (l.add (.named negated)) outer, cs)
    | none =>
      let (inner, cs) := openSet verbose cs
      some (.reading inner (l :: outer), cs)
  | ']' :: cs =>
    match outer with
    | [] => some (.done l.close, cs)
    | o :: outer => some (.reading (o.add l.close) outer, cs)
  | '&' :: '&' :: cs => some (.reading l.operate outer, cs)
  | '-' :: '-' :: cs => some (.reading l.operate outer, cs)
  | '~' :: '~' :: cs => some (.reading l.operate outer, cs)
  | cs => (readRange verbose cs).map fun (s, cs) => (.reading (l.add s) outer, cs)

/-- Reads the rest of a set. Every step takes a character. -/
def readSetRest (verbose : Bool) (s : SetState) (cs : List Char) : Option (CharSet × List Char) :=
  match s with
  | .done s => some (s, cs)
  | .reading l outer =>
    match stepSet verbose l outer (skip verbose cs) with
    | some (s, rest) => if _h : rest.length < cs.length then readSetRest verbose s rest else none
    | none => none
termination_by cs.length

/-- Reads a set after its bracket. -/
def readSet (verbose : Bool) (cs : List Char) : Option (CharSet × List Char) :=
  let (l, cs) := openSet verbose cs
  readSetRest verbose (.reading l []) cs

/-! ### Groups -/

/-- A group that is being read, or the whole expression: its flags, whether
blanks count for nothing around it, its finished branches and the items of the
last branch, both with the last one first. -/
structure Level where
  flags : RegexFlags
  around : Bool
  branches : List Regex
  items : List Regex

namespace Level

def add (l : Level) (r : Regex) : Level := { l with items := r :: l.items }

/-- The last branch. -/
def branch (l : Level) : Regex :=
  match l.items with
  | [] => .empty
  | [r] => r
  | items => .concat items.reverse

/-- What has been read so far. -/
def value (l : Level) : Regex :=
  match l.branches with
  | [] => l.branch
  | branches => .alternation (l.branch :: branches).reverse

/-- The level after a bar. -/
def alternate (l : Level) : Level := { l with branches := l.branch :: l.branches, items := [] }

/-- Repeats the last item, if there is one. Flags cannot be repeated. -/
def repeatLast (l : Level) : Option Level :=
  match l.items with
  | [] => none
  | .flags _ :: _ => none
  | r :: items => some { l with items := .repeated r :: items }

end Level

/-- The groups that are being read, the innermost first, whether blanks count
for nothing, and the names of groups so far. -/
structure State where
  level : Level
  outer : List Level
  verbose : Bool
  names : List (List Char)

namespace State

def start : State := ⟨⟨[], false, [], []⟩, [], false, []⟩

def add (s : State) (r : Regex) : State := { s with level := s.level.add r }

/-- Begins a group. -/
def openGroup (s : State) (fs : RegexFlags) : State where
  level := ⟨fs, s.verbose, [], []⟩
  outer := s.level :: s.outer
  verbose := (fs.lookup 'x').getD s.verbose
  names := s.names

/-- Ends a group. -/
def closeGroup (s : State) : Option State :=
  match s.outer with
  | [] => none
  | l :: outer => some {
      level := l.add (.group s.level.flags s.level.value)
      outer
      verbose := s.level.around
      names := s.names }

/-- Switches flags for the rest of the group. -/
def switch (s : State) (fs : RegexFlags) : State :=
  { s.add (.flags fs) with verbose := (fs.lookup 'x').getD s.verbose }

end State

/-- Reads flags up to a colon or a parenthesis. Each letter comes once; those
after a dash are switched off, and there is one. -/
def readFlags (negated : Bool) (fs : RegexFlags) : List Char → Option (RegexFlags × List Char)
  | [] => none
  | c :: cs =>
    if c = ':' ∨ c = ')' then some (fs, c :: cs)
    else if c = '-' then
      if negated ∨ cs.head? ∈ [some ':', some ')'] then none else readFlags true fs cs
    else if c ∈ ['i', 'm', 's', 'U', 'u', 'R', 'x'] ∧ (fs.lookup c).isNone then
      readFlags negated ((c, !negated) :: fs) cs
    else none

/-- Whether a text may name a group. -/
def isGroupName : List Char → Bool
  | [] => false
  | c :: cs => (c == '_' || Text.isLetter c) &&
      cs.all fun c => c ∈ ['_', '.', '[', ']'] || Text.isLetter c || Text.isDigit c

/-- Reads the name of a group and begins the group. No name comes twice. -/
def readName (s : State) (cs : List Char) : Option (State × List Char) :=
  let name := cs.takeWhile (· != '>')
  match cs.dropWhile (· != '>') with
  | [] => none
  | _ :: cs =>
    if isGroupName name ∧ name ∉ s.names then
      some ({ s.openGroup [] with names := name :: s.names }, cs)
    else none

/-- Reads what follows an opening parenthesis: the name of a group, flags for
the rest of the group around it, or flags for a group. -/
def readGroup (s : State) : List Char → Option (State × List Char)
  | '?' :: 'P' :: '<' :: cs => readName s cs
  | '?' :: '<' :: cs => readName s cs
  | '?' :: cs =>
    match readFlags false [] cs with
    | some (fs, ':' :: cs) => some (s.openGroup fs, cs)
    | some (fs, _ :: cs) => if fs.isEmpty then none else some (s.switch fs, cs)
    | _ => none
  | cs => some (s.openGroup [], cs)

/-- Reads the next item of an expression. -/
def step (s : State) : List Char → Option (State × List Char)
  | [] => none
  | c :: cs =>
    match c with
    | '(' => readGroup s (skip s.verbose cs)
    | ')' => s.closeGroup.map fun s => (s, cs)
    | '|' => some ({ s with level := s.level.alternate }, cs)
    | '[' => (readSet s.verbose cs).map fun (t, cs) => (s.add (.set t), cs)
    | '{' => none
    | '?' | '*' | '+' =>
      s.level.repeatLast.map fun l =>
        ({ s with level := l }, if cs.head? = some '?' then cs.tail else cs)
    | '\\' => (readEscape s.verbose cs).map fun (a, cs) => (s.add (.atom a), cs)
    | '.' => some (s.add (.atom .any), cs)
    | '^' | '$' => some (s.add (.atom .anchor), cs)
    | c => some (s.add (.atom (.literal ⟨c, false⟩)), cs)

/-- Reads the rest of an expression. Every step takes a character. -/
def readRest (s : State) (cs : List Char) : Option Regex :=
  match skip s.verbose cs with
  | [] => if s.outer.isEmpty then some s.level.value else none
  | c :: tail =>
    match step s (c :: tail) with
    | some (s, rest) => if _h : rest.length < cs.length then readRest s rest else none
    | none => none
termination_by cs.length

/-- The regular expression that a text writes. -/
def parse? (cs : List Char) : Option Regex := readRest .start cs

end Regex
end Cadastre
