/-
# Log filters

A filter is a list of directives between commas: a level, a target with or
without a level, or the span and field of the events in brackets. Levels are
names in any case or the numbers 0 to 5. A field may have a value, which is a
number or a regular expression.

Blanks at the ends of a directive do not count when its parts are found, but
the parts are cut at the same places from the whole directive. So blanks in
front move the parts: a level behind an equals sign is lost, and the value of a
field begins too early.

Key definitions: `LogFilter.outline?`, `LogFilter.acceptsValue`,
`LogFilter.accepts`.
-/
import Cadastre.Regex.Reader

namespace Cadastre
namespace LogFilter

/-- The text with the capital letters of ASCII made small. -/
def lower (cs : List Char) : List Char := cs.map Char.toLower

/-! ### Levels -/

/-- A number from 0 to 5, with zeros or a plus sign in front. -/
def isLevelNumber (cs : List Char) : Bool :=
  let digits := match cs with
    | '+' :: ds => ds
    | ds => ds
  match digits.reverse with
  | last :: zeros => ('0' ≤ last && last ≤ '5') && zeros.all (· == '0')
  | [] => false

/-- The name or number of a level; an empty text stands for a level too. -/
def isLevel (cs : List Char) : Bool :=
  cs.isEmpty || isLevelNumber cs ||
    ["error", "warn", "info", "debug", "trace", "off"].any fun s => s.toList == lower cs

/-! ### Fields -/

/-- The digits of an exponent, with or without a sign. -/
def isExponent (cs : List Char) : Bool :=
  let digits := match cs with
    | '+' :: ds => ds
    | '-' :: ds => ds
    | ds => ds
  !digits.isEmpty && digits.all Char.isDigit

/-- A decimal number: digits around a point, and an exponent or none. -/
def isDecimal (cs : List Char) : Bool :=
  let whole := cs.takeWhile Char.isDigit
  let (fraction, rest) := match cs.dropWhile Char.isDigit with
    | '.' :: ds => (ds.takeWhile Char.isDigit, ds.dropWhile Char.isDigit)
    | rest => ([], rest)
  !(whole.isEmpty && fraction.isEmpty) && match rest with
    | [] => true
    | e :: ds => (e == 'e' || e == 'E') && isExponent ds

/-- A number: a decimal number, an infinity or the text for no number, with or
without a sign. -/
def isNumber (cs : List Char) : Bool :=
  let body := match cs with
    | '+' :: ds => ds
    | '-' :: ds => ds
    | ds => ds
  isDecimal body || ["inf", "infinity", "nan"].any fun s => s.toList == lower body

/-- Whether a text is the value of a field. -/
def acceptsValue (cs : List Char) : Bool :=
  isNumber cs || (Regex.parse? cs).any Regex.isUsable

/-- Whether a text is a field: any name, and after an equals sign a value up to
the next one. -/
def acceptsField (cs : List Char) : Bool :=
  match cs.dropWhile (· != '=') with
  | [] => true
  | _ :: value => acceptsValue (value.takeWhile (· != '='))

/-! ### Directives -/

/-- Where the parts of a directive are: from where to where its field goes and
where its level begins. Places are counted in bytes. -/
structure Outline where
  field : Option (Nat × Nat)
  level : Option Nat
  deriving DecidableEq, Repr

/-- A character that may start a directive. -/
def startsDirective (c : Char) : Bool :=
  c == '-' || c == ':' || c == '_' || Text.isLetter c || Text.isDigit c

/-- What follows a span at `place`: nothing, or an equals sign and a level. -/
def afterSpan (field : Option (Nat × Nat)) (place : Nat) : List Char → Option Outline
  | [] => some ⟨field, none⟩
  | '=' :: _ => some ⟨field, some (place + 1)⟩
  | _ => none

/-- A field that began at `start`, up to the closing brace and bracket. It is
not empty. -/
def field (start place : Nat) : List Char → Option Outline
  | [] => none
  | '\x7d' :: ']' :: rest =>
    if start = place then none else afterSpan (some (start, place)) (place + 2) rest
  | '\x7d' :: _ => none
  | c :: rest => field start (place + c.utf8Size) rest

/-- A span up to its bracket, and what follows. -/
def span (place : Nat) : List Char → Option Outline
  | [] => none
  | ']' :: rest => afterSpan none (place + 1) rest
  | '\x7b' :: rest => field (place + 1) (place + 1) rest
  | c :: rest => span (place + c.utf8Size) rest

/-- A level alone or a target, up to the span or level that follows. -/
def target (place : Nat) : List Char → Option Outline
  | [] => some ⟨none, none⟩
  | '=' :: _ => some ⟨none, some (place + 1)⟩
  | '[' :: rest => span (place + 1) rest
  | c :: rest => target (place + c.utf8Size) rest

/-- The parts of a directive without blanks at its ends. -/
def outline? : List Char → Option Outline
  | [] => none
  | '[' :: rest => span 1 rest
  | c :: rest => if startsDirective c then target c.utf8Size rest else none

/-- The text between blanks at its ends. -/
def trim (cs : List Char) : List Char :=
  ((cs.dropWhile Text.isBlank).reverse.dropWhile Text.isBlank).reverse

/-- The text from a place on; there is no place within a character. -/
def dropBytes : Nat → List Char → Option (List Char)
  | 0, cs => some cs
  | _ + 1, [] => none
  | n + 1, c :: cs => if c.utf8Size ≤ n + 1 then dropBytes (n + 1 - c.utf8Size) cs else none

/-- The text up to a place. -/
def takeBytes : Nat → List Char → Option (List Char)
  | 0, _ => some []
  | _ + 1, [] => none
  | n + 1, c :: cs =>
    if c.utf8Size ≤ n + 1 then (takeBytes (n + 1 - c.utf8Size) cs).map (c :: ·) else none

/-- The text between two places. -/
def cut (start stop : Nat) (cs : List Char) : Option (List Char) :=
  (dropBytes start cs).bind (takeBytes (stop - start))

/-- Whether a text is a directive. -/
def acceptsDirective (cs : List Char) : Bool :=
  match outline? (trim cs) with
  | none => false
  | some o =>
    (match o.field with
      | some (start, stop) => (cut start stop cs).any acceptsField
      | none => true) &&
    (match o.level with
      | some start => (dropBytes start cs).any isLevel
      | none => true)

/-! ### Filters -/

/-- The parts of a text between its commas. -/
def parts : List Char → List (List Char)
  | [] => [[]]
  | c :: cs =>
    if c = ',' then [] :: parts cs
    else
      match parts cs with
      | p :: ps => (c :: p) :: ps
      | [] => [[c]]

/-- Whether a text is a filter. Empty directives do not count. -/
def accepts (filter : String) : Bool :=
  ((parts filter.toList).filter fun d => !d.isEmpty).all acceptsDirective

/-- What is cut off the front and the rest make up the text. -/
theorem takeBytes_append_dropBytes {n : Nat} {cs front rest : List Char}
    (hf : takeBytes n cs = some front) (hr : dropBytes n cs = some rest) : front ++ rest = cs := by
  fun_induction takeBytes n cs generalizing front with
  | case1 => simp_all [dropBytes]
  | case2 => cases hf
  | case3 n c cs h ih =>
    obtain ⟨fs, hfs, rfl⟩ := Option.map_eq_some_iff.1 hf
    rw [dropBytes, if_pos h] at hr
    simp [ih hfs hr]
  | case4 => cases hf

end LogFilter
end Cadastre
