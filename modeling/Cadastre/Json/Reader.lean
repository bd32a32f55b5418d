/-
# Reading JSON text

`Json.parse?` reads one value with blanks around it. A number without fraction
and exponent that fits 64 bits (signed or not) is whole; a larger one, and minus
zero, is a float. The members of an object are put in the order of their names;
of two with one name the later stays. Half a surrogate pair, a leading zero and
a control character inside a string are refused.

Key definitions: `Json.parse?`.
-/
import Cadastre.Json
import Cadastre.Power
import Cadastre.Text.Digits
import Cadastre.Text.Hex

namespace Cadastre
namespace Json

/-- The text after the blanks it starts with. -/
def skipBlanks (cs : List Char) : List Char :=
  cs.dropWhile fun c => c == ' ' || c == '\n' || c == '\t' || c == '\r'

/-- The code unit of four hexadecimal digits. -/
def codeUnit? (a b c d : Char) : Option Nat :=
  match Text.hexValue? a, Text.hexValue? b, Text.hexValue? c, Text.hexValue? d with
  | some a, some b, some c, some d => some (((a * 16 + b) * 16 + c) * 16 + d)
  | _, _, _, _ => none

/-- The character of an escape of two characters. -/
def escaped? : Char → Option Char
  | '"' => some '"'
  | '\\' => some '\\'
  | '/' => some '/'
  | 'b' => some '\x08'
  | 'f' => some '\x0c'
  | 'n' => some '\n'
  | 'r' => some '\r'
  | 't' => some '\t'
  | _ => none

/-- Reads the rest of a string up to its closing quote. `high` is the first
half of a surrogate pair that waits for its second. -/
def readString (done : List Char) : Option Nat → List Char → Option (String × List Char)
  | none, '"' :: rest => some (String.ofList done.reverse, rest)
  | high, '\\' :: 'u' :: a :: b :: c :: d :: rest =>
    match high, codeUnit? a b c d with
    | none, some u =>
      if 0xD800 ≤ u ∧ u < 0xDC00 then readString done (some u) rest
      else if 0xDC00 ≤ u ∧ u < 0xE000 then none
      else readString (Char.ofNat u :: done) none rest
    | some h, some u =>
      if 0xDC00 ≤ u ∧ u < 0xE000 then
        readString (Char.ofNat (0x10000 + (h - 0xD800) * 0x400 + (u - 0xDC00)) :: done) none rest
      else none
    | _, none => none
  | none, '\\' :: e :: rest =>
    match escaped? e with
    | some c => readString (c :: done) none rest
    | none => none
  | none, c :: rest => if c.toNat < 32 then none else readString (c :: done) none rest
  | _, _ => none

/-- A whole number, as a float if it does not fit 64 bits. -/
def wholeNumber (negative : Bool) (n : Nat) : Json :=
  if negative then
    if n = 0 then float (-0.0)
    else if n ≤ 2 ^ 63 then int (-n)
    else float (-(Float.ofScientific n false 0))
  else if n < 2 ^ 64 then int n
  else float (Float.ofScientific n false 0)

/-- The float `n * 10 ^ e`; `none` if it is too large. -/
def fractional? (negative : Bool) (n : Nat) (e : Int) : Option Json :=
  let size : Int := (toString n).length + e
  let x : Float :=
    if n = 0 ∨ size < -400 then 0.0
    else if 400 < size then 1.0 / 0.0
    else if e < 0 then Float.ofScientific n true e.natAbs
    else Float.ofScientific n false e.natAbs
  if x.isInf then none else some (float (if negative then -x else x))

/-- Reads the exponent of a number, if there is one. -/
def readExponent : List Char → Option (Option Int × List Char)
  | c :: rest =>
    if c == 'e' || c == 'E' then
      let (negative, rest) := match rest with
        | '-' :: r => (true, r)
        | '+' :: r => (false, r)
        | r => (false, r)
      let ds := rest.takeWhile Char.isDigit
      if ds.isEmpty then none
      else
        let e : Int := Text.digitsValue (ds.take 20)
        some (some (if negative then -e else e), rest.dropWhile Char.isDigit)
    else some (none, c :: rest)
  | [] => some (none, [])

/-- Reads a number without its sign. -/
def readNumber (negative : Bool) (cs : List Char) : Option (Json × List Char) :=
  let whole := cs.takeWhile Char.isDigit
  let rest := cs.dropWhile Char.isDigit
  match whole with
  | [] => none
  | '0' :: _ :: _ => none
  | _ =>
    match rest with
    | '.' :: rest =>
      let frac := rest.takeWhile Char.isDigit
      if frac.isEmpty then none
      else
        match readExponent (rest.dropWhile Char.isDigit) with
        | some (e, rest) =>
          (fractional? negative (Text.digitsValue (whole ++ frac)) (e.getD 0 - frac.length)).map
            (·, rest)
        | none => none
    | rest =>
      match readExponent rest with
      | some (some e, rest) => (fractional? negative (Text.digitsValue whole) e).map (·, rest)
      | some (none, rest) => some (wholeNumber negative (Text.digitsValue whole), rest)
      | none => none

/-- Adds a member in the order of the names; it takes the place of one with the
same name. -/
def insertMember (k : String) (v : Json) : List (String × Json) → List (String × Json)
  | [] => [(k, v)]
  | (l, w) :: rest =>
    if k < l then (k, v) :: (l, w) :: rest
    else if k = l then (k, v) :: rest
    else (l, w) :: insertMember k v rest

mutual

/-- Reads one value; the first argument bounds the number of steps. -/
def readValue : Nat → List Char → Option (Json × List Char)
  | 0, _ => none
  | fuel + 1, cs =>
    match skipBlanks cs with
    | 'n' :: 'u' :: 'l' :: 'l' :: rest => some (null, rest)
    | 't' :: 'r' :: 'u' :: 'e' :: rest => some (bool true, rest)
    | 'f' :: 'a' :: 'l' :: 's' :: 'e' :: rest => some (bool false, rest)
    | '"' :: rest => (readString [] none rest).map fun (s, rest) => (str s, rest)
    | '[' :: rest =>
      match skipBlanks rest with
      | ']' :: rest => some (arr [], rest)
      | rest => (readItems fuel rest).map fun (items, rest) => (arr items, rest)
    | '{' :: rest =>
      match skipBlanks rest with
      | '}' :: rest => some (obj [], rest)
      | rest => (readMembers fuel [] rest).map fun (members, rest) => (obj members, rest)
    | '-' :: rest => readNumber true rest
    | rest => readNumber false rest

/-- Reads the items of a list up to its closing bracket. -/
def readItems : Nat → List Char → Option (List Json × List Char)
  | 0, _ => none
  | fuel + 1, cs =>
    match readValue fuel cs with
    | none => none
    | some (j, rest) =>
      match skipBlanks rest with
      | ']' :: rest => some ([j], rest)
      | ',' :: rest => (readItems fuel rest).map fun (items, rest) => (j :: items, rest)
      | _ => none

/-- Reads the members of an object up to its closing brace. -/
def readMembers : Nat → List (String × Json) → List Char → Option (List (String × Json) × List Char)
  | 0, _, _ => none
  | fuel + 1, done, cs =>
    match skipBlanks cs with
    | '"' :: rest =>
      match readString [] none rest with
      | none => none
      | some (k, rest) =>
        match skipBlanks rest with
        | ':' :: rest =>
          match readValue fuel rest with
          | none => none
          | some (v, rest) =>
            match skipBlanks rest with
            | '}' :: rest => some (insertMember k v done, rest)
            | ',' :: rest => readMembers fuel (insertMember k v done) rest
            | _ => none
        | _ => none
    | _ => none

end

/-- The value that a text holds. Each step of the reader passes a character, so
the length of the text bounds their number. -/
def parse? (text : String) : Option Json :=
  let cs := text.toList
  match readValue (2 * cs.length + 2) cs with
  | some (j, rest) => if (skipBlanks rest).isEmpty then some j else none
  | none => none

end Json
end Cadastre
