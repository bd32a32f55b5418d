/-
# Writing JSON text

`Json.text` writes a value without blanks. Quotes, backslashes and control
characters are escaped and every other character stands for itself; a float has
its shortest digits, and `null` stands for one that is no number.

Key definitions: `Json.text`, `Json.quoted`.
-/
import Cadastre.Json
import Cadastre.Text.Hex
import Cadastre.Text.Shortest

namespace Cadastre
namespace Json

/-- A character inside a string. -/
def escape (c : Char) : String :=
  if c = '"' then "\\\""
  else if c = '\\' then "\\\\"
  else if c.toNat < 32 then
    String.ofList ['\\', 'u', '0', '0', Text.hexDigit (c.toNat / 16), Text.hexDigit (c.toNat % 16)]
  else String.singleton c

/-- A string in quotes. -/
def quoted (s : String) : String :=
  s.toList.foldl (fun out c => out ++ escape c) "\"" ++ "\""

mutual

/-- The text of a value. -/
def text : Json → String
  | null => "null"
  | bool b => if b then "true" else "false"
  | int n => toString n
  | float x => Text.floatText x
  | str s => quoted s
  | arr [] => "[]"
  | arr (j :: js) => "[" ++ text j ++ itemsText js ++ "]"
  | obj [] => "\x7b\x7d"
  | obj ((k, j) :: ms) => "\x7b" ++ quoted k ++ ":" ++ text j ++ membersText ms ++ "\x7d"

def itemsText : List Json → String
  | [] => ""
  | j :: js => "," ++ text j ++ itemsText js

def membersText : List (String × Json) → String
  | [] => ""
  | (k, j) :: ms => "," ++ quoted k ++ ":" ++ text j ++ membersText ms

end

end Json
end Cadastre
