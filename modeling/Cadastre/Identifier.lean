/-
# Identifiers and symbol paths

The names of columns, tables and directories are identifiers: a letter or an
underscore, then letters, digits and underscores. The path of a function is a
list of identifiers with dots between them.

Key definitions: `isIdentifier`, `SymbolPath.isValid`, `SymbolPath.check`.
-/
import Cadastre.Error
import Cadastre.Text.Letter

namespace Cadastre

/-- A character that may start an identifier. -/
def startsName (c : Char) : Bool := Text.isLetter c || c == '_'

/-- A character that may stand after the first one of an identifier. -/
def continuesName (c : Char) : Bool := Text.isLetter c || Text.isDigit c || c == '_'

def isIdentifierChars : List Char → Bool
  | [] => false
  | c :: cs => startsName c && cs.all continuesName

/-- A letter or an underscore, then letters, digits and underscores. -/
def isIdentifier (s : String) : Bool := isIdentifierChars s.toList

namespace SymbolPath

/-- The parts of a text between its dots. -/
def parts : List Char → List (List Char)
  | [] => [[]]
  | c :: cs =>
    if c = '.' then [] :: parts cs
    else
      match parts cs with
      | p :: ps => (c :: p) :: ps
      | [] => [[c]]

/-- Identifiers with dots between them. -/
def isValid (path : String) : Bool := (parts path.toList).all isIdentifierChars

def check (path : String) : Except Error Unit :=
  if isValid path then .ok () else .error (.function (.invalidSymbolPath path))

end SymbolPath
end Cadastre
