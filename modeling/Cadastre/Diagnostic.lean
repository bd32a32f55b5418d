/-
# Diagnostics

What an error tells its reader: a code, a message, and where they help a label,
an advice, notes and the diagnostic it was caused by. The word before the first
underscore of the code names the kind of the error.

Key definitions: `Diagnostic`, `ErrorKind.ofCode`, `Diagnostic.render`.
-/

namespace Cadastre

/-- The kinds of errors. -/
inductive ErrorKind where
  /-- A function is declared wrongly. -/
  | definition
  /-- A conversion is missing or no overload fits. -/
  | type
  /-- A table is no longer at the expected version. -/
  | versionConflict
  /-- A symbol path is bound to another function. -/
  | registryConflict
  /-- A stored record cannot be read. -/
  | corruptMetadata
  /-- An entry of the catalog is missing or there twice. -/
  | catalog
  | internal
  deriving DecidableEq, Repr

/-- The text before the first underscore, if there is one. -/
def codeFamily? : List Char → Option (List Char)
  | [] => none
  | c :: cs => if c = '_' then some [] else (codeFamily? cs).map (c :: ·)

/-- The kind of the errors with the given code. -/
def ErrorKind.ofCode (code : String) : ErrorKind :=
  match (codeFamily? code.toList).map String.ofList with
  | some "DEFINITION" => .definition
  | some "TYPE" => .type
  | some "VERSION" => .versionConflict
  | some "REGISTRY" => .registryConflict
  | some "METADATA" => .corruptMetadata
  | some "CATALOG" => .catalog
  | _ => .internal

/-- A described error. -/
inductive Diagnostic where
  | mk (code message : String) (label help : Option String) (notes : List String)
      (cause : Option Diagnostic)
  deriving Repr

namespace Diagnostic

def code : Diagnostic → String
  | mk c _ _ _ _ _ => c

def message : Diagnostic → String
  | mk _ m _ _ _ _ => m

def label : Diagnostic → Option String
  | mk _ _ l _ _ _ => l

def help : Diagnostic → Option String
  | mk _ _ _ h _ _ => h

def notes : Diagnostic → List String
  | mk _ _ _ _ n _ => n

def cause : Diagnostic → Option Diagnostic
  | mk _ _ _ _ _ c => c

/-- A diagnostic that is only a code and a message. -/
def plain (code message : String) : Diagnostic := mk code message none none [] none

def withLabel (d : Diagnostic) (label : String) : Diagnostic :=
  mk d.code d.message (some label) d.help d.notes d.cause

def withHelp (d : Diagnostic) (help : String) : Diagnostic :=
  mk d.code d.message d.label (some help) d.notes d.cause

def withNote (d : Diagnostic) (note : String) : Diagnostic :=
  mk d.code d.message d.label d.help (d.notes ++ [note]) d.cause

def kind (d : Diagnostic) : ErrorKind := .ofCode d.code

/-- One line of the rendered text. -/
def line (indent s : String) : String := indent ++ s ++ "\n"

/-- The text of a diagnostic; each cause is indented under what it caused. -/
def renderAt (indent : String) : Diagnostic → String
  | mk code message label help notes cause =>
    line indent ("[" ++ code ++ "] " ++ message) ++
    (match label with
      | some l => line indent ("  = " ++ l)
      | none => "") ++
    (match help with
      | some h => line indent ("  help: " ++ h)
      | none => "") ++
    String.join (notes.map fun n => line indent ("  note: " ++ n)) ++
    (match cause with
      | some c => line indent "  caused by:" ++ renderAt (indent ++ "  ") c
      | none => "")

def render (d : Diagnostic) : String := renderAt "" d

end Diagnostic
end Cadastre
