/-
# The record of a stored function

A stored function has a record with its signatures and templates; the body of a
callable stands next to the content. A function that is stored in a directory
keeps its name.

Key definitions: `FunctionInfo`.
-/
import Cadastre.BoundFunction.Stored
import Cadastre.Metadata

namespace Cadastre

/-- The record of a stored function. -/
structure FunctionInfo where
  name : Option String
  function : StoredFunction

namespace FunctionInfo

def toJson (i : FunctionInfo) : Json :=
  .obj [("md", i.function.toJson), ("name", .ofOption .str i.name)]

def ofJson? (j : Json) : Option FunctionInfo := do
  let ms ← j.members? ["name", "md"]
  let name ← Json.defaulted ms "name" (Json.nullable Json.str?) none
  let function ← Json.required ms "md" StoredFunction.ofJson?
  some ⟨name, function⟩

/-- A function has signatures, and a template has an expression for each. -/
def flaw? (i : FunctionInfo) : Option String :=
  let f := i.function
  if f.signatures.isEmpty then some "function has no signatures"
  else if f.kind = .template ∧ f.templates.length ≠ f.signatures.length then
    some ("function has " ++ toString f.templates.length ++ " templates for " ++
      toString f.signatures.length ++ " signatures")
  else none

instance : Payload FunctionInfo := ⟨toJson, ofJson?, flaw?⟩

end FunctionInfo
end Cadastre
