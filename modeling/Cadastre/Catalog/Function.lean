/-
# Storing and loading functions

A function is stored by value under its identifier. In a directory it keeps its
name; elsewhere it has none. The body of a callable is stored with the runtime
version under which it was taken, and loading it under another one is worth a
warning.

Key definitions: `Catalog.storeFunction`, `Catalog.loadFunction`.
-/
import Cadastre.Catalog
import Cadastre.Metadata.Function
import Cadastre.Store.Directory

namespace Cadastre
namespace Catalog

/-- Stores a function. -/
def storeFunction (c : Catalog) (dir : Option DirId) (f : BoundFunction) :
    Except Error (Plan FunctionId) := do
  let _ ← match dir with
    | some d => (c.store.directory d).map fun _ => ()
    | none => .ok ()
  let (stored, body) ← f.toStored
  let info : FunctionInfo := ⟨dir.map fun _ => f.name, stored⟩
  .ok {
    writes := [(.function f.id, {
      dir := dir
      content := info.toJson
      body := body
      runtimeVersion := body.map fun _ => c.config.runtimeVersion })]
    result := f.id
    log := [.debug ("stored function " ++ f.name ++ " as " ++ f.id.text)] }

/-- The warning for a body that was taken under another runtime version. -/
def runtimeWarning (c : Catalog) (id : FunctionId) (r : Record) : List Event :=
  match r.runtimeVersion with
  | none => []
  | some v =>
    if v = c.config.runtimeVersion then []
    else [.warn ("function " ++ id.text ++ " was captured under runtime version " ++ v ++
      ", loading under " ++ c.config.runtimeVersion)]

/-- Loads a stored function. -/
def loadFunction (c : Catalog) (id : FunctionId) (load : CallableLoader) :
    Reported BoundFunction :=
  match c.store.read? FunctionInfo (.function id) with
  | .error e => ⟨.error e, []⟩
  | .ok none => ⟨.error (.catalog (.functionNotFound id)), []⟩
  | .ok (some (r, i)) =>
    ⟨BoundFunction.ofStored id i.function r.body load, c.runtimeWarning id r⟩

end Catalog
end Cadastre
