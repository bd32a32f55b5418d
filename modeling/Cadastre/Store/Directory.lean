/-
# Directories

A directory has a name and, unless it is at the top, a parent. Its path lists
the names from the top down to it.

Key definitions: `Directory`, `Store.directory`, `Store.findDirectory`,
`Store.directoryPath`.
-/
import Cadastre.Store

namespace Cadastre

/-- A directory. -/
structure Directory where
  id : DirId
  parent : Option DirId
  name : String
  deriving DecidableEq, Repr

namespace Store

def directory (s : Store) (d : DirId) : Except Error Directory :=
  match s.read? DirInfo (.dir d) with
  | .error e => .error e
  | .ok none => .error (.catalog (.dirNotFound d))
  | .ok (some (r, i)) => .ok ⟨d, r.dir, i.name⟩

/-- The first of the records that is a directory with the given parent and
name. The records under the parent are read up to it. -/
def findDirectoryIn (parent : Option DirId) (name : String) :
    List (Key × Record) → Except Error (Option Directory)
  | [] => .ok none
  | (.dir d, r) :: rest =>
    if r.dir = parent then
      match Payload.decode (.dir d) r.content with
      | .error e => .error e
      | .ok (i : DirInfo) =>
        if i.name = name then .ok (some ⟨d, parent, name⟩) else findDirectoryIn parent name rest
    else findDirectoryIn parent name rest
  | _ :: rest => findDirectoryIn parent name rest

/-- The directory with a name under a parent, or at the top. -/
def findDirectory (s : Store) (parent : Option DirId) (name : String) :
    Except Error (Option Directory) :=
  findDirectoryIn parent name (s.scan .dirs)

/-- The path down to `d`, where `visited` were passed on the way up from
`start`. A directory that is passed twice is its own ancestor. Every step passes
a record, so as many steps as there are records, and one more, reach an end. -/
def pathFrom (s : Store) (start : DirId) : Nat → List DirId → DirId → Except Error (List String)
  | 0, _, d => .error (.catalog (.invalidRecord (.dir start)
      ("directory " ++ d.text ++ " is its own ancestor")))
  | steps + 1, visited, d =>
    if d ∈ visited then
      .error (.catalog (.invalidRecord (.dir start)
        ("directory " ++ d.text ++ " is its own ancestor")))
    else
      match s.directory d with
      | .error e => .error e
      | .ok dir =>
        match dir.parent with
        | none => .ok [dir.name]
        | some p => (pathFrom s start steps (d :: visited) p).map (· ++ [dir.name])

/-- The names from the top down to a directory. -/
def directoryPath (s : Store) (d : DirId) : Except Error (List String) :=
  s.pathFrom d (s.size + 1) [] d

end Store
end Cadastre
