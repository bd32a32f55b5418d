/-
# Catalogs

A catalog works on a store, with a configuration and the registry that resolves
symbol paths. An operation first makes a plan, the records to write and the
result, from what the catalog holds; then the plan's records are written in
order. The host's store may take only so many more records, so a write can be
refused; what was written before it stays.

Key definitions: `Catalog`, `Plan`, `Catalog.put`, `Catalog.putAll`,
`Catalog.commit`.
Key theorems: `Catalog.putAll_of_unlimited`, `Catalog.commit_of_error`.
-/
import Cadastre.Config
import Cadastre.Registry
import Cadastre.Store

namespace Cadastre

/-- A catalog. -/
structure Catalog where
  config : Config
  registry : Registry
  store : Store
  /-- How many more records the host's store takes; no limit if it is not said. -/
  writesLeft : Option Nat

/-- What an operation writes, and its result once all is written. -/
structure Plan (α : Type) where
  writes : List (Key × Record)
  result : α
  log : List Event

def Plan.map {α β : Type} (p : Plan α) (f : α → β) : Plan β :=
  ⟨p.writes, f p.result, p.log⟩

namespace Catalog

/-- A catalog over an empty store. -/
def fresh (config : Config) (registry : Registry) : Catalog := ⟨config, registry, .empty, none⟩

/-- The error of a refused write. -/
def refusal (key : Key) : Error :=
  .host (Diagnostic.plain "STORE_001" ("cannot write " ++ key.display))

/-- Writes a record, unless the store takes no more. -/
def put (c : Catalog) (key : Key) (r : Record) : Except Error Catalog :=
  match c.writesLeft with
  | none => .ok { c with store := c.store.insert key r }
  | some 0 => .error (refusal key)
  | some (n + 1) => .ok { c with store := c.store.insert key r, writesLeft := some n }

/-- Writes records in order up to the first that is refused. -/
def putAll (c : Catalog) : List (Key × Record) → Except Error Unit × Catalog
  | [] => (.ok (), c)
  | (k, r) :: rest =>
    match c.put k r with
    | .ok c => c.putAll rest
    | .error e => (.error e, c)

/-- Carries out a plan, if there is one. -/
def commit {α : Type} (c : Catalog) (p : Except Error (Plan α)) : Reported α × Catalog :=
  match p with
  | .error e => (⟨.error e, []⟩, c)
  | .ok p =>
    match c.putAll p.writes with
    | (.ok (), c) => (⟨.ok p.result, p.log⟩, c)
    | (.error e, c) => (⟨.error e, []⟩, c)

/-- Without a limit every record is written. -/
theorem putAll_of_unlimited {c : Catalog} (h : c.writesLeft = none) (ws : List (Key × Record)) :
    c.putAll ws = (.ok (), { c with store := ws.foldl (fun s w => s.insert w.1 w.2) c.store }) := by
  induction ws generalizing c with
  | nil => rfl
  | cons w ws ih =>
    obtain ⟨k, r⟩ := w
    simp only [putAll, put, h]
    rw [ih rfl]
    simp

/-- Without a limit a failing operation changes nothing. -/
theorem commit_of_error {α : Type} {c : Catalog} {p : Except Error (Plan α)} {e : Error}
    (h : c.writesLeft = none) (he : (c.commit p).1.result = .error e) : (c.commit p).2 = c := by
  cases p with
  | error _ => rfl
  | ok p => simp [commit, putAll_of_unlimited h] at he

end Catalog
end Cadastre
