/-
# Runs of a catalog

What happens to a catalog is a list of actions: operations at their times,
whether they fail or not, and between them functions are registered. A run is
admitted if its surroundings keep what they promise: the clock shows a number,
new tables come under identifiers that no table has, and the literals of new
columns are numbers. And the counters stay below their ends: an operation that
succeeds makes no version past the last one that a scan reaches, and leaves a
column number to give out.

Key definitions: `Action`, `Catalog.act`, `Catalog.after`, `Catalog.Admits`,
`Catalog.change?`, `Catalog.changes`, `Sample.evolution`.
Key theorems: `Catalog.after_perform`, `Catalog.admits_append`,
`Catalog.perform_of_plan`.
-/
import Cadastre.Proofs.Draft

namespace Cadastre

/-- What happens to a catalog. -/
inductive Action where
  | perform (now : Float) (op : Operation)
  | register (f : BoundFunction)

/-- The table that an operation creates or changes. -/
def Operation.table? : Operation → Option TableId
  | createTable id _ => some id
  | createView id _ => some id
  | addColumn t .. => some t
  | renameColumn t .. => some t
  | alterColumn t .. => some t
  | dropColumn t .. => some t
  | setRetention t .. => some t
  | insertRows t .. => some t
  | updateRows t .. => some t
  | deleteRows t .. => some t
  | _ => none

/-- A new table or view comes under an identifier that no table has. -/
def Operation.isFresh (s : Store) : Operation → Bool
  | createTable id _ => (s.get? (.table id)).isNone
  | createView id _ => (s.get? (.table id)).isNone
  | _ => true

/-- The counters stay below their ends: the version is one that a scan reaches,
and the next column number fits a 32-bit word. -/
def Outcome.isWithinLimits : Outcome → Bool
  | version v => v ≤ maxVersion
  | column v c => v ≤ maxVersion && c + 1 < 2 ^ 32
  | rows v _ => v ≤ maxVersion
  | table t => t.head.nextColumn < 2 ^ 32
  | _ => true

/-- What an operation answers is within the limits; an error always is. -/
def Reported.isWithinLimits (r : Reported Outcome) : Bool :=
  match r.result with
  | .ok o => o.isWithinLimits
  | .error _ => true

namespace Catalog

/-- The catalog after an action. -/
def act (c : Catalog) : Action → Catalog
  | .perform now op => (c.perform now op).2
  | .register f => { c with registry := (c.registry.register f).2 }

/-- The catalog after a run. -/
def after (c : Catalog) (as : List Action) : Catalog := as.foldl act c

/-- The surroundings keep what they promise of an action, and its counters stay
below their ends. -/
def Allows (c : Catalog) : Action → Prop
  | .perform now op => now.isFinite = true ∧ op.isFinite = true ∧ op.isFresh c.store = true ∧
      (c.perform now op).1.isWithinLimits = true
  | .register _ => True

/-- Every action of a run is allowed when it happens. -/
def Admits (c : Catalog) : List Action → Prop
  | [] => True
  | a :: as => c.Allows a ∧ (c.act a).Admits as

instance (c : Catalog) : (a : Action) → Decidable (c.Allows a)
  | .perform _ _ => inferInstanceAs (Decidable (_ ∧ _ ∧ _ ∧ _))
  | .register _ => inferInstanceAs (Decidable True)

instance decidableAdmits (c : Catalog) : (as : List Action) → Decidable (c.Admits as)
  | [] => inferInstanceAs (Decidable True)
  | a :: as =>
    have := decidableAdmits (c.act a) as
    inferInstanceAs (Decidable (_ ∧ _))

/-- The operation of an action, if it succeeds and creates or changes table `t`. -/
def change? (c : Catalog) (t : TableId) : Action → Option Operation
  | .perform now op =>
    match (c.perform now op).1.result with
    | .ok _ => if op.table? = some t then some op else none
    | .error _ => none
  | .register _ => none

/-- The operations of a run that create or change table `t`, in order. -/
def changes (c : Catalog) (t : TableId) : List Action → List Operation
  | [] => []
  | a :: as => (c.change? t a).toList ++ (c.act a).changes t as

@[simp] theorem after_nil (c : Catalog) : c.after [] = c := rfl

@[simp] theorem after_cons (c : Catalog) (a : Action) (as : List Action) :
    c.after (a :: as) = (c.act a).after as := rfl

theorem after_append (c : Catalog) (as bs : List Action) :
    c.after (as ++ bs) = (c.after as).after bs :=
  List.foldl_append

/-- A run of operations only is a run. -/
theorem after_perform (c : Catalog) (ops : List (Float × Operation)) :
    c.after (ops.map fun o => .perform o.1 o.2) = c.run ops := by
  rw [after, run, List.foldl_map]
  rfl

theorem admits_append {c : Catalog} {as bs : List Action} :
    c.Admits (as ++ bs) ↔ c.Admits as ∧ (c.after as).Admits bs := by
  induction as generalizing c with
  | nil => simp [Admits]
  | cons a as ih => rw [List.cons_append, Admits, ih, Admits, after_cons, and_assoc]

/-! ### Plans that are carried out -/

section Perform

variable {c : Catalog} {now : Float} {op : Operation}

/-- An operation that has no plan changes nothing. -/
theorem perform_of_plan_error {e : Error} (hp : op.plan c now = .error e) :
    c.perform now op = (⟨.error e, []⟩, c) := by
  rw [perform, hp]
  rfl

/-- Without a limit an operation that has a plan writes it and answers its result. -/
theorem perform_of_plan {p : Plan Outcome} (hc : c.writesLeft = none)
    (hp : op.plan c now = .ok p) :
    c.perform now op = (⟨.ok p.result, p.log⟩, { c with store := c.store.write p.writes }) := by
  rw [perform, hp]
  simp only [Catalog.commit, putAll_of_unlimited hc]
  rfl

end Perform

end Catalog

/-! ### A small run

A table of people is created, and a snapshot of it is taken between its changes;
one of the changes comes too late and fails. -/

namespace Sample

def home : DirId := .ofNat 1

def people : TableId := .ofNat 2

def frozen : TableId := .ofNat 3

/-- An empty store. -/
def start : Catalog := .fresh {} .empty

/-- The table is created, with two columns and one version that stays readable. -/
def creation : List Action := [
  .perform 0 (.createDirectory home none "home"),
  .perform 1 (.createTable people {
    dir := home
    name := "people"
    columns := [{ name := "id", type := .int, isKey := true }, { name := "nick", type := .string }]
    retained := some 1 })]

/-- A column is added, altered and dropped, another one renamed, and a snapshot
is taken in between. -/
def evolution : List Action := [
  .perform 2 (.addColumn people 0 { name := "born", type := .string }),
  .perform 3 (.alterColumn people 1 "born" .timestamp),
  .perform 4 (.renameColumn people 2 "nick" "alias"),
  .perform 5 (.createView frozen {
    dir := home
    name := "frozen"
    base := people
    isSnapshot := true }),
  .perform 6 (.dropColumn people 0 "alias"),
  .perform 7 (.dropColumn people 3 "alias"),
  .perform 8 (.insertRows people 4 10)]

end Sample
end Cadastre
