/-
# Operations that are about no table

The system record, a directory and a stored function belong to no table. An
operation about them writes one such record at most, and what is in it is said here
once for all operations.

Key definitions: `Operation.directory?`, `ForeignEffect`.
Key theorems: `foreignEffect_of_plan`.
-/
import Cadastre.Proofs.Action

namespace Cadastre

/-- The identifier under which an operation creates a directory, if it does. -/
def Operation.directory? : Operation → Option DirId
  | createDirectory id .. => some id
  | ensureDirectory id _ => some id
  | _ => none

/-- What an operation writes that is about no table: nothing, the system record of
a store that has none, a directory under one that exists, or a function. -/
inductive ForeignEffect (c : Catalog) : Operation → List (Key × Record) → Prop
  | nothing {op : Operation} : ForeignEffect c op []
  | system (hnew : c.store.get? .systemInfo = none) : ForeignEffect c .init
      [(.systemInfo, .plain none (Payload.toJson (SystemInfo.mk layoutVersion)))]
  | directory {op : Operation} {id : DirId} {parent : Option DirId} {name : String}
      (hop : op.directory? = some id) (hparent : ∀ p ∈ parent, ∃ x, c.store.directory p = .ok x) :
      ForeignEffect c op [(.dir id, .plain parent (Payload.toJson (DirInfo.mk name)))]
  | function {dir : Option DirId} {f : BoundFunction} {stored : StoredFunction} {r : Record}
      (hstored : f.toStored = .ok (stored, r.body))
      (hcontent : r.content = FunctionInfo.toJson ⟨dir.map fun _ => f.name, stored⟩) :
      ForeignEffect c (.storeFunction dir f) [(.function f.id, r)]

theorem writes_createDirectory {c : Catalog} {id : DirId} {parent : Option DirId} {name : String}
    {p : Plan Directory} (h : c.createDirectory id parent name = .ok p) :
    p.writes = [(.dir id, .plain parent (Payload.toJson (DirInfo.mk name)))] ∧
      ∀ q ∈ parent, ∃ x, c.store.directory q = .ok x := by
  unfold Catalog.createDirectory at h
  split at h
  · cases h
  · cases parent with
    | none =>
      obtain ⟨_, _, h⟩ := bind_eq_ok_iff.1 h
      cases h
      exact ⟨rfl, nofun⟩
    | some q =>
      obtain ⟨_, hparent, h⟩ := bind_eq_ok_iff.1 h
      obtain ⟨x, hx, _⟩ := map_eq_ok_iff.1 hparent
      cases h
      refine ⟨rfl, fun q' hq' => ?_⟩
      cases hq'
      exact ⟨x, hx⟩

/-- Storing a function writes what is stored of it under its identifier, with the
body of its callable. -/
theorem writes_storeFunction {c : Catalog} {now : Float} {dir : Option DirId} {f : BoundFunction}
    {p : Plan Outcome} (h : (Operation.storeFunction dir f).plan c now = .ok p) :
    ∃ stored r, f.toStored = .ok (stored, r.body) ∧ p.writes = [(.function f.id, r)] ∧
      r.content = FunctionInfo.toJson ⟨dir.map fun _ => f.name, stored⟩ := by
  obtain ⟨q, hq, rfl⟩ := map_eq_ok_iff.1 h
  cases dir <;>
  · obtain ⟨_, _, hq⟩ := bind_eq_ok_iff.1 hq
    obtain ⟨⟨stored, body⟩, hstored, hq⟩ := bind_eq_ok_iff.1 hq
    cases hq
    exact ⟨stored, _, hstored, rfl, rfl⟩

/-- The plan of an operation that is about no table has one of the effects. -/
theorem foreignEffect_of_plan {c : Catalog} {now : Float} {op : Operation}
    (hop : op.table? = none) {p : Plan Outcome} (hp : op.plan c now = .ok p) :
    ForeignEffect c op p.writes := by
  cases op with
  | init =>
    obtain ⟨q, hq, rfl⟩ := map_eq_ok_iff.1 hp
    unfold Catalog.init at hq
    split at hq
    · cases hq
    · split at hq <;> cases hq
      exact .nothing
    · rename_i hread
      cases hq
      refine .system ?_
      unfold Store.read? at hread
      split at hread
      · assumption
      · obtain ⟨_, _, h⟩ := map_eq_ok_iff.1 hread
        cases h
  | createDirectory id parent name =>
    obtain ⟨q, hq, rfl⟩ := map_eq_ok_iff.1 hp
    obtain ⟨hwrites, hparent⟩ := writes_createDirectory hq
    rw [Plan.map, hwrites]
    exact .directory rfl hparent
  | ensureDirectory id name =>
    obtain ⟨q, hq, rfl⟩ := map_eq_ok_iff.1 hp
    unfold Catalog.ensureDirectory at hq
    split at hq
    · cases hq
    · cases hq
      exact .nothing
    · obtain ⟨hwrites, hparent⟩ := writes_createDirectory hq
      rw [Plan.map, hwrites]
      exact .directory rfl hparent
  | storeFunction dir f =>
    obtain ⟨stored, r, hstored, hwrites, hcontent⟩ := writes_storeFunction hp
    rw [hwrites]
    exact .function hstored hcontent
  | _ => cases hop

end Cadastre
