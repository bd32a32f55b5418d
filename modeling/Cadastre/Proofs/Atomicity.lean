/-
# An operation that fails changes nothing

An operation reads all that it needs before it writes its first record, so an
error of its own comes before any write: whatever the store holds, damaged
records included, it stays as it is. Only the host's store can refuse a record
in the middle of a plan. Then the records of the table's new versions that were
written before it stay behind, and every other record is as it was, all heads
among them.

Key definitions: `Key.isVersionOf`.
Key theorems: `Catalog.perform_of_refusal`, `Catalog.failureAtomicity`.
-/
import Cadastre.Proofs.Attempt

namespace Cadastre

/-- A record of a data version or a schema version of the table. -/
def Key.isVersionOf (t : TableId) : Key → Bool
  | tableVersion u _ => u == t
  | schemaVersion u _ => u == t
  | _ => false

/-- All records of a version but its head are those of a data version or a schema
version of the table. -/
theorem Store.isVersionOf_of_mem_take {t : TableId} {dir : Option DirId} {now : Float}
    {h : TableHead} {schema : Option Schema} {n : Nat}
    (hn : n < (commitWrites t dir now h schema).length) {w : Key × Record}
    (hw : w ∈ (commitWrites t dir now h schema).take n) : w.1.isVersionOf t = true := by
  rcases mem_commitWrites_iff.1 (List.take_subset _ _ hw) with ⟨k, _, rfl⟩ | rfl | rfl
  · exact beq_self_eq_true t
  · exact beq_self_eq_true t
  · exact absurd rfl (ne_table_of_mem_take hn hw t)

namespace Catalog

variable {c : Catalog} {now : Float} {op : Operation}

/-- An operation that is about no table writes one record at most. -/
theorem length_writes_le_of_foreign (hop : op.table? = none) {p : Plan Outcome}
    (hp : op.plan c now = .ok p) : p.writes.length ≤ 1 := by
  have heffect := foreignEffect_of_plan hop hp
  generalize p.writes = ws at heffect
  cases heffect with
  | nothing => exact Nat.zero_le 1
  | system => exact Nat.le_refl 1
  | directory => exact Nat.le_refl 1
  | function => exact Nat.le_refl 1

/-- What is written of a plan before its last record is of a data version or a
schema version of the operation's table. -/
theorem isVersionOf_of_mem_take {p : Plan Outcome} (hp : op.plan c now = .ok p) {n : Nat}
    (hn : n < p.writes.length) {w : Key × Record} (hw : w ∈ p.writes.take n) :
    ∃ t, op.table? = some t ∧ w.1.isVersionOf t = true := by
  rcases writes_of_plan hp with ⟨hop, _⟩ | ⟨t, dir, h, schema, htable, hwrites⟩
  · have hle := length_writes_le_of_foreign hop hp
    have hzero : n = 0 := by omega
    subst hzero
    cases hw
  · rw [hwrites] at hn hw
    exact ⟨t, htable, Store.isVersionOf_of_mem_take hn hw⟩

/-- Writing records fails with the refusal of one of them only. -/
theorem exists_refusal_of_putAll {c' : Catalog} {ws : List (Key × Record)} {e : Error}
    (h : c.putAll ws = (.error e, c')) : ∃ w ∈ ws, e = refusal w.1 := by
  induction ws generalizing c with
  | nil => cases h
  | cons w ws ih =>
    obtain ⟨k, r⟩ := w
    rw [putAll] at h
    cases hput : c.put k r with
    | ok c₁ =>
      rw [hput] at h
      obtain ⟨w, hw, he⟩ := ih h
      exact ⟨w, List.mem_cons_of_mem _ hw, he⟩
    | error e' =>
      rw [hput] at h
      cases h
      refine ⟨(k, r), List.mem_cons_self, ?_⟩
      unfold put at hput
      split at hput <;> cases hput
      rfl

/-- An operation fails for a reason of its own, and then it changes nothing, or
because the host's store refuses one of the records of its plan. -/
theorem perform_of_refusal {e : Error} (he : (c.perform now op).1.result = .error e) :
    (c.perform now op).2 = c ∨
      ∃ p n, op.plan c now = .ok p ∧ c.writesLeft.isSome = true ∧ n < p.writes.length ∧
        (∃ w ∈ p.writes, e = refusal w.1) ∧
        (c.perform now op).2.store = c.store.write (p.writes.take n) := by
  cases hp : op.plan c now with
  | error e' =>
    left
    rw [perform_of_plan_error hp]
  | ok p =>
    right
    rcases putAll_cases c p.writes with ⟨left, hall⟩ | ⟨n, e', hn, hpart⟩
    · rw [perform, hp, commit, hall] at he
      cases he
    · rw [perform, hp, commit, hpart] at he ⊢
      cases he
      refine ⟨p, n, rfl, ?_, hn, exists_refusal_of_putAll hpart, rfl⟩
      rw [Option.isSome_iff_ne_none]
      intro hnone
      rw [putAll_of_unlimited hnone] at hpart
      cases hpart

/-- Whatever the store holds, an operation that fails leaves every record as it
was. If the store takes only so many records, the same is true of every error but
its refusal; and after a refusal no record is different but those of data versions
and schema versions of the operation's table. -/
theorem failureAtomicity {e : Error} (he : (c.perform now op).1.result = .error e) :
    (c.writesLeft = none → (c.perform now op).2 = c) ∧
      ((∀ k, e ≠ refusal k) → (c.perform now op).2 = c) ∧
      ∀ k, (∀ t, op.table? = some t → k.isVersionOf t = false) →
        (c.perform now op).2.store.get? k = c.store.get? k := by
  rcases perform_of_refusal he with hsame | ⟨p, n, hp, hlimit, hn, ⟨w, -, hw⟩, hstore⟩
  · exact ⟨fun _ => hsame, fun _ => hsame, fun _ _ => by rw [hsame]⟩
  · refine ⟨fun hnone => ?_, fun hown => absurd hw (hown w.1), fun k hk => ?_⟩
    · rw [hnone] at hlimit
      cases hlimit
    · rw [hstore]
      apply Store.get?_write_of_notMem
      rintro w hw rfl
      obtain ⟨t, ht, hversion⟩ := isVersionOf_of_mem_take hp hn hw
      rw [hk t ht] at hversion
      cases hversion

end Catalog

namespace Sample

/-- The current schema version of the table is damaged. -/
def damaged : Catalog :=
  let c := start.after creation
  { c with store := c.store.insert (.schemaVersion people 0) (.plain none .null) }

/-- Dropping a column of a damaged table fails and changes nothing. Adding one to
the table as it was fails after the record of the schema version, if the store
takes no more than that, and changes no head and no directory. -/
theorem failureAtomicity_people :
    let op := Operation.dropColumn people 0 "nick"
    let c := (start.after creation).limited (some 1)
    let op' := Operation.addColumn people 0 { name := "born", type := .string }
    (∃ e, (damaged.perform 2 op).1.result = .error e) ∧ (damaged.perform 2 op).2 = damaged ∧
      (∃ e, (c.perform 2 op').1.result = .error e) ∧
      ∀ k, k.isVersionOf people = false → (c.perform 2 op').2.store.get? k = c.store.get? k := by
  intro op c op'
  obtain ⟨e, he⟩ : ∃ e, (damaged.perform 2 op).1.result = .error e :=
    exists_error_of_toOption (by decide +kernel)
  obtain ⟨e', he'⟩ : ∃ e, (c.perform 2 op').1.result = .error e :=
    exists_error_of_toOption (by decide +kernel)
  refine ⟨⟨e, he⟩, (Catalog.failureAtomicity he).1 rfl, ⟨e', he'⟩, fun k hk => ?_⟩
  refine (Catalog.failureAtomicity he').2.2 k fun t ht => ?_
  cases ht
  exact hk

end Sample
end Cadastre
