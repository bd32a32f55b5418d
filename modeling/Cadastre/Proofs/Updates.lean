/-
# No update is lost

The requests of all clients reach a table one after the other, in some order. A
mutation that succeeds expected the version that it found, and makes the next
one; so the mutations of a table that succeed count its versions, each of them
once, and two of them never expect the same version. This holds of every order,
and whatever breaks off or fails in between.

Key definitions: `Catalog.updates`, `Ledgers.version`.
Key theorems: `Catalog.expected_of_success?`, `Progress.updates`,
`Catalog.Holds.updates`, `Catalog.noLostUpdate`.
-/
import Cadastre.Proofs.Archive
import Mathlib.Data.List.Nodup

namespace Cadastre

/-- An operation that expects a version changes a table. -/
theorem Operation.exists_table_of_expected? (op : Operation) {v : Version}
    (h : op.expected? = some v) : ∃ t, op.table? = some t := by
  cases op <;> first | exact ⟨_, rfl⟩ | cases h

namespace Catalog

/-- The mutation of table `t` that an attempt carries out, with what it answers,
if it succeeds. -/
def update? (c : Catalog) (t : TableId) (a : Attempt) : Option (Operation × Outcome) :=
  (c.success? a).filter fun s => s.1.table? = some t ∧ s.1.expected?.isSome = true

/-- The mutations of table `t` that succeed along a run, in order. -/
def updates (c : Catalog) (t : TableId) : List Attempt → List (Operation × Outcome)
  | [] => []
  | a :: as => (c.update? t a).toList ++ (c.attempt a).updates t as

/-! ### One mutation -/

/-- A mutation that succeeds found its table at the version that it expects, and
no snapshot, and answers the next version. -/
theorem expected_of_success? {c : Catalog} (hc : c.writesLeft = none) {a : Attempt}
    {op : Operation} {o : Outcome} (hs : c.success? a = some (op, o)) {v : Version}
    (hv : op.expected? = some v) :
    ∃ t x, op.table? = some t ∧ c.store.table t = .ok x ∧ x.head.isSnapshot = false ∧
      x.head.version = v ∧ o.version? = some (v + 1) := by
  obtain ⟨now, p, hp, rfl⟩ := exists_plan_of_success? hc hs
  cases effect_of_plan hp with
  | foreign hop =>
    obtain ⟨t, ht⟩ := op.exists_table_of_expected? hv
    rw [hop] at ht
    cases ht
  | birth hbirth => cases hbirth <;> cases hv
  | @edit t x k d answer log hop hx hlive hexpected hschema hedit hanswer =>
    obtain ⟨n, history, hhead⟩ := hedit.head_eq
    have hversion : d.head.version = x.head.version + 1 := by rw [hhead]; rfl
    rw [hexpected, Option.some.injEq] at hv
    refine ⟨t, x, hop, hx, hlive, hv, ?_⟩
    rcases hanswer with ⟨rfl, _⟩ | ⟨rfl, _⟩
    · show some d.head.version = some (v + 1)
      rw [hversion, hv]
    · show some d.head.version = some (v + 1)
      rw [hversion, hv]
  | @rows t x h answer log hop hx hlive hexpected hrows hanswer =>
    obtain ⟨n, hhead⟩ := hrows.head_eq
    have hversion : h.version = x.head.version + 1 := by rw [hhead]
    rw [hexpected, Option.some.injEq] at hv
    refine ⟨t, x, hop, hx, hlive, hv, ?_⟩
    rcases hanswer with rfl | ⟨rows, rfl⟩
    · show some h.version = some (v + 1)
      rw [hversion, hv]
    · show some h.version = some (v + 1)
      rw [hversion, hv]

end Catalog

/-! ### Counting versions -/

/-- The current version of a table, and 0 if there is none. -/
def Ledgers.version (σ : Ledgers) (t : TableId) : Version :=
  ((σ t).map fun l => l.head.version).getD 0

/-- An attempt moves a table on by one version if it is a mutation of it that
succeeds, which then expects the version before; and by none else. -/
theorem Progress.updates {c : Catalog} {σ σ' : Ledgers} {a : Attempt} (h : Progress c σ a σ')
    (t : TableId) :
    (c.update? t a = none ∧ σ'.version t = σ.version t) ∨
      ∃ op o, c.update? t a = some (op, o) ∧ op.expected? = some (σ.version t) ∧
        o.version? = some (σ.version t + 1) ∧ σ'.version t = σ.version t + 1 := by
  cases h with
  | still hs =>
    left
    refine ⟨?_, rfl⟩
    rw [Catalog.update?, hs]
    rfl
  | @done op p σ' hs hwrites hstep =>
    cases hstep with
    | foreign hop =>
      left
      refine ⟨?_, rfl⟩
      rw [Catalog.update?, hs]
      simp [hop]
    | @birth now u dir h k hop hexpected hnew hversion =>
      left
      refine ⟨?_, ?_⟩
      · rw [Catalog.update?, hs]
        simp [hexpected]
      · by_cases hu : t = u
        · subst hu
          rw [Ledgers.version, Ledgers.version, Ledgers.put_self, hnew]
          exact hversion
        · rw [Ledgers.version, Ledgers.version, Ledgers.put_of_ne hu]
    | @mutation now u l h schema hop hl hlive hexpected hversion hanswer =>
      by_cases hu : t = u
      · subst hu
        right
        have hcurrent : σ.version t = l.head.version := by
          rw [Ledgers.version, hl]
          rfl
        refine ⟨op, p.result, ?_, ?_, ?_, ?_⟩
        · rw [Catalog.update?, hs]
          simp [hop, hexpected]
        · rw [hexpected, hcurrent]
        · rw [hanswer, hversion, hcurrent]
        · rw [Ledgers.version, Ledgers.put_self, hcurrent, ← hversion]
          rfl
      · left
        refine ⟨?_, ?_⟩
        · rw [Catalog.update?, hs]
          have hne : op.table? ≠ some t := by
            rw [hop, ne_eq, Option.some.injEq]
            exact fun h => hu h.symm
          simp [hne]
        · rw [Ledgers.version, Ledgers.version, Ledgers.put_of_ne hu]

namespace Catalog

/-- The mutations of a table that succeed count its versions from the current one on. -/
theorem Holds.updates {c : Catalog} {σ : Ledgers} (hc : c.Holds σ) {as : List Attempt}
    (ha : c.IssuesFresh as) (t : TableId) :
    ∃ σ' n, (c.afterAttempts as).Holds σ' ∧ σ'.version t = σ.version t + n ∧
      (c.updates t as).map (·.1.expected?) = (List.range' (σ.version t) n).map some ∧
      (c.updates t as).map (·.2.version?) = (List.range' (σ.version t + 1) n).map some := by
  induction as generalizing c σ with
  | nil => exact ⟨σ, 0, hc, rfl, rfl, rfl⟩
  | cons a as ih =>
    obtain ⟨σ', hc', hprogress, _⟩ := hc.attempt ha.1
    obtain ⟨σ'', n, hc'', hversion, hexpected, hanswered⟩ := ih hc' ha.2
    rcases hprogress.updates t with ⟨hnone, hsame⟩ | ⟨op, o, hsome, hop, ho, hnext⟩
    · have hskip : c.updates t (a :: as) = (c.attempt a).updates t as := by
        rw [Catalog.updates, hnone]
        rfl
      rw [hsame] at hversion hexpected hanswered
      rw [hskip]
      exact ⟨σ'', n, hc'', hversion, hexpected, hanswered⟩
    · have hcons : c.updates t (a :: as) = (op, o) :: (c.attempt a).updates t as := by
        rw [Catalog.updates, hsome]
        rfl
      rw [hnext] at hversion hexpected hanswered
      refine ⟨σ'', n + 1, hc'', ?_, ?_, ?_⟩
      · rw [hversion, Nat.add_assoc, Nat.add_comm 1 n]
      · rw [hcons, List.map_cons, hexpected, hop, List.range'_succ, List.map_cons]
      · rw [hcons, List.map_cons, hanswered, ho, List.range'_succ, List.map_cons]

/-- Along every run of requests from an empty store, a mutation that succeeds
found its table at the version that it expects and answers the next version, and
the table was no snapshot; no two mutations of a table that succeed expect the
same version; and those that succeed answer the versions 1, 2, … up to the
current one. -/
theorem noLostUpdate {config : Config} {registry : Registry} {as : List Attempt}
    (ha : (fresh config registry).IssuesFresh as) :
    (∀ before a later, as = before ++ a :: later →
      ∀ op o v, ((fresh config registry).afterAttempts before).success? a = some (op, o) →
        op.expected? = some v → ∃ t x, op.table? = some t ∧
          ((fresh config registry).afterAttempts before).store.table t = .ok x ∧
          x.head.isSnapshot = false ∧ x.head.version = v ∧ o.version? = some (v + 1)) ∧
    ∀ t, (((fresh config registry).updates t as).map (·.1.expected?)).Nodup ∧
      ∃ n, ((fresh config registry).updates t as).map (·.2.version?) =
          (List.range' 1 n).map some ∧
        ∀ x, ((fresh config registry).afterAttempts as).store.table t = .ok x →
          x.head.version = n := by
  constructor
  · intro before a later has op o v hs hv
    rw [has, issuesFresh_append] at ha
    obtain ⟨σ, n, hc, _⟩ := (holds_fresh config registry).updates ha.1 .least
    exact expected_of_success? hc.unlimited hs hv
  · intro t
    obtain ⟨σ, n, hc, hversion, hexpected, hanswered⟩ := (holds_fresh config registry).updates ha t
    refine ⟨?_, n, hanswered, fun x hx => ?_⟩
    · rw [hexpected]
      exact List.Nodup.map (fun _ _ => Option.some.inj) List.nodup_range'
    · obtain ⟨l, hl, rfl⟩ := hc.store.exists_ledger hc.numbered hx
      have hcurrent : σ.version t = l.head.version := by
        rw [Ledgers.version, hl]
        rfl
      show l.head.version = n
      rw [← hcurrent, hversion]
      exact Nat.zero_add n

end Catalog

/-- Of four changes of the table the one that breaks off and the one that comes
too late do not count. -/
theorem Sample.noLostUpdate_people :
    Sample.start.IssuesFresh (Sample.founding ++ Sample.mishap) ∧
      (Sample.start.updates Sample.people (Sample.founding ++ Sample.mishap)).map
        (·.2.version?) = [some 1, some 2] ∧
      (∀ before a later, Sample.founding ++ Sample.mishap = before ++ a :: later →
        ∀ op o v, (Sample.start.afterAttempts before).success? a = some (op, o) →
          op.expected? = some v → ∃ t x, op.table? = some t ∧
            (Sample.start.afterAttempts before).store.table t = .ok x ∧
            x.head.isSnapshot = false ∧ x.head.version = v ∧ o.version? = some (v + 1)) ∧
      ∀ t, ((Sample.start.updates t (Sample.founding ++ Sample.mishap)).map
          (·.1.expected?)).Nodup ∧
        ∃ n, (Sample.start.updates t (Sample.founding ++ Sample.mishap)).map (·.2.version?) =
            (List.range' 1 n).map some ∧
          ∀ x, (Sample.start.afterAttempts (Sample.founding ++ Sample.mishap)).store.table t =
            .ok x → x.head.version = n := by
  have ha : Sample.start.IssuesFresh (Sample.founding ++ Sample.mishap) := by decide +kernel
  have hcount : (Sample.start.updates Sample.people (Sample.founding ++ Sample.mishap)).map
      (·.2.version?) = [some 1, some 2] := by decide +kernel
  exact ⟨ha, hcount, Catalog.noLostUpdate ha⟩

end Cadastre
