/-
# Actions that may break off

The host's store takes only so many records of what an operation writes, or the
process ends in between. What was written before stays, and the next one starts
from it. An attempt is an action with the room that its records find; it is
refused or it is carried out, or it breaks off after some of its records, but
not all (`Catalog.trial`).

Key definitions: `Attempt`, `Catalog.attempt`, `Catalog.afterAttempts`,
`Catalog.success?`, `Catalog.completions`, `Catalog.IssuesFresh`, `Catalog.Trial`.
Key theorems: `Catalog.putAll_of_limited`, `Catalog.trial`,
`Store.get?_write_take`.
-/
import Cadastre.Proofs.Effect

namespace Cadastre

/-- An action, with the number of records that the host's store takes of it; any
number if it is not said. -/
structure Attempt where
  action : Action
  room : Option Nat := none

/-- A new table or view comes under an identifier that no table has. -/
def Action.isFresh (s : Store) : Action → Bool
  | .perform _ op => op.isFresh s
  | .register _ => true

namespace Catalog

/-- The catalog over a store that takes so many more records. -/
def limited (c : Catalog) (room : Option Nat) : Catalog := { c with writesLeft := room }

/-- The catalog after an attempt, over a store that takes any number again. -/
def attempt (c : Catalog) (a : Attempt) : Catalog :=
  ((c.limited a.room).act a.action).limited none

/-- The catalog after a run of attempts. -/
def afterAttempts (c : Catalog) (as : List Attempt) : Catalog := as.foldl attempt c

/-- The operation of an attempt with what it answers, if it succeeds. -/
def success? (c : Catalog) (a : Attempt) : Option (Operation × Outcome) :=
  match a.action with
  | .perform now op =>
    match ((c.limited a.room).perform now op).1.result with
    | .ok o => some (op, o)
    | .error _ => none
  | .register _ => none

/-- The records that an attempt writes, if it succeeds. -/
def completed (c : Catalog) (a : Attempt) : List (Key × Record) :=
  match a.action with
  | .perform now op =>
    match op.plan (c.limited a.room) now, c.success? a with
    | .ok p, some _ => p.writes
    | _, _ => []
  | .register _ => []

/-- The records that the successful attempts of a run write, in order. -/
def completions (c : Catalog) : List Attempt → List (Key × Record)
  | [] => []
  | a :: as => c.completed a ++ (c.attempt a).completions as

/-- New tables and views come under identifiers that no table has when they are
created. -/
def IssuesFresh (c : Catalog) : List Attempt → Prop
  | [] => True
  | a :: as => a.action.isFresh c.store = true ∧ (c.attempt a).IssuesFresh as

instance decidableIssuesFresh (c : Catalog) : (as : List Attempt) → Decidable (c.IssuesFresh as)
  | [] => inferInstanceAs (Decidable True)
  | a :: as =>
    have := decidableIssuesFresh (c.attempt a) as
    inferInstanceAs (Decidable (_ ∧ _))

@[simp] theorem afterAttempts_nil (c : Catalog) : c.afterAttempts [] = c := rfl

@[simp] theorem afterAttempts_cons (c : Catalog) (a : Attempt) (as : List Attempt) :
    c.afterAttempts (a :: as) = (c.attempt a).afterAttempts as := rfl

theorem afterAttempts_append (c : Catalog) (as bs : List Attempt) :
    c.afterAttempts (as ++ bs) = (c.afterAttempts as).afterAttempts bs :=
  List.foldl_append

theorem issuesFresh_append {c : Catalog} {as bs : List Attempt} :
    c.IssuesFresh (as ++ bs) ↔ c.IssuesFresh as ∧ (c.afterAttempts as).IssuesFresh bs := by
  induction as generalizing c with
  | nil => simp [IssuesFresh]
  | cons a as ih =>
    rw [List.cons_append, IssuesFresh, ih, IssuesFresh, afterAttempts_cons, and_assoc]

/-! ### How an attempt ends -/

/-- Under a limit all records are written if they are no more than it says;
otherwise as many as it says, and the next one is refused. -/
theorem putAll_of_limited {c : Catalog} {n : Nat} (h : c.writesLeft = some n)
    (ws : List (Key × Record)) :
    (ws.length ≤ n ∧ c.putAll ws =
      (.ok (), { c with store := c.store.write ws, writesLeft := some (n - ws.length) })) ∨
    (n < ws.length ∧ ∃ e, c.putAll ws =
      (.error e, { c with store := c.store.write (ws.take n), writesLeft := some 0 })) := by
  induction ws generalizing c n with
  | nil =>
    left
    refine ⟨Nat.zero_le n, ?_⟩
    rw [putAll, Store.write_nil, List.length_nil, Nat.sub_zero, ← h]
  | cons w ws ih =>
    obtain ⟨k, r⟩ := w
    cases n with
    | zero =>
      right
      refine ⟨Nat.succ_pos _, refusal k, ?_⟩
      simp only [putAll, put, h, List.take_zero, Store.write_nil]
      rw [← h]
    | succ n =>
      have hput : c.put k r =
          .ok { c with store := c.store.insert k r, writesLeft := some n } := by
        rw [put, h]
      simp only [putAll, hput, List.length_cons, List.take_succ_cons, Store.write_cons]
      rcases ih (c := { c with store := c.store.insert k r, writesLeft := some n }) rfl with
        ⟨hle, hall⟩ | ⟨hlt, e, hpart⟩
      · left
        refine ⟨Nat.succ_le_succ hle, ?_⟩
        rw [hall, Nat.add_sub_add_right]
      · right
        exact ⟨Nat.succ_lt_succ hlt, e, hpart⟩

/-- Records are all written, or some of them and not all. -/
theorem putAll_cases (c : Catalog) (ws : List (Key × Record)) :
    (∃ left, c.putAll ws = (.ok (), { c with store := c.store.write ws, writesLeft := left })) ∨
      ∃ n e, n < ws.length ∧ c.putAll ws =
        (.error e, { c with store := c.store.write (ws.take n), writesLeft := some 0 }) := by
  cases hc : c.writesLeft with
  | none =>
    left
    refine ⟨none, ?_⟩
    rw [putAll_of_unlimited hc, ← hc]
    rfl
  | some n =>
    rcases putAll_of_limited hc ws with ⟨_, hall⟩ | ⟨hn, e, hpart⟩
    · exact .inl ⟨_, hall⟩
    · exact .inr ⟨n, e, hn, hpart⟩

/-- An operation that succeeds has written its plan, and answers the plan's result. -/
theorem exists_plan_of_perform {c : Catalog} {now : Float} {op : Operation} {o : Outcome}
    (h : (c.perform now op).1.result = .ok o) : ∃ p, op.plan c now = .ok p ∧ p.result = o ∧
      (c.perform now op).2.store = c.store.write p.writes := by
  unfold perform commit at h ⊢
  cases hp : op.plan c now with
  | error e =>
    rw [hp] at h
    cases h
  | ok p =>
    rw [hp] at h
    dsimp only at h ⊢
    rcases putAll_cases c p.writes with ⟨left, hall⟩ | ⟨n, e, _, hpart⟩
    · rw [hall] at h ⊢
      cases h
      exact ⟨p, rfl, rfl, rfl⟩
    · rw [hpart] at h
      cases h

/-- What an attempt makes of a catalog: it changes no record, be it refused or no
operation at all; or it writes its plan; or it breaks off before the plan's last
record. -/
inductive Trial (c : Catalog) (a : Attempt) : Catalog → Prop
  | still {c' : Catalog} (hs : c.success? a = none) (hstore : c'.store = c.store)
      (hleft : c'.writesLeft = none) : Trial c a c'
  | done {now : Float} {op : Operation} {p : Plan Outcome} (ha : a.action = .perform now op)
      (hp : op.plan (c.limited a.room) now = .ok p) (hs : c.success? a = some (op, p.result)) :
      Trial c a { c with store := c.store.write p.writes }
  | broken {now : Float} {op : Operation} {p : Plan Outcome} {n : Nat}
      (ha : a.action = .perform now op) (hp : op.plan (c.limited a.room) now = .ok p)
      (hs : c.success? a = none) (hn : n < p.writes.length) :
      Trial c a { c with store := c.store.write (p.writes.take n) }

/-- An attempt whose operation has no plan changes nothing. -/
theorem attempt_of_plan_error {c : Catalog} (hc : c.writesLeft = none) {now : Float}
    {op : Operation} {room : Option Nat} {e : Error}
    (hp : op.plan (c.limited room) now = .error e) :
    c.success? ⟨.perform now op, room⟩ = none ∧ c.attempt ⟨.perform now op, room⟩ = c := by
  have hperform := perform_of_plan_error hp
  constructor
  · simp only [success?, hperform]
  · rw [attempt, act, hperform, limited, limited, ← hc]

theorem trial {c : Catalog} (hc : c.writesLeft = none) (a : Attempt) : c.Trial a (c.attempt a) := by
  obtain ⟨action, room⟩ := a
  cases action with
  | register f => exact .still rfl rfl rfl
  | perform now op =>
    cases hp : op.plan (c.limited room) now with
    | error e =>
      obtain ⟨hs, hsame⟩ := attempt_of_plan_error hc hp
      rw [hsame]
      exact .still hs rfl hc
    | ok p =>
      rcases putAll_cases (c.limited room) p.writes with ⟨left, hall⟩ | ⟨n, e, hn, hpart⟩
      · have hperform : (c.limited room).perform now op = (⟨.ok p.result, p.log⟩,
            { c with store := c.store.write p.writes, writesLeft := left }) := by
          rw [perform, hp, commit, hall]
          rfl
        have hattempt : c.attempt ⟨.perform now op, room⟩ =
            { c with store := c.store.write p.writes } := by
          rw [attempt, act, hperform, limited, ← hc]
        rw [hattempt]
        refine .done rfl hp ?_
        simp only [success?, hperform]
      · have hperform : (c.limited room).perform now op = (⟨.error e, []⟩,
            { c with store := c.store.write (p.writes.take n), writesLeft := some 0 }) := by
          rw [perform, hp, commit, hpart]
          rfl
        have hattempt : c.attempt ⟨.perform now op, room⟩ =
            { c with store := c.store.write (p.writes.take n) } := by
          rw [attempt, act, hperform, limited, ← hc]
        rw [hattempt]
        refine .broken rfl hp ?_ hn
        simp only [success?, hperform]

/-- What an attempt writes if it succeeds is its plan. -/
theorem completed_of_success? {c : Catalog} {a : Attempt} {now : Float} {op : Operation}
    {p : Plan Outcome} {s : Operation × Outcome} (ha : a.action = .perform now op)
    (hp : op.plan (c.limited a.room) now = .ok p) (hs : c.success? a = some s) :
    c.completed a = p.writes := by
  simp only [completed, ha, hp, hs]

/-- An attempt that succeeds had a plan. -/
theorem exists_plan_of_success? {c : Catalog} (hc : c.writesLeft = none) {a : Attempt}
    {op : Operation} {o : Outcome} (hs : c.success? a = some (op, o)) :
    ∃ now p, op.plan (c.limited a.room) now = .ok p ∧ p.result = o := by
  have htrial := c.trial hc a
  generalize c.attempt a = c' at htrial
  cases htrial with
  | still hnone =>
    rw [hs] at hnone
    cases hnone
  | done ha hp hs' =>
    rw [hs] at hs'
    cases hs'
    exact ⟨_, _, hp, rfl⟩
  | broken _ _ hnone =>
    rw [hs] at hnone
    cases hnone

/-- An attempt that does not succeed completes no record. -/
theorem completed_of_success?_eq_none {c : Catalog} {a : Attempt} (hs : c.success? a = none) :
    c.completed a = [] := by
  unfold completed
  split
  · rw [hs]
    split
    · rename_i hsome
      cases hsome
    · rfl
  · rfl

end Catalog

/-! ### Records that are written in part -/

namespace Store

/-- Of a list of records under different keys, each one is written or it is not. -/
theorem get?_write_take {s : Store} {ws : List (Key × Record)} (h : (ws.map (·.1)).Nodup) (n : Nat)
    (k : Key) : (s.write (ws.take n)).get? k = s.get? k ∨
      (s.write (ws.take n)).get? k = (s.write ws).get? k := by
  induction ws generalizing s n with
  | nil => exact .inl (by rw [List.take_nil, write_nil])
  | cons w ws ih =>
    obtain ⟨hnotMem, hnodup⟩ := List.nodup_cons.1 h
    cases n with
    | zero => exact .inl rfl
    | succ n =>
      rw [List.take_succ_cons, write_cons, write_cons]
      rcases ih (s := s.insert w.1 w.2) hnodup n with hold | hnew
      · by_cases hk : k = w.1
        · -- the key is written once, so the rest of the list does not touch it
          right
          have hrest : ∀ x ∈ ws, x.1 ≠ k := by
            rintro x hx rfl
            exact hnotMem (List.mem_map.2 ⟨x, hx, hk⟩)
          rw [hold, get?_write_of_notMem hrest]
        · left
          rw [hold, SortedMap.get?_insert, if_neg hk]
      · exact .inr hnew

/-- A record that is written under its key alone is found there. -/
theorem get?_write_of_mem {s : Store} {ws : List (Key × Record)} (h : (ws.map (·.1)).Nodup)
    {w : Key × Record} (hw : w ∈ ws) : (s.write ws).get? w.1 = some w.2 := by
  induction ws generalizing s with
  | nil => cases hw
  | cons x ws ih =>
    obtain ⟨hnotMem, hnodup⟩ := List.nodup_cons.1 h
    rw [write_cons]
    rcases List.mem_cons.1 hw with rfl | hw
    · have hrest : ∀ y ∈ ws, y.1 ≠ w.1 := fun y hy hk =>
        hnotMem (List.mem_map.2 ⟨y, hy, hk⟩)
      rw [get?_write_of_notMem hrest, SortedMap.get?_insert, if_pos rfl]
    · exact ih hnodup hw

/-- A store on the way from `s` to `s'`: the heads are those of `s`, and any
other record is that of `s` or that of `s'`. -/
structure Between (s s' : Store) (part : Store) : Prop where
  table : ∀ t, part.get? (.table t) = s.get? (.table t)
  other : ∀ k, part.get? k = s.get? k ∨ part.get? k = s'.get? k

section Commit

variable {t : TableId} {dir : Option DirId} {now : Float} {h : TableHead} {schema : Option Schema}
  {n : Nat}

/-- The records of a version are under the key of no other data version. -/
theorem ne_tableVersion_of_mem {u : TableId} {v : Version} (hne : ¬ (u = t ∧ v = h.version))
    {w : Key × Record} (hw : w ∈ commitWrites t dir now h schema) : w.1 ≠ .tableVersion u v := by
  intro hkey
  rcases mem_commitWrites_iff.1 hw with ⟨k, _, rfl⟩ | rfl | rfl
  · cases hkey
  · cases hkey
    exact hne ⟨rfl, rfl⟩
  · cases hkey

/-- The records of a version are under the key of no other schema version. -/
theorem ne_schemaVersion_of_mem {u : TableId} {v : SchemaVersion}
    (hne : ∀ k ∈ schema, ¬ (u = t ∧ v = k.version)) {w : Key × Record}
    (hw : w ∈ commitWrites t dir now h schema) : w.1 ≠ .schemaVersion u v := by
  intro hkey
  rcases mem_commitWrites_iff.1 hw with ⟨k, hk, rfl⟩ | rfl | rfl
  · cases hkey
    exact hne k hk ⟨rfl, rfl⟩
  · cases hkey
  · cases hkey

theorem nodup_commitWrites : ((commitWrites t dir now h schema).map (·.1)).Nodup := by
  cases schema <;> simp [commitWrites]

/-- The head is the last record of a version. -/
theorem ne_table_of_mem_take (hn : n < (commitWrites t dir now h schema).length)
    {w : Key × Record} (hw : w ∈ (commitWrites t dir now h schema).take n) (u : TableId) :
    w.1 ≠ .table u := by
  have hlast : w ∈ (commitWrites t dir now h schema).dropLast := by
    rw [List.dropLast_eq_take]
    exact List.take_subset_take_left _ (Nat.le_pred_of_lt hn) hw
  cases schema with
  | none =>
    rw [List.mem_singleton.1 hlast]
    exact nofun
  | some k =>
    rcases List.mem_cons.1 hlast with rfl | hlast
    · exact nofun
    · rw [List.mem_singleton.1 hlast]
      exact nofun

/-- A version that is written in part leaves the heads as they are. -/
theorem between_write_take {s : Store} (hn : n < (commitWrites t dir now h schema).length) :
    Between s (s.write (commitWrites t dir now h schema))
      (s.write ((commitWrites t dir now h schema).take n)) where
  table u := get?_write_of_notMem fun _ hw => ne_table_of_mem_take hn hw u
  other := get?_write_take nodup_commitWrites n

end Commit

end Store

/-! ### A small mishap -/

namespace Sample

/-- The table is created, without a mishap. -/
def founding : List Attempt := creation.map fun a => { action := a }

/-- A change breaks off after its first record, and others come after it; the
last one comes too late. -/
def mishap : List Attempt := [
  ⟨.perform 2 (.addColumn people 0 { name := "born", type := .string }), some 1⟩,
  ⟨.perform 3 (.insertRows people 0 10), none⟩,
  ⟨.perform 4 (.dropColumn people 1 "nick"), none⟩,
  ⟨.perform 5 (.insertRows people 1 10), none⟩]

end Sample
end Cadastre
