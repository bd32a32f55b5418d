/-
# An operation that breaks off leaves no trace

The head is the last record of a version. An operation that breaks off before it
may leave the record of a schema version and that of a data version behind,
under the next numbers. The store with them keeps the same ledgers as the store
without. Over both, every later operation answers the same and leaves stores
that are alike again (`Catalog.Alike.act`): it is planned from reads that do not
find what was left behind, and the records that it writes replace it or stand
before it as if it were not there. So no run tells the two apart, and no read at
any point of it (`Catalog.harmlessInterruption`).

Key definitions: `Action.SameWork`, `Catalog.answers`, `Catalog.Alike`.
Key theorems: `Store.Keeps.between`, `Catalog.Keeps.alike_of_take`,
`Catalog.Alike.act`, `Catalog.Alike.after`, `Catalog.harmlessInterruption`.
-/
import Cadastre.Proofs.Attempt
import Cadastre.Proofs.Likeness

namespace Cadastre

/-- The same action; an operation may come at another time. -/
inductive Action.SameWork : Action → Action → Prop
  | perform {now now' : Float} {op : Operation} (hnow : now'.isFinite = true) :
      SameWork (.perform now op) (.perform now' op)
  | register {f : BoundFunction} : SameWork (.register f) (.register f)

namespace Catalog

/-- What an action answers, if it is an operation. -/
def answer? (c : Catalog) : Action → Option (Reported Outcome)
  | .perform now op => some (c.perform now op).1
  | .register _ => none

/-- What the actions of a run answer, in order. -/
def answers (c : Catalog) : List Action → List (Option (Reported Outcome))
  | [] => []
  | a :: as => c.answer? a :: (c.act a).answers as

end Catalog

/-! ### Records of a version, at two times -/

/-- The records of a version say which version it is, at whatever time. -/
theorem commitWrites_congr {t u : TableId} {dir dir' : Option DirId} {now : Float}
    {h h' : TableHead} {schema schema' : Option Schema}
    (heq : commitWrites t dir now h schema = commitWrites u dir' now h' schema') (now' : Float) :
    commitWrites t dir now' h schema = commitWrites u dir' now' h' schema' := by
  cases schema <;> cases schema' <;>
    simp_all [commitWrites, DataVersion.toJson, Record.plain, Json.ofNat]

namespace Store

variable {s s' : Store} {σ σ' : Ledgers} {ws : List (Key × Record)}

/-- A key that has the same record in two stores has the same record after the
same writes. -/
theorem get?_write_congr {k : Key} (h : s'.get? k = s.get? k) :
    (s'.write ws).get? k = (s.write ws).get? k := by
  induction ws generalizing s s' with
  | nil => exact h
  | cons w ws ih =>
    rw [write_cons, write_cons]
    apply ih
    rw [SortedMap.get?_insert, SortedMap.get?_insert, h]

/-- A store on the way from one that keeps ledgers to one that keeps more still
keeps them. -/
theorem Keeps.between {part : Store} (hk : s.Keeps σ) (hk' : s'.Keeps σ') (hext : σ.Extends σ')
    (hpart : s.Between s' part) : part.Keeps σ where
  head t l hl := by
    rw [← hk.head t l hl, table, table, read?, read?, hpart.table]
  absent t hl := (hpart.table t).trans (hk.absent t hl)
  version t l v d hl hd := by
    obtain ⟨l', hl', hle⟩ := hext t l hl
    have hd' := getElem?_of_isPrefix hle.versions hd
    unfold dataVersion read?
    rcases hpart.other (.tableVersion t v) with hold | hnew
    · rw [hold]
      exact hk.version t l v d hl hd
    · rw [hnew]
      exact hk'.version t l' v d hl' hd'
  schema t l v k hl hd := by
    obtain ⟨l', hl', hle⟩ := hext t l hl
    have hd' := getElem?_of_isPrefix hle.schemas hd
    unfold Store.schema require
    rcases hpart.other (.schemaVersion t v) with hold | hnew
    · rw [hold]
      exact hk.schema t l v k hl hd
    · rw [hnew]
      exact hk'.schema t l' v k hl' hd'
  versionRecord t v r hr := by
    rcases hpart.other (.tableVersion t v) with hold | hnew
    · exact hk.versionRecord t v r (hold ▸ hr)
    · exact hk'.versionRecord t v r (hnew ▸ hr)
  schemaRecord t v r hr := by
    rcases hpart.other (.schemaVersion t v) with hold | hnew
    · exact hk.schemaRecord t v r (hold ▸ hr)
    · exact hk'.schemaRecord t v r (hnew ▸ hr)

namespace Alike

variable (h : s.Alike s' σ σ')
include h

/-- Records that belong to no table are written alike. -/
theorem write_foreign (hkeys : ∀ w ∈ ws, w.1.isForeign = true) :
    (s.write ws).Alike (s'.write ws) σ σ' where
  keeps := h.keeps.foreign hkeys
  keeps' := h.keeps'.foreign hkeys
  sound := h.sound
  based := h.based
  ledgers := h.ledgers
  head t := get?_write_congr (h.head t)
  foreign k hk := get?_write_congr (h.foreign k hk)

/-- A version is written alike at two times, over whatever lies under its keys. -/
theorem commit {t : TableId} {l : Ledger} {now now' : Float} {head : TableHead}
    {schema : Option Schema} (hl : (σ t).getD (.blank l.dir head) = l)
    (htakes : l.Takes now head schema) (hsound : (l.push now head schema).Sound)
    (hbased : (σ.put t (l.push now head schema)).Based) (hnow : now'.isFinite = true) :
    ∃ τ', (s.write (commitWrites t l.dir now head schema)).Alike
      (s'.write (commitWrites t l.dir now' head schema)) (σ.put t (l.push now head schema)) τ' := by
  obtain ⟨l', hl', heq⟩ : ∃ l', (σ' t).getD (.blank l'.dir head) = l' ∧
      l'.timeless = l.timeless := by
    cases hσ : σ t with
    | none =>
      rw [hσ, Option.getD_none] at hl
      refine ⟨.blank l.dir head, ?_, congrArg Ledger.timeless hl⟩
      rw [h.eq_none hσ]
      rfl
    | some m =>
      obtain ⟨m', hm', hmm, _⟩ := h.exists_like hσ
      rw [hσ, Option.getD_some] at hl
      refine ⟨m', ?_, hl ▸ hmm⟩
      rw [hm']
      rfl
  have hdir : l'.dir = l.dir := (Ledger.timeless_eq_iff.1 heq).1
  have hkeeps' := h.keeps'.commit hl' (htakes.congr heq hnow)
  rw [hdir] at hkeeps'
  have hother {now : Float} {s : Store} {k : Key} (hk : k.isForeign = true) :
      (s.write (commitWrites t l.dir now head schema)).get? k = s.get? k := by
    apply get?_write_of_notMem
    rintro w hw rfl
    rw [isForeign_of_mem_commitWrites hw] at hk
    cases hk
  refine ⟨σ'.put t (l'.push now' head schema), h.keeps.commit hl htakes, hkeeps',
    Ledgers.forall_put h.sound hsound, hbased, ?_, ?_, ?_⟩
  · intro u
    by_cases hu : u = t
    · subst hu
      rw [Ledgers.put_self, Ledgers.put_self]
      exact congrArg some (Ledger.timeless_push_congr heq)
    · rw [Ledgers.put_of_ne hu, Ledgers.put_of_ne hu]
      exact h.ledgers u
  · intro u
    rw [get?_commit_table, get?_commit_table, h.head u]
  · intro k hk
    rw [hother hk, hother hk]
    exact h.foreign k hk

end Alike
end Store

/-! ### Catalogs that are alike -/

/-- Catalogs with the same configuration and registry over stores that are
alike. The first one keeps the ledgers exactly. -/
structure Catalog.Alike (c c' : Catalog) (σ σ' : Ledgers) : Prop where
  keeps : c.Keeps σ
  unlimited : c'.writesLeft = none
  config : c'.config = c.config
  registry : c'.registry = c.registry
  store : c.store.Alike c'.store σ σ'

namespace Catalog

variable {c c' : Catalog} {σ σ' : Ledgers}

/-- Where an operation may break off is not seen by its plan. -/
theorem plan_limited (c : Catalog) (room : Option Nat) (now : Float) (op : Operation) :
    op.plan (c.limited room) now = op.plan c now := by
  have hreads : c.ReadsAs (c.limited room) := by
    refine ⟨rfl, rfl, ?_⟩
    exact ⟨fun _ _ => rfl, fun _ => rfl, fun _ _ _ => rfl, fun _ _ _ _ => rfl, fun _ => rfl⟩
  exact (hreads.plan_alike now now op).eq

/-- An operation that breaks off leaves the first records of its plan. -/
theorem attempt_of_lt (hc : c.writesLeft = none) {now : Float} {op : Operation} {p : Plan Outcome}
    (hp : op.plan c now = .ok p) {n : Nat} (hn : n < p.writes.length) :
    c.attempt ⟨.perform now op, some n⟩ = { c with store := c.store.write (p.writes.take n) } := by
  have hplan : op.plan (c.limited (some n)) now = .ok p := by rw [plan_limited, hp]
  rcases putAll_of_limited (c := c.limited (some n)) rfl p.writes with ⟨hle, _⟩ | ⟨_, e, hpart⟩
  · exact absurd hn (Nat.not_lt.2 hle)
  · rw [attempt, act, perform, hplan, commit, hpart, limited, ← hc]
    rfl

-- the record of the new schema version is left behind
example : ((Sample.start.after Sample.creation).attempt ⟨.perform 2 (.addColumn Sample.people 0
    { name := "born", type := .string }), some 1⟩).store.get? (.schemaVersion Sample.people 1)
      |>.isSome := by
  decide +kernel

/-- What is left of a version whose head is not written is like nothing. -/
theorem Keeps.alike_of_take (hc : c.Keeps σ) (hσ : σ.Based) {now : Float} {op : Operation}
    {p : Plan Outcome} (ha : c.Allows (.perform now op)) {t : TableId} (ht : op.table? = some t)
    (hp : op.plan c now = .ok p) {n : Nat} (hn : n < p.writes.length) :
    c.Alike { c with store := c.store.write (p.writes.take n) } σ σ := by
  obtain ⟨σ', hcommits, hadvance⟩ := hc.commits_of_plan ha hp
  have hext := hadvance.extends hc
  have hall := (hc.write hcommits).store
  refine ⟨hc, hc.unlimited, rfl, rfl, ?_⟩
  cases hcommits with
  | foreign hop =>
    rw [hop] at ht
    cases ht
  | version hl hwrites =>
    rw [hwrites] at hn hall ⊢
    have hbetween := Store.between_write_take (s := c.store) hn
    refine ⟨hc.store, hc.store.between hall hext hbetween, hc.sound, hσ, fun _ => rfl,
      hbetween.table, fun k hk => ?_⟩
    apply Store.get?_write_of_notMem
    rintro w hw rfl
    rw [isForeign_of_mem_commitWrites (List.take_subset _ _ hw)] at hk
    cases hk

namespace Alike

theorem readsAs (h : c.Alike c' σ σ') : c.ReadsAs c' := ⟨h.config, h.registry, h.store.readsAs⟩

/-- Records that belong to no table leave catalogs alike. -/
theorem write_foreign (h : c.Alike c' σ σ') {now : Float} {op : Operation} {p : Plan Outcome}
    {τ : Ledgers} (hcommits : σ.Commits now op p τ)
    (hkeys : ∀ w ∈ p.writes, w.1.isForeign = true) :
    Alike { c with store := c.store.write p.writes } { c' with store := c'.store.write p.writes }
      τ σ' := by
  have hkeeps := h.keeps.write hcommits
  cases hcommits with
  | foreign =>
    exact ⟨hkeeps, h.unlimited, h.config, h.registry, h.store.write_foreign hkeys⟩
  | @version t l head schema _ hwrites =>
    -- a version has a head, which is the record of a table
    have hmem : (Key.table t, Record.plain l.dir head.toJson) ∈ p.writes := by
      rw [hwrites]
      exact Store.mem_commitWrites_iff.2 (.inr (.inr rfl))
    cases hkeys _ hmem

/-- A version that is written at two times leaves catalogs alike. -/
theorem write_version (h : c.Alike c' σ σ') {now now' : Float} {op : Operation}
    {p : Plan Outcome} {τ : Ledgers} (hcommits : σ.Commits now op p τ) (hτ : τ.Based)
    {t : TableId} {dir : Option DirId} {head : TableHead} {schema : Option Schema}
    (hwrites : p.writes = commitWrites t dir now head schema) (hnow : now'.isFinite = true) :
    ∃ τ', Alike { c with store := c.store.write p.writes }
      { c' with store := c'.store.write (commitWrites t dir now' head schema) } τ τ' := by
  have hkeeps := h.keeps.write hcommits
  cases hcommits with
  | foreign _ hkeys =>
    have hmem : (Key.table t, Record.plain dir head.toJson) ∈ p.writes := by
      rw [hwrites]
      exact Store.mem_commitWrites_iff.2 (.inr (.inr rfl))
    cases hkeys _ hmem
  | version hl hwrites' htakes hsound =>
    obtain ⟨τ', hstore⟩ := h.store.commit hl htakes hsound hτ hnow
    rw [← hwrites', ← commitWrites_congr (hwrites.symm.trans hwrites') now'] at hstore
    exact ⟨τ', hkeeps, h.unlimited, h.config, h.registry, hstore⟩

/-- An operation answers the same over catalogs that are alike, and leaves them alike. -/
theorem perform (h : c.Alike c' σ σ') {now now' : Float} {op : Operation}
    (ha : c.Allows (.perform now op)) (hnow : now'.isFinite = true) :
    (c'.perform now' op).1 = (c.perform now op).1 ∧
      ∃ τ τ', (c.perform now op).2.Alike (c'.perform now' op).2 τ τ' := by
  have hplan := h.readsAs.plan_alike now now' op
  generalize hp : op.plan c now = p, hp' : op.plan c' now' = p' at hplan
  cases hplan with
  | error e =>
    rw [perform_of_plan_error hp, perform_of_plan_error hp']
    exact ⟨rfl, σ, σ', h⟩
  | foreign hkeys =>
    obtain ⟨τ, hcommits, _⟩ := h.keeps.commits_of_plan ha hp
    rw [perform_of_plan h.keeps.unlimited hp, perform_of_plan h.unlimited hp']
    exact ⟨rfl, τ, σ', h.write_foreign hcommits hkeys⟩
  | version t dir head schema a log =>
    obtain ⟨τ, hcommits, hadvance⟩ := h.keeps.commits_of_plan ha hp
    have hτ : τ.Based := by
      refine hadvance.based h.keeps ?_ h.store.based
      rw [act, perform_of_plan h.keeps.unlimited hp]
      exact h.keeps.write hcommits
    obtain ⟨τ', halike⟩ := h.write_version hcommits hτ rfl hnow
    rw [perform_of_plan h.keeps.unlimited hp, perform_of_plan h.unlimited hp']
    exact ⟨rfl, τ, τ', halike⟩

/-- An action answers the same over catalogs that are alike, and leaves them alike. -/
theorem act (h : c.Alike c' σ σ') {a a' : Action} (ha : c.Allows a) (hsame : a.SameWork a') :
    c'.answer? a' = c.answer? a ∧ ∃ τ τ', (c.act a).Alike (c'.act a') τ τ' := by
  cases hsame with
  | perform hnow =>
    obtain ⟨hanswer, halike⟩ := h.perform ha hnow
    exact ⟨congrArg some hanswer, halike⟩
  | @register f =>
    refine ⟨rfl, σ, σ', ⟨h.keeps.unlimited, h.keeps.store, h.keeps.exact, h.keeps.sound⟩,
      h.unlimited, h.config, ?_, h.store⟩
    show (c'.registry.register f).2 = (c.registry.register f).2
    rw [h.registry]

/-- A run answers the same over catalogs that are alike, and at every point of it
all reads answer the same. -/
theorem after (h : c.Alike c' σ σ') {as as' : List Action}
    (hsame : List.Forall₂ Action.SameWork as as') (ha : c.Admits as) :
    c'.answers as' = c.answers as ∧
      ∀ i, (c.after (as.take i)).store.SameReads (c'.after (as'.take i)).store := by
  induction hsame generalizing c c' σ σ' with
  | nil =>
    refine ⟨rfl, fun i => ?_⟩
    rw [List.take_nil]
    exact h.store.sameReads
  | cons hwork _ ih =>
    obtain ⟨hanswer, τ, τ', halike⟩ := h.act ha.1 hwork
    obtain ⟨hanswers, hreads⟩ := ih halike ha.2
    refine ⟨?_, fun i => ?_⟩
    · rw [answers, answers, hanswer, hanswers]
    · cases i with
      | zero => exact h.store.sameReads
      | succ i => exact hreads i

end Alike

/-- After any run, an operation on a table breaks off before its last record.
Whatever happens then, it answers the same as if the operation had never been
tried, and at every point all reads of tables and views answer the same, creation
times aside. -/
theorem harmlessInterruption {config : Config} {registry : Registry} {as : List Action}
    (ha : (fresh config registry).Admits as) (hc : (fresh config registry).after as = c)
    {now : Float} {op : Operation} (hop : c.Allows (.perform now op)) {t : TableId}
    (ht : op.table? = some t) {p : Plan Outcome} (hp : op.plan c now = .ok p) {n : Nat}
    (hn : n < p.writes.length) {bs bs' : List Action} (hbs : c.Admits bs)
    (hsame : List.Forall₂ Action.SameWork bs bs') :
    (c.attempt ⟨.perform now op, some n⟩).answers bs' = c.answers bs ∧
      ∀ i, (c.after (bs.take i)).store.SameReads
        ((c.attempt ⟨.perform now op, some n⟩).after (bs'.take i)).store := by
  obtain ⟨σ, hkeeps, _, hbased⟩ := (keeps_fresh config registry).after_based Ledgers.based_empty ha
  rw [hc] at hkeeps
  rw [attempt_of_lt hkeeps.unlimited hp hn]
  have halike := hkeeps.alike_of_take hbased hop ht hp hn
  exact halike.after hsame hbs

end Catalog

/-- Adding a column breaks off after the record of the new schema version. The
rows that are inserted next and the column that is dropped then come at the same
versions as they would have without it. -/
theorem Sample.harmlessInterruption_people :
    let c := Sample.start.after Sample.creation
    let op := Operation.addColumn Sample.people 0 { name := "born", type := .string }
    let bs := [Action.perform 3 (.insertRows Sample.people 0 10),
      .perform 4 (.dropColumn Sample.people 1 "nick")]
    let bs' := [Action.perform 5 (.insertRows Sample.people 0 10),
      .perform 6 (.dropColumn Sample.people 1 "nick")]
    Sample.start.Admits Sample.creation ∧ c.Allows (.perform 2 op) ∧
      op.table? = some Sample.people ∧
      (∃ p, op.plan c 2 = .ok p ∧ 1 < p.writes.length) ∧ c.Admits bs ∧
      List.Forall₂ Action.SameWork bs bs' ∧
      (c.attempt ⟨.perform 2 op, some 1⟩).answers bs' = c.answers bs ∧
      ∀ i, (c.after (bs.take i)).store.SameReads
        ((c.attempt ⟨.perform 2 op, some 1⟩).after (bs'.take i)).store := by
  intro c op bs bs'
  have ha : Sample.start.Admits Sample.creation := by decide +kernel
  have hop : c.Allows (.perform 2 op) := by decide +kernel
  have hlength : ((op.plan c 2).toOption.map fun p => p.writes.length) = some 3 := by
    decide +kernel
  obtain ⟨p, hsome, hp⟩ := Option.map_eq_some_iff.1 hlength
  have hplan : op.plan c 2 = .ok p := eq_ok_of_toOption hsome
  have hn : 1 < p.writes.length := by omega
  have hbs : c.Admits bs := by decide +kernel
  have hsame : List.Forall₂ Action.SameWork bs bs' :=
    .cons (.perform (by decide +kernel)) (.cons (.perform (by decide +kernel)) .nil)
  exact ⟨ha, hop, rfl, ⟨p, hplan, hn⟩, hbs, hsame,
    Catalog.harmlessInterruption ha rfl hop rfl hplan hn hbs hsame⟩

end Cadastre
