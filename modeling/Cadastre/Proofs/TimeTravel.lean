/-
# Every version of a table lists the columns of its replay

In every store that a run reaches, each version of a table, the current one and
every earlier one, lists the columns that its mutations up to that version
make, replayed one by one on a list from the declared columns. So a version
that was superseded still reads as it did when it was current.

A ledger replays if each of its data versions does; one more version leaves the
earlier ones as they are, and an edit or a change of rows makes of the current
schema version what it makes of the list.

Key definitions: `Ledger.Replays`, `Ledgers.Tells`.
Key theorems: `Ledger.Replays.push`, `Advance.tells`, `Course.tells`,
`Catalog.timeTravel`.
-/
import Cadastre.Proofs.Roster
import Cadastre.Proofs.VersionChain

namespace Cadastre

/-! ### Ledgers -/

/-- Each data version of a ledger lists what the mutations up to it make of the
columns of `r`. -/
structure Ledger.Replays (l : Ledger) (r : Roster) (ops : List Operation) : Prop where
  length : ops.length = l.head.version
  expected : ∀ (v : Nat) (op : Operation), ops[v]? = some op → op.expected? = some v
  next : l.head.nextColumn = (r.replay ops).next
  ordered : ∀ (v : Nat) d, l.versions[v]? = some d → ∃ k, l.schemas[d.schemaVersion]? = some k ∧
    k.ordered = placed (r.replay (ops.take v)).columns

namespace Ledger.Replays

variable {l : Ledger} {r : Roster} {ops : List Operation}

/-- The current schema version lists what all mutations make. -/
theorem current (hr : l.Replays r ops) (hl : l.Sound) {k : Schema}
    (hk : l.schemas[l.head.schemaVersion]? = some k) :
    k.ordered = placed (r.replay ops).columns := by
  obtain ⟨d, hd⟩ := hl.exists_version (Nat.le_refl _)
  obtain ⟨m, hm, hordered⟩ := hr.ordered _ d hd
  rw [hl.paired.last d hd, hk, Option.some.injEq] at hm
  rw [hm, hordered, ← hr.length, List.take_length]

/-- A version more, if it lists what one mutation more makes. -/
theorem push (hr : l.Replays r ops) (hl : l.Sound) {op : Operation}
    (hexpected : op.expected? = some l.head.version) {h : TableHead} {schema : Option Schema}
    (hversion : h.version = l.head.version + 1)
    (hnext : h.nextColumn = (r.replay (ops ++ [op])).next) {k : Schema}
    (hk : (l.schemas ++ schema.toList)[h.schemaVersion]? = some k)
    (hordered : k.ordered = placed (r.replay (ops ++ [op])).columns) (now : Float) :
    (l.push now h schema).Replays r (ops ++ [op]) where
  length := by
    show (ops ++ [op]).length = h.version
    rw [List.length_append, hr.length, hversion]
    rfl
  expected v o ho := by
    rcases getElem?_concat_eq_some_iff.1 ho with ho | ⟨rfl, rfl⟩
    · exact hr.expected v o ho
    · rw [hr.length, hexpected]
  next := hnext
  ordered v d hd := by
    have hlen : l.versions.length = ops.length + 1 := by rw [hl.paired.length, hr.length]
    rcases getElem?_concat_eq_some_iff.1 hd with hd | ⟨rfl, rfl⟩
    · -- an earlier version: its schema version and its mutations are the same as before
      have hlt : v < l.versions.length := (List.getElem?_eq_some_iff.1 hd).1
      obtain ⟨m, hm, hordered'⟩ := hr.ordered v d hd
      have hsame : (l.schemas ++ schema.toList)[d.schemaVersion]? = some m := by
        rw [List.getElem?_append_left (List.getElem?_eq_some_iff.1 hm).1, hm]
      refine ⟨m, hsame, ?_⟩
      rw [List.take_append_of_le_length (by omega), hordered']
    · refine ⟨k, hk, ?_⟩
      rw [hordered, List.take_of_length_le]
      rw [List.length_append, hlen]
      exact Nat.le_refl _

/-- An edit of the current schema version is one mutation more. -/
theorem edit (hr : l.Replays r ops) (hl : l.Sound) {c : Catalog} {op : Operation} {t : TableId}
    {k : Schema} {d : Draft} (hexpected : op.expected? = some l.head.version)
    (hk : l.schemas[l.head.schemaVersion]? = some k)
    (he : Edit c t (Catalog.nextDraft l.head k) op d) (now : Float) :
    (l.push now d.head (some d.schema.compact)).Replays r (ops ++ [op]) := by
  obtain ⟨n, history, hhead⟩ := he.head_eq
  have hordered := hr.current hl hk
  have hlisted : k.listed = (r.replay ops).columns := by
    rw [Schema.listed, hordered, map_spec_placed]
  have hdense : k.Dense := by rw [Schema.Dense, hlisted, hordered]
  have hlists : d.Lists (r.replay (ops ++ [op])) := by
    rw [Roster.replay_append]
    exact he.lists (hl.chronicle.next hk) (hl.nextDraft hk) hdense ⟨hlisted, hr.next⟩
  have hschema : (l.schemas ++ (some d.schema.compact).toList)[d.head.schemaVersion]? =
      some d.schema.compact := by
    rw [Option.toList_some, hhead, getElem?_concat_eq_some_iff]
    exact .inr ⟨hl.chronicle.length.symm, rfl⟩
  refine hr.push hl hexpected ?_ hlists.next hschema ?_ now
  · rw [hhead]
    rfl
  · rw [Schema.ordered_compact, hlists.columns]

/-- A change of rows is one mutation more, and changes no column. -/
theorem rows (hr : l.Replays r ops) (hl : l.Sound) {op : Operation} {t : TableId} {h : TableHead}
    (hexpected : op.expected? = some l.head.version)
    (hc : RowChange t { l.head with version := l.head.version + 1 } op h) (now : Float) :
    (l.push now h none).Replays r (ops ++ [op]) := by
  obtain ⟨n, rfl⟩ := hc.head_eq
  obtain ⟨k, hk⟩ := hl.exists_schema (Nat.le_refl _)
  have hsame : r.replay (ops ++ [op]) = r.replay ops := by
    rw [Roster.replay_append, hc.apply_eq]
  refine hr.push hl hexpected rfl ?_ (k := k) ?_ ?_ now
  · rw [hsame]
    exact hr.next
  · simpa using hk
  · rw [hsame]
    exact hr.current hl hk

end Ledger.Replays

/-- The first version of a table or view lists the declared columns. -/
theorem Birth.replays {c : Catalog} {op : Operation} {t : TableId} {dir : Option DirId} {d : Draft}
    (hb : Birth c op t dir d) (now : Float) :
    ∃ r, Roster.created op = some r ∧
      ((Ledger.blank dir d.head).push now d.head (some d.schema)).Replays r [] := by
  obtain ⟨r, hr, hdense, hlists⟩ := hb.lists
  refine ⟨r, hr, hb.head_version.symm, fun v o ho => by simp at ho, hlists.next,
    fun v e he => ?_⟩
  have hschema : d.head.schemaVersion = 0 := hb.continues.schemaVersion
  rcases getElem?_concat_eq_some_iff.1 he with he | ⟨rfl, rfl⟩
  · cases he
  · refine ⟨d.schema, ?_, ?_⟩
    · show [d.schema][d.head.schemaVersion]? = some d.schema
      rw [hschema]
      rfl
    · rw [hdense, hlists.columns]
      rfl

/-! ### Runs -/

/-- The changes of a table so far are its creation and the mutations that its
ledger replays; a table without a ledger has had none. -/
def Ledgers.Tells (σ : Ledgers) (t : TableId) (changes : List Operation) : Prop :=
  match σ t with
  | none => changes = []
  | some l => ∃ creation r ops, changes = creation :: ops ∧ Roster.created creation = some r ∧
      l.Replays r ops

theorem Ledgers.tells_some {σ : Ledgers} {t : TableId} {l : Ledger} (hl : σ t = some l)
    {changes : List Operation} : σ.Tells t changes ↔ ∃ creation r ops,
      changes = creation :: ops ∧ Roster.created creation = some r ∧ l.Replays r ops := by
  rw [Tells, hl]

namespace Ledgers.Tells

variable {σ : Ledgers} {t u : TableId} {changes : List Operation}

/-- A ledger that replays one operation more tells it. -/
theorem push (ht : σ.Tells t changes) {l l' : Ledger} (hl : σ t = some l) {op : Operation}
    (h : ∀ r ops, l.Replays r ops → l'.Replays r (ops ++ [op])) :
    (σ.put t l').Tells t (changes ++ [op]) := by
  rw [tells_some hl] at ht
  obtain ⟨creation, r, ops, rfl, hr, hreplays⟩ := ht
  rw [tells_some (put_self _ _ _)]
  exact ⟨creation, r, ops ++ [op], rfl, hr, h r ops hreplays⟩

/-- A change of another table adds nothing to what a ledger tells. -/
theorem of_ne (ht : σ.Tells t changes) {c : Catalog} {a : Action} {op : Operation}
    (hchange : c.change? u a = some op) (hu : t ≠ u) (l : Ledger) :
    (σ.put u l).Tells t (changes ++ (c.change? t a).toList) := by
  have hnone : c.change? t a = none := Catalog.change?_of_ne hchange hu
  rw [hnone, Option.toList_none, List.append_nil, Tells, put_of_ne hu]
  exact ht

end Ledgers.Tells

/-- A step that changes a table adds the change to what its ledger tells. -/
theorem Advance.tells {c : Catalog} {σ σ' : Ledgers} {a : Action} (h : Advance c σ a σ')
    (hc : c.Keeps σ) {t : TableId} {changes : List Operation} (ht : σ.Tells t changes) :
    σ'.Tells t (changes ++ (c.change? t a).toList) := by
  cases h with
  | idle hidle =>
    rw [hidle t, Option.toList_none, List.append_nil]
    exact ht
  | @birth now op u dir d hchange hnew hbirth =>
    by_cases hu : t = u
    · subst hu
      obtain ⟨r, hr, hreplays⟩ := hbirth.replays now
      rw [Ledgers.Tells, hnew] at ht
      rw [Ledgers.tells_some (Ledgers.put_self _ _ _), hchange, ht]
      exact ⟨op, r, [], rfl, hr, hreplays⟩
    · exact ht.of_ne hchange hu _
  | @edit now op u l k d hchange hl hlive hexpected hschema hedit =>
    by_cases hu : t = u
    · subst hu
      have hs := hc.sound t l hl
      rw [hchange]
      exact ht.push hl fun r ops hr => hr.edit hs hexpected hschema hedit now
    · exact ht.of_ne hchange hu _
  | @rows now op u l h hchange hl hlive hexpected hrows =>
    by_cases hu : t = u
    · subst hu
      have hs := hc.sound t l hl
      rw [hchange]
      exact ht.push hl fun r ops hr => hr.rows hs hexpected hrows now
    · exact ht.of_ne hchange hu _

/-- The ledgers at the end of a run tell what they told before it and then the
changes of the run. -/
theorem Course.tells {c : Catalog} {σ σ' : Ledgers} {as : List Action} (h : Course c σ as σ')
    {t : TableId} {changes : List Operation} (ht : σ.Tells t changes) :
    σ'.Tells t (changes ++ c.changes t as) := by
  induction h generalizing changes with
  | nil =>
    rw [Catalog.changes, List.append_nil]
    exact ht
  | @cons c σ σ₁ σ₂ a as hc hadvance _ ih =>
    rw [Catalog.changes, ← List.append_assoc]
    exact ih (hadvance.tells hc ht)

/-- The changes of every table or view that exists after a run are its creation
and as many mutations as the number of its current version; and each version up
to that one lists, at the positions `0`, `1`, …, the columns that the mutations
up to it make of the declared ones. -/
theorem Catalog.timeTravel {config : Config} {registry : Registry} {as : List Action}
    (ha : (fresh config registry).Admits as) {t : TableId}
    (ht : (((fresh config registry).after as).store.get? (.table t)).isSome = true) :
    ∃ x creation r mutations,
      ((fresh config registry).after as).store.table t = .ok x ∧
      (fresh config registry).changes t as = creation :: mutations ∧
      Roster.created creation = some r ∧
      mutations.length = x.head.version ∧
      (∀ (v : Nat) (op : Operation), mutations[v]? = some op → op.expected? = some v) ∧
      ∀ v ≤ x.head.version, ∃ d k,
        ((fresh config registry).after as).store.dataVersion t v = .ok d ∧
        ((fresh config registry).after as).store.schema t d.schemaVersion = .ok k ∧
        k.ordered = placed (r.replay (mutations.take v)).columns := by
  obtain ⟨σ, hc, hcourse⟩ := exists_course ha
  obtain ⟨l, hl⟩ := hc.exists_ledger ht
  have hstart : Ledgers.Tells (fun _ => none) t [] := rfl
  have htells : σ.Tells t ((fresh config registry).changes t as) := hcourse.tells hstart
  rw [Ledgers.tells_some hl] at htells
  obtain ⟨creation, r, mutations, hchanges, hr, hreplays⟩ := htells
  refine ⟨⟨t, l.dir, l.head⟩, creation, r, mutations, hc.store.head t l hl, hchanges, hr,
    hreplays.length, hreplays.expected, fun v hv => ?_⟩
  obtain ⟨d, hd⟩ := (hc.sound t l hl).exists_version hv
  obtain ⟨k, hk, hordered⟩ := hreplays.ordered v d hd
  exact ⟨d, k, hc.store.version t l v d hl hd, hc.store.schema t l _ k hl hk, hordered⟩

theorem Sample.timeTravel_people :
    Sample.start.Admits (Sample.creation ++ Sample.evolution) ∧
      ∃ x creation r mutations,
        (Sample.start.after (Sample.creation ++ Sample.evolution)).store.table Sample.people =
          .ok x ∧
        Sample.start.changes Sample.people (Sample.creation ++ Sample.evolution) =
          creation :: mutations ∧
        Roster.created creation = some r ∧
        mutations.length = x.head.version ∧
        (∀ (v : Nat) (op : Operation), mutations[v]? = some op → op.expected? = some v) ∧
        ∀ v ≤ x.head.version, ∃ d k,
          (Sample.start.after (Sample.creation ++ Sample.evolution)).store.dataVersion
            Sample.people v = .ok d ∧
          (Sample.start.after (Sample.creation ++ Sample.evolution)).store.schema
            Sample.people d.schemaVersion = .ok k ∧
          k.ordered = placed (r.replay (mutations.take v)).columns := by
  have ha : Sample.start.Admits (Sample.creation ++ Sample.evolution) := by decide +kernel
  have ht : ((Sample.start.after (Sample.creation ++ Sample.evolution)).store.get?
      (.table Sample.people)).isSome = true := by decide +kernel
  exact ⟨ha, Catalog.timeTravel ha ht⟩

end Cadastre
