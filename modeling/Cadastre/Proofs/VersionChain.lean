/-
# The chain of a table's versions

In every store that a run reaches, the records of a table's versions form a
chain up to the counters of its head: there is a data version for every number
up to the current version and a schema version for every number up to the
current schema version, and for no other; each schema version follows the one
before it; and the data versions are paired with the schema versions in order.
What the head says of the table itself, its name, its directory and its view,
is as it was when it was created.

Key definitions: `VersionChain`.
Key theorems: `Course.identity`, `Catalog.versionChain`.
-/
import Cadastre.Proofs.Run

namespace Cadastre

/-! ### What does not change -/

/-- A step leaves the name, the directory and the view of a table as they are. -/
theorem Advance.identity {c : Catalog} {σ σ' : Ledgers} {a : Action} (h : Advance c σ a σ')
    (hc : c.Keeps σ) {t : TableId} {l : Ledger} (hl : σ t = some l) :
    ∃ l', σ' t = some l' ∧ l'.head.name = l.head.name ∧ l'.dir = l.dir ∧
      l'.head.view = l.head.view := by
  have hview : l.head.view.map ViewSource.settled = l.head.view :=
    congrArg TableHead.view (hc.sound t l hl).settled
  cases h with
  | idle => exact ⟨l, hl, rfl, rfl, rfl⟩
  | @birth now op u dir d hchange hnew hbirth =>
    -- the new table is another one
    have hu : t ≠ u := by
      rintro rfl
      rw [hl] at hnew
      cases hnew
    exact ⟨l, by rw [Ledgers.put_of_ne hu, hl], rfl, rfl, rfl⟩
  | @edit now op u m k d hchange hm hlive hexpected hschema hedit =>
    by_cases hu : t = u
    · subst hu
      rw [hl] at hm
      cases hm
      obtain ⟨n, history, hhead⟩ := hedit.head_eq
      refine ⟨_, Ledgers.put_self _ _ _, ?_, rfl, ?_⟩
      · show d.head.name = l.head.name
        rw [hhead]
        rfl
      · show d.head.view.map ViewSource.settled = l.head.view
        rw [hhead]
        exact hview
    · exact ⟨l, by rw [Ledgers.put_of_ne hu, hl], rfl, rfl, rfl⟩
  | @rows now op u m h hchange hm hlive hexpected hrows =>
    by_cases hu : t = u
    · subst hu
      rw [hl] at hm
      cases hm
      obtain ⟨n, rfl⟩ := hrows.head_eq
      exact ⟨_, Ledgers.put_self _ _ _, rfl, rfl, hview⟩
    · exact ⟨l, by rw [Ledgers.put_of_ne hu, hl], rfl, rfl, rfl⟩

/-- A run leaves the name, the directory and the view of a table as they are. -/
theorem Course.identity {c : Catalog} {σ σ' : Ledgers} {as : List Action} (h : Course c σ as σ')
    {t : TableId} {l : Ledger} (hl : σ t = some l) :
    ∃ l', σ' t = some l' ∧ l'.head.name = l.head.name ∧ l'.dir = l.dir ∧
      l'.head.view = l.head.view := by
  induction h generalizing l with
  | nil => exact ⟨l, hl, rfl, rfl, rfl⟩
  | cons hc hadvance _ ih =>
    obtain ⟨l', hl', hname, hdir, hview⟩ := hadvance.identity hc hl
    obtain ⟨l'', hl'', hname', hdir', hview'⟩ := ih hl'
    exact ⟨l'', hl'', hname'.trans hname, hdir'.trans hdir, hview'.trans hview⟩

/-! ### The chain -/

/-- The records of the versions of a table, against the counters of its head. -/
structure VersionChain (s : Store) (x : Table) : Prop where
  /-- There is a record of every data version up to the current one, and no other. -/
  version_iff : ∀ v, (s.get? (.tableVersion x.id v)).isSome = true ↔ v ≤ x.head.version
  /-- There is a record of every schema version up to the current one, and no other. -/
  schema_iff : ∀ v, (s.get? (.schemaVersion x.id v)).isSome = true ↔ v ≤ x.head.schemaVersion
  version : ∀ v ≤ x.head.version, ∃ d, s.dataVersion x.id v = .ok d ∧ d.version = v
  schema : ∀ v ≤ x.head.schemaVersion, ∃ k, s.schema x.id v = .ok k ∧ k.version = v
  firstSchema : ∀ k, s.schema x.id 0 = .ok k → k.preceding = none
  nextSchema : ∀ v k, s.schema x.id (v + 1) = .ok k → k.preceding = some v
  first : ∀ d, s.dataVersion x.id 0 = .ok d → d.schemaVersion = 0
  next : ∀ v d e, s.dataVersion x.id v = .ok d → s.dataVersion x.id (v + 1) = .ok e →
    e.schemaVersion = d.schemaVersion ∨ e.schemaVersion = d.schemaVersion + 1
  last : ∀ d, s.dataVersion x.id x.head.version = .ok d → d.schemaVersion = x.head.schemaVersion
  le : x.head.schemaVersion ≤ x.head.version

namespace Catalog.Keeps

variable {c : Catalog} {σ : Ledgers} {t : TableId} {l : Ledger}

/-- A data version that is read is one of the ledger. -/
theorem version_of_read (hc : c.Keeps σ) (hl : σ t = some l) {v : Version} {d : DataVersion}
    (h : c.store.dataVersion t v = .ok d) : l.versions[v]? = some d := by
  obtain ⟨r, hr, _⟩ := Store.dataVersion_eq_ok_iff.1 h
  obtain ⟨m, hm, hlt⟩ := hc.exact.version t v r hr
  rw [hl] at hm
  cases hm
  have hget : l.versions[v]? = some l.versions[v] := List.getElem?_eq_getElem hlt
  have hread := hc.store.version t l v _ hl hget
  rw [h] at hread
  cases hread
  exact hget

/-- A schema version that is read is one of the ledger. -/
theorem schema_of_read (hc : c.Keeps σ) (hl : σ t = some l) {v : SchemaVersion} {k : Schema}
    (h : c.store.schema t v = .ok k) : l.schemas[v]? = some k := by
  obtain ⟨r, hr, _⟩ := Store.schema_eq_ok_iff.1 h
  obtain ⟨m, hm, hlt⟩ := hc.exact.schema t v r hr
  rw [hl] at hm
  cases hm
  have hget : l.schemas[v]? = some l.schemas[v] := List.getElem?_eq_getElem hlt
  have hread := hc.store.schema t l v _ hl hget
  rw [h] at hread
  cases hread
  exact hget

/-- The ledgers of a catalog read as chains of versions. -/
theorem chain (hc : c.Keeps σ) (hl : σ t = some l) :
    VersionChain c.store ⟨t, l.dir, l.head⟩ := by
  have hs := hc.sound t l hl
  have hversions : l.versions.length = l.head.version + 1 := hs.paired.length
  have hschemas : l.schemas.length = l.head.schemaVersion + 1 := hs.chronicle.length
  constructor
  · intro v
    constructor
    · intro h
      obtain ⟨r, hr⟩ := Option.isSome_iff_exists.1 h
      obtain ⟨m, hm, hlt⟩ := hc.exact.version t v r hr
      rw [hl] at hm
      cases hm
      rw [hversions] at hlt
      exact Nat.le_of_lt_succ hlt
    · intro h
      obtain ⟨d, hd⟩ := hs.exists_version h
      obtain ⟨r, hr, _⟩ := Store.dataVersion_eq_ok_iff.1 (hc.store.version t l v d hl hd)
      exact Option.isSome_iff_exists.2 ⟨r, hr⟩
  · intro v
    constructor
    · intro h
      obtain ⟨r, hr⟩ := Option.isSome_iff_exists.1 h
      obtain ⟨m, hm, hlt⟩ := hc.exact.schema t v r hr
      rw [hl] at hm
      cases hm
      rw [hschemas] at hlt
      exact Nat.le_of_lt_succ hlt
    · intro h
      obtain ⟨k, hk⟩ := hs.exists_schema h
      obtain ⟨r, hr, _⟩ := Store.schema_eq_ok_iff.1 (hc.store.schema t l v k hl hk)
      exact Option.isSome_iff_exists.2 ⟨r, hr⟩
  · intro v hv
    obtain ⟨d, hd⟩ := hs.exists_version hv
    exact ⟨d, hc.store.version t l v d hl hd, hs.paired.numbered v d hd⟩
  · intro v hv
    obtain ⟨k, hk⟩ := hs.exists_schema hv
    exact ⟨k, hc.store.schema t l v k hl hk, hs.linked.numbered v k hk⟩
  · intro k hk
    exact hs.linked.first k (hc.schema_of_read hl hk)
  · intro v k hk
    exact hs.linked.next v k (hc.schema_of_read hl hk)
  · intro d hd
    exact hs.paired.first d (hc.version_of_read hl hd)
  · intro v d e hd he
    exact hs.paired.step v d e (hc.version_of_read hl hd) (hc.version_of_read hl he)
  · intro d hd
    exact hs.paired.last d (hc.version_of_read hl hd)
  · exact hs.paired.le

/-- A record of a head is that of a ledger. -/
theorem exists_ledger (hc : c.Keeps σ) (h : (c.store.get? (.table t)).isSome = true) :
    ∃ l, σ t = some l := by
  cases hl : σ t with
  | none =>
    rw [hc.store.absent t hl] at h
    cases h
  | some l => exact ⟨l, rfl⟩

end Catalog.Keeps

/-- Of every table or view that exists at some point of a run, the versions form
a chain at every later point, and its name, directory and view are as they were. -/
theorem Catalog.versionChain {config : Config} {registry : Registry} {as bs : List Action}
    (ha : (fresh config registry).Admits (as ++ bs)) {t : TableId}
    (ht : (((fresh config registry).after as).store.get? (.table t)).isSome = true) :
    ∃ x y, ((fresh config registry).after as).store.table t = .ok x ∧
      ((fresh config registry).after (as ++ bs)).store.table t = .ok y ∧
      VersionChain ((fresh config registry).after (as ++ bs)).store y ∧
      y.head.name = x.head.name ∧ y.dir = x.dir ∧ y.head.view = x.head.view := by
  rw [admits_append] at ha
  obtain ⟨σ, hc, _⟩ := exists_course ha.1
  obtain ⟨l, hl⟩ := hc.exists_ledger ht
  obtain ⟨σ', hc', hcourse⟩ := hc.after ha.2
  obtain ⟨l', hl', hname, hdir, hview⟩ := hcourse.identity hl
  rw [after_append]
  exact ⟨⟨t, l.dir, l.head⟩, ⟨t, l'.dir, l'.head⟩, hc.store.head t l hl, hc'.store.head t l' hl',
    hc'.chain hl', hname, hdir, hview⟩

theorem Sample.versionChain_people :
    Sample.start.Admits (Sample.creation ++ Sample.evolution) ∧
      ∃ x y, (Sample.start.after Sample.creation).store.table Sample.people = .ok x ∧
        (Sample.start.after (Sample.creation ++ Sample.evolution)).store.table Sample.people =
          .ok y ∧
        VersionChain (Sample.start.after (Sample.creation ++ Sample.evolution)).store y ∧
        y.head.name = x.head.name ∧ y.dir = x.dir ∧ y.head.view = x.head.view := by
  have ha : Sample.start.Admits (Sample.creation ++ Sample.evolution) := by decide +kernel
  have ht : ((Sample.start.after Sample.creation).store.get?
      (.table Sample.people)).isSome = true := by decide +kernel
  exact ⟨ha, Catalog.versionChain ha ht⟩

end Cadastre
