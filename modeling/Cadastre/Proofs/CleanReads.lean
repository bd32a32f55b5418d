/-
# Reads of a sound catalog

A sound catalog reads every table that it keeps a ledger of, and finds none else. A
look-up may ask for what is not there, which is an error of its own, but it never
comes upon a record that is missing or cannot be read. Only the look-up of a schema
version does not tell the two apart: it takes its record to be one that other records
refer to (`Store.Keeps.missing_of_schema`).

Key theorems: `Store.Keeps.clean_dataVersion`, `Store.Keeps.missing_of_schema`,
`Catalog.Sound.clean_snapshot`, `Catalog.Sound.clean_effectiveSchema`,
`Catalog.Sound.clean_resolveBases`, `Catalog.Sound.exists_reclaimCandidates`.
-/
import Cadastre.Proofs.Candidates
import Cadastre.Proofs.EffectiveSchema
import Cadastre.Proofs.Foundations

namespace Cadastre

/-! ### Versions -/

namespace Store.Keeps

variable {s : Store} {σ : Ledgers}

theorem clean_table (hk : s.Keeps σ) (t : TableId) : Clean (s.table t) := by
  cases hl : σ t with
  | none => exact hk.table_eq_error hl ▸ clean_error rfl
  | some l => exact clean_of_eq_ok (hk.head t l hl)

/-- The record of a head is read back. -/
theorem exists_head (hk : s.Keeps σ) {t : TableId} {r : Record}
    (hr : s.get? (.table t) = some r) :
    ∃ h : TableHead, Payload.decode (.table t) r.content = .ok h := by
  cases hl : σ t with
  | none =>
    rw [hk.absent t hl] at hr
    cases hr
  | some l =>
    obtain ⟨r', hr', hd, _⟩ := table_eq_ok_iff.1 (hk.head t l hl)
    obtain rfl : r' = r := Option.some.inj (hr'.symm.trans hr)
    exact ⟨_, hd⟩

/-- No head is skipped in the list of all tables. -/
theorem tableWarnings_eq_nil (hk : s.Keeps σ) : s.tableWarnings = [] := by
  rw [tableWarnings, List.filterMap_eq_nil_iff]
  rintro ⟨t, x⟩ hx
  obtain ⟨r, hr, rfl⟩ := mem_tableResults_iff.1 hx
  obtain ⟨h, hh⟩ := hk.exists_head hr
  rw [hh]
  rfl

theorem clean_dataVersion (hk : s.Keeps σ) (t : TableId) (v : Version) :
    Clean (s.dataVersion t v) := by
  cases hr : s.get? (.tableVersion t v) with
  | none =>
    unfold dataVersion read?
    rw [hr]
    exact clean_error rfl
  | some r =>
    obtain ⟨d, hd, _⟩ := hk.versionRecord t v r hr
    exact clean_of_eq_ok (dataVersion_eq_ok_iff.2 ⟨r, hr, hd⟩)

/-- A schema version is read, or there is no record of it. -/
theorem missing_of_schema (hk : s.Keeps σ) {t : TableId} {v : SchemaVersion} {e : Error}
    (h : s.schema t v = .error e) :
    s.get? (.schemaVersion t v) = none ∧ e = .catalog (.missingRecord (.schemaVersion t v)) := by
  cases hr : s.get? (.schemaVersion t v) with
  | none =>
    unfold Store.schema require at h
    rw [hr] at h
    cases h
    exact ⟨rfl, rfl⟩
  | some r =>
    obtain ⟨k, hdecode, _⟩ := hk.schemaRecord t v r hr
    rw [schema_eq_ok_iff.2 ⟨r, hr, hdecode⟩] at h
    cases h

end Store.Keeps

namespace Catalog.Sound

variable {c : Catalog} {σ : Ledgers}

theorem clean_retainedVersions (hc : c.Sound σ) (t : TableId) :
    Clean (c.store.retainedVersions t) := by
  cases hl : σ t with
  | none => exact hc.keeps.store.retainedVersions_eq_error hl ▸ clean_error rfl
  | some l =>
    exact clean_of_eq_ok (hc.keeps.store.retainedVersions_eq hl (hc.keeps.sound t l hl))

theorem clean_snapshot (hc : c.Sound σ) (t : TableId) (version : Option Version) :
    Clean (c.store.snapshot t version) := by
  refine (hc.keeps.store.clean_table t).bind fun x hx => ?_
  refine (hc.clean_retainedVersions t).bind fun rs _ => ?_
  obtain ⟨l, hl, rfl⟩ := hc.keeps.store.exists_ledger hx
  dsimp only
  rw [hc.keeps.store.snapshotAt_eq hl (hc.keeps.sound t l hl)]
  split
  · split
    · exact clean_ok _
    · exact clean_error rfl
  · exact clean_error rfl

/-! ### Bases -/

/-- The bases of a table that exists can be read. -/
theorem provides_of_table (hc : c.Sound σ) {t : TableId} {x : Table} (hx : c.store.table t = .ok x)
    {b : TableId × Option Version} (hb : b ∈ x.head.chain) : σ.Provides b := by
  obtain ⟨l, hl, rfl⟩ := hc.keeps.store.exists_ledger hx
  exact hc.based.provides hl hb

theorem clean_effectiveSchema (hc : c.Sound σ) (t : TableId) (version : Option Version) :
    Clean (c.store.effectiveSchema t version) := by
  refine (hc.keeps.store.clean_table t).bind fun x hx => ?_
  refine (hc.clean_snapshot t version).bind fun _ _ => ?_
  have hinherited := hc.keeps.inheritedColumns_eq fun _ hb => hc.provides_of_table hx hb
  exact (clean_of_eq_ok hinherited).bind fun _ _ => clean_ok _

/-- The columns that a draft sees can be read, if its bases can. -/
theorem clean_visibleColumns (hc : c.Sound σ) {d : Draft}
    (hb : ∀ b ∈ d.head.chain, σ.Provides b) : Clean (c.visibleColumns d) :=
  (clean_of_eq_ok (hc.keeps.inheritedColumns_eq hb)).bind fun _ _ => clean_ok _

/-- Bases that can be read can be fixed. -/
theorem exists_pinAll (hc : c.Sound σ) {bases : List (TableId × Option Version)}
    (hb : ∀ b ∈ bases, σ.Provides b) : ∃ pinned, c.store.pinAll bases = .ok pinned := by
  induction bases with
  | nil => exact ⟨[], rfl⟩
  | cons b bases ih =>
    obtain ⟨t, v⟩ := b
    obtain ⟨more, hmore⟩ := ih fun b hmem => hb b (List.mem_cons_of_mem _ hmem)
    cases v with
    | some v => exact ⟨(t, some v) :: more, bind_eq_ok_iff.2 ⟨more, hmore, rfl⟩⟩
    | none =>
      obtain ⟨l, hl, _⟩ := hb (t, none) List.mem_cons_self
      have htable := hc.keeps.store.head t l hl
      exact ⟨(t, some l.head.version) :: more,
        bind_eq_ok_iff.2 ⟨_, htable, bind_eq_ok_iff.2 ⟨more, hmore, rfl⟩⟩⟩

theorem clean_resolveBases (hc : c.Sound σ) {base : Table}
    (hbase : c.store.table base.id = .ok base) (isSnapshot : Bool) (version : Option Version) :
    Clean (c.store.resolveBases base isSnapshot version) := by
  obtain ⟨pinned, hpinned⟩ := hc.exists_pinAll fun _ hb => hc.provides_of_table hbase hb
  unfold Store.resolveBases
  dsimp only
  split
  · refine (hc.clean_snapshot base.id _).bind fun _ _ => ?_
    exact (clean_of_eq_ok hpinned).bind fun _ _ => clean_ok _
  · refine clean_guard rfl fun _ => ?_
    split
    · exact clean_error rfl
    · exact clean_ok _

/-! ### Columns to reclaim -/

/-- The columns to reclaim can be told of every table that exists. -/
theorem exists_reclaimCandidates (hc : c.Sound σ) {t : TableId} {x : Table}
    (hx : c.store.table t = .ok x) : ∃ cs, (c.store.reclaimCandidates t).result = .ok cs := by
  obtain ⟨l, hl, rfl⟩ := hc.keeps.store.exists_ledger hx
  exact hc.keeps.exists_reclaimCandidates hc.based hl

theorem clean_reclaimCandidates (hc : c.Sound σ) (t : TableId) :
    Clean (c.store.reclaimCandidates t).result := by
  cases hx : c.store.table t with
  | error e =>
    have herror : (c.store.reclaimCandidates t).result = .error e := by
      simp only [Store.reclaimCandidates, hx, bind, Except.bind]
    exact herror ▸ clean_error (hc.keeps.store.clean_table t e hx)
  | ok x =>
    obtain ⟨cs, hcs⟩ := hc.exists_reclaimCandidates hx
    exact clean_of_eq_ok hcs

end Catalog.Sound
end Cadastre
