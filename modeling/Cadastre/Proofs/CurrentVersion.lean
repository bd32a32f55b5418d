/-
# The current version and the reach of a scan

Versions are written under their numbers, whatever these are, but a scan of them
reaches the number `maxVersion` and no further. So a table whose current version is
past it has a record of that version, which a look-up by its number finds, and yet
the version is none of those that stay readable, and the table is not read as of now.
Up to `maxVersion` it is. An insertion of rows keeps all records of a plain table
consistent and makes the next version the current one; whether that one is read is
a matter of its number alone (`Catalog.currentVersion_of_insertRows`).

Key definitions: `Store.Consistent`, `Store.ReadsCurrent`.
Key theorems: `Store.Consistent.readsCurrent`, `Store.Consistent.insertRows`,
`Catalog.currentVersion_of_insertRows`.
-/
import Cadastre.Proofs.Attempt
import Cadastre.Proofs.RoundTrip.Records
import Cadastre.Proofs.Window

namespace Cadastre

namespace TableHead

theorem nextColumn_lt_of_ofJson? {j : Json} {h : TableHead} (hread : ofJson? j = some h) :
    h.nextColumn < 2 ^ 32 := by
  simp only [ofJson?, Option.bind_eq_bind, Option.bind_eq_some_iff] at hread
  obtain ⟨ms, _, _, _, _, _, _, _, n, hnext, _, _, _, _, _, _, hh⟩ := hread
  cases hh
  obtain ⟨_, _, hread⟩ := Json.required_eq_some_iff.1 hnext
  exact Json.lt_of_nat32? hread

/-- The head at another version, with the row counter there. -/
def later (h : TableHead) (v : Version) (n : RowId) : TableHead :=
  { h with version := v, nextRow := n }

/-- A head that is read from a record is written as one that can be read. -/
theorem readable_of_decode {key : Key} {j : Json} {h : TableHead}
    (hd : Payload.decode key j = .ok h) : h.Readable := by
  have hsound : h.Sound := flaw?_eq_none_iff.1 (Store.flaw?_of_decode hd)
  unfold Payload.decode at hd
  split at hd
  · cases hd
  · rename_i a hread
    split at hd
    · cases hd
    · cases hd
      exact hsound.readable (nextColumn_lt_of_ofJson? hread)

end TableHead

namespace Store

variable {s : Store} {x : Table} {k : Schema}

/-- The records of a plain table `x`, whose current schema version is `k`: its head and
the schema version can be read, and so can all its data versions, which stand under
their numbers. -/
structure Consistent (s : Store) (x : Table) (k : Schema) : Prop where
  head : s.table x.id = .ok x
  plain : x.head.isView = false
  versions : ∀ v r, s.get? (.tableVersion x.id v) = some r →
    ∃ d : DataVersion, Payload.decode (.tableVersion x.id v) r.content = .ok d ∧ d.version = v
  schema : s.schema x.id x.head.schemaVersion = .ok k

/-- How the current version of table `x`, with schema version `k`, is read. -/
structure ReadsCurrent (s : Store) (x : Table) (k : Schema) : Prop where
  /-- It is found by its number. -/
  stored : ∃ d, s.dataVersion x.id x.head.version = .ok d ∧ d.version = x.head.version
  /-- It stays readable if a scan reaches it. -/
  retained : ∃ ds, s.retainedVersions x.id = .ok ds ∧
    ((∃ d ∈ ds, d.version = x.head.version) ↔ x.head.version ≤ maxVersion)
  /-- Then the table is read as of now, -/
  found : x.head.version ≤ maxVersion → ∃ sn, s.snapshot x.id none = .ok sn ∧
    sn.version.version = x.head.version ∧ sn.schema = k
  /-- and else its own current version is not found. -/
  lost : maxVersion < x.head.version →
    s.snapshot x.id none = .error (.catalog (.versionNotFound x.id x.head.version)) ∧
      (Error.catalog (.versionNotFound x.id x.head.version)).code = "CATALOG_005"

namespace Consistent

theorem version_of_dataVersion (hs : s.Consistent x k) {v : Version} {d : DataVersion}
    (h : s.dataVersion x.id v = .ok d) : d.version = v := by
  obtain ⟨r, hr, hd⟩ := dataVersion_eq_ok_iff.1 h
  obtain ⟨d', hd', hv⟩ := hs.versions v r hr
  rw [hd] at hd'
  cases hd'
  exact hv

/-- All data versions that a scan reaches are read, in increasing order. -/
theorem exists_dataVersions (hs : s.Consistent x k) : ∃ ds, s.dataVersions x.id = .ok ds ∧
    ds.Pairwise fun a b => a.version < b.version := by
  have hkey : ∀ e ∈ s.scan (.tableVersions x.id), ∃ v, e.1 = .tableVersion x.id v ∧
      s.get? e.1 = some e.2 := by
    intro e he
    obtain ⟨hr, hk⟩ := (mem_scan_iff s _).1 he
    obtain ⟨v, _, hv⟩ := KeyRange.contains_tableVersions_iff.1 hk
    exact ⟨v, hv, hr⟩
  obtain ⟨ds, hds⟩ := exists_decodeAll (α := DataVersion) (l := s.scan (.tableVersions x.id))
    fun e he => by
      obtain ⟨v, hv, hr⟩ := hkey e he
      rw [hv] at hr ⊢
      obtain ⟨d, hd, _⟩ := hs.versions v e.2 hr
      exact ⟨d, hd⟩
  refine ⟨ds, hds, pairwise_decodeAll hds (s.pairwise_version_scan fun k k' hk hk' => ?_)
    fun e he a ha => ?_⟩
  · obtain ⟨_, _, rfl⟩ := KeyRange.contains_tableVersions_iff.1 hk
    obtain ⟨_, _, rfl⟩ := KeyRange.contains_tableVersions_iff.1 hk'
    exact ⟨rfl, rfl⟩
  · obtain ⟨v, hv, hr⟩ := hkey e he
    rw [hv] at hr ha ⊢
    exact hs.version_of_dataVersion (dataVersion_eq_ok_iff.2 ⟨e.2, hr, ha⟩)

/-- The current version stays readable if and only if a scan reaches it. -/
theorem exists_retainedVersions (hs : s.Consistent x k) {d : DataVersion}
    (hd : s.dataVersion x.id x.head.version = .ok d) : ∃ ds, s.retainedVersions x.id = .ok ds ∧
      ((∃ d ∈ ds, d.version = x.head.version) ↔ x.head.version ≤ maxVersion) := by
  obtain ⟨ds, hds, horder⟩ := hs.exists_dataVersions
  have hv := hs.version_of_dataVersion hd
  refine ⟨_, retainedVersions_eq_ok_iff.2 ⟨x, k, ds, hs.head, hs.schema, hds, rfl⟩, ?_, ?_⟩
  · rintro ⟨d', hd', hnumber⟩
    obtain ⟨v, hmax, hread⟩ :=
      (mem_dataVersions_iff hds).1 (List.mem_filter.1 (List.mem_of_mem_drop hd')).1
    rw [← hnumber, hs.version_of_dataVersion hread]
    exact hmax
  · intro hmax
    have hmem : d ∈ ds := (mem_dataVersions_iff hds).2 ⟨x.head.version, hmax, hd⟩
    have hpos : 0 < k.retained.toNat := by
      have h0 := (sound_of_schema hs.schema).retained
      rw [← UInt32.toNat_inj.ne] at h0
      exact Nat.pos_of_ne_zero h0
    refine ⟨d, mem_lastOf_of_greatest (horder.filter _)
      (List.mem_filter.2 ⟨hmem, by simp [hv]⟩) (fun b hb => ?_) hpos, hv⟩
    rw [hv]
    simpa using (List.mem_filter.1 hb).2

/-- A consistent table that has a record of its current version reads it if a scan
reaches it, and does not find it else. -/
theorem readsCurrent (hs : s.Consistent x k) {d : DataVersion}
    (hd : s.dataVersion x.id x.head.version = .ok d)
    (hschema : d.schemaVersion = x.head.schemaVersion) : s.ReadsCurrent x k := by
  obtain ⟨ds, hds, hiff⟩ := hs.exists_retainedVersions hd
  have hany : (ds.any fun r => r.version == x.head.version) = true ↔
      x.head.version ≤ maxVersion := by
    rw [← hiff]
    simp
  have hsnapshot : s.snapshot x.id none =
      if x.head.version ≤ maxVersion then s.snapshotAt x x.head.version
      else .error (.catalog (.versionNotFound x.id x.head.version)) := by
    unfold snapshot
    rw [hs.head, hds]
    exact if_congr hany rfl rfl
  have hv := hs.version_of_dataVersion hd
  refine ⟨⟨d, hd, hv⟩, ⟨ds, hds, hiff⟩, fun hmax => ⟨⟨x.id, x.head.name, d, k⟩, ?_, hv, rfl⟩,
    fun hmax => ⟨?_, rfl⟩⟩
  · rw [hsnapshot, if_pos hmax, snapshotAt, if_neg (Nat.lt_irrefl _), hd]
    show (s.schema x.id d.schemaVersion >>= fun schema =>
      Except.ok (Snapshot.mk x.id x.head.name d schema)) = _
    rw [hschema, hs.schema]
    rfl
  · rw [hsnapshot, if_neg (Nat.not_le.2 hmax)]

/-- The records of another version keep a table consistent, if its head stays sound and
keeps the schema version. -/
theorem commit (hs : s.Consistent x k) {now : Float} (hnow : now.isFinite = true) {h : TableHead}
    (hread : h.Readable) (hsound : h.Sound) (hplain : h.isView = false)
    (hschema : h.schemaVersion = x.head.schemaVersion) :
    let s' := s.write (commitWrites x.id x.dir now h none)
    s'.Consistent ⟨x.id, x.dir, h⟩ k ∧
      s'.dataVersion x.id h.version = .ok ⟨now, h.version, h.schemaVersion⟩ := by
  have hview : h.view = none := by simpa [TableHead.isView] using hplain
  have hsettled : h.settled = h :=
    TableHead.settled_eq_self_iff.2 fun v hv => by
      rw [hview] at hv
      cases hv
  refine ⟨⟨?_, hplain, fun v r hr => ?_, ?_⟩, dataVersion_commit_self hnow hsound⟩
  · rw [table_commit_self hread hsound, hsettled]
  · rw [get?_commit_tableVersion] at hr
    split at hr
    · rename_i hv
      cases hr
      exact ⟨_, DataVersion.decode_toJson hnow hsound.versions, hv.2.symm⟩
    · exact hs.versions v r hr
  · rw [schema_commit_of_ne (by simp), hschema]
    exact hs.schema

/-- A later version without a change of the columns has a sound head. -/
theorem sound_later (hs : s.Consistent x k) {v : Version} (hv : x.head.version ≤ v) (n : RowId) :
    (x.head.later v n).Readable ∧ (x.head.later v n).Sound := by
  obtain ⟨r, _, hdecode, _⟩ := table_eq_ok_iff.1 hs.head
  have hread := TableHead.readable_of_decode hdecode
  have hsound := sound_of_table hs.head
  refine ⟨⟨hread.next, hread.columns⟩, Nat.le_trans hsound.versions hv, fun id l hl => ?_,
    hsound.view⟩
  have hentry := hsound.history id l hl
  exact ⟨hentry.filed, hentry.allocated, hentry.added, hentry.dropped⟩

/-- The records of a later version keep a table consistent. -/
theorem commit_later (hs : s.Consistent x k) {now : Float} (hnow : now.isFinite = true)
    {v : Version} (hv : x.head.version ≤ v) (n : RowId) :
    let s' := s.write (commitWrites x.id x.dir now (x.head.later v n) none)
    s'.Consistent ⟨x.id, x.dir, x.head.later v n⟩ k ∧
      s'.dataVersion x.id v = .ok ⟨now, v, x.head.schemaVersion⟩ := by
  obtain ⟨hread, hsound⟩ := hs.sound_later hv n
  exact hs.commit hnow hread hsound hs.plain rfl

end Consistent
end Store

namespace Catalog

variable {c : Catalog} {x : Table} {k : Schema}

/-- The tables of a run are consistent, unless they are views. -/
theorem Keeps.exists_consistent {σ : Ledgers} (hc : c.Keeps σ) (hx : c.store.table x.id = .ok x)
    (hplain : x.head.isView = false) : ∃ k, c.store.Consistent x k := by
  obtain ⟨l, hl, hxl⟩ := hc.store.exists_ledger hx
  obtain ⟨k, hk⟩ := (hc.sound x.id l hl).exists_schema (Nat.le_refl _)
  have hhead : x.head = l.head := by rw [hxl]
  refine ⟨k, hx, hplain, hc.store.versionRecord x.id, ?_⟩
  rw [hhead]
  exact hc.store.schema x.id l _ k hl hk

/-- An insertion into a plain table writes the records of its next version. -/
theorem writes_of_insertRows (hs : c.store.Consistent x k) {now : Float} {n : Nat}
    {p : Plan Outcome} (hp : (Operation.insertRows x.id x.head.version n).plan c now = .ok p) :
    p.writes = commitWrites x.id x.dir now
        (x.head.later (x.head.version + 1) (x.head.nextRow + n)) none ∧
      ∃ rows, p.result = .rows (x.head.version + 1) rows := by
  obtain ⟨q, hq, rfl⟩ := map_eq_ok_iff.1 hp
  obtain ⟨y, hy, hq⟩ := bind_eq_ok_iff.1 hq
  obtain ⟨⟨h, rows⟩, hrows, hq⟩ := bind_eq_ok_iff.1 hq
  cases hq
  obtain ⟨hread, _, _⟩ := mutableTable_eq_ok hy
  rw [hs.head] at hread
  cases hread
  obtain ⟨_, _, hrows⟩ := bind_eq_ok_iff.1 hrows
  split at hrows
  · cases hrows
  · obtain ⟨_, _, hrows⟩ := bind_eq_ok_iff.1 hrows
    cases hrows
    exact ⟨rfl, _, rfl⟩

/-- After rows were inserted into a plain table, its current version is the next one,
and is found by its number. It stays readable and the table is read as of now if that
number is one that a scan reaches; if not, neither is so. -/
theorem currentVersion_of_insertRows (hs : c.store.Consistent x k) {now : Float}
    (hnow : now.isFinite = true) {n : Nat} {o : Outcome}
    (hok : (c.perform now (.insertRows x.id x.head.version n)).1.result = .ok o) :
    let c' := (c.perform now (.insertRows x.id x.head.version n)).2
    (∃ rows, o = .rows (x.head.version + 1) rows) ∧
      ∃ x', x'.id = x.id ∧ c'.store.table x.id = .ok x' ∧
        x'.head.version = x.head.version + 1 ∧ c'.store.ReadsCurrent x' k := by
  obtain ⟨p, hp, rfl, hstore⟩ := exists_plan_of_perform hok
  obtain ⟨hwrites, hanswer⟩ := writes_of_insertRows hs hp
  obtain ⟨hs', hversion⟩ := hs.commit_later hnow (Nat.le_succ _) (x.head.nextRow + n)
  rw [hwrites] at hstore
  rw [← hstore] at hs' hversion
  exact ⟨hanswer, ⟨x.id, x.dir, x.head.later (x.head.version + 1) (x.head.nextRow + n)⟩, rfl,
    hs'.head, rfl, hs'.readsCurrent hversion rfl⟩

end Catalog

/-! ### At the last version that a scan reaches -/

namespace Sample

/-- The small run, after which its table was brought to a later version at once. -/
def aged (v : Version) : Catalog :=
  let c := start.after creation
  match c.store.table people with
  | .error _ => c
  | .ok x =>
    let writes := commitWrites people x.dir 2 (x.head.later v x.head.nextRow) none
    { c with store := c.store.write writes }

/-- Whatever that version is, the table is consistent. -/
theorem exists_consistent_aged (v : Version) : ∃ x k, (aged v).store.Consistent x k ∧
    x.id = people ∧ x.head.version = v := by
  have hadmits : start.Admits creation := by decide +kernel
  obtain ⟨σ, hc, _⟩ := Catalog.exists_course hadmits
  have hread : ((start.after creation).store.table people).toOption.map
      (fun x => (x.head.isView, x.head.version)) = some (false, 0) := by
    decide +kernel
  cases hx : (start.after creation).store.table people with
  | error e =>
    rw [hx] at hread
    cases hread
  | ok x =>
    rw [hx] at hread
    obtain ⟨hplain, hzero⟩ := Prod.mk.inj (Option.some.inj hread)
    have hid : x.id = people := Store.id_of_table hx
    obtain ⟨k, hs⟩ := hc.exists_consistent (hid ▸ hx) hplain
    have htime : Float.isFinite 2 = true := by decide +kernel
    have hle : x.head.version ≤ v := hzero ▸ Nat.zero_le v
    have hlater := (hs.commit_later htime hle x.head.nextRow).1
    refine ⟨⟨x.id, x.dir, x.head.later v x.head.nextRow⟩, k, ?_, hid, rfl⟩
    rw [aged, hx, ← hid]
    exact hlater

/-- One version before the last that a scan reaches, an insertion makes that one the
current version, and it is read. -/
theorem currentVersion_of_aged :
    let c := aged (maxVersion - 1)
    let s' := (c.perform 3 (.insertRows people (maxVersion - 1) 1)).2.store
    ∃ x k, c.store.Consistent x k ∧ x.id = people ∧
      ∃ x', x'.head.version = maxVersion ∧ s'.ReadsCurrent x' k := by
  intro c s'
  obtain ⟨x, k, hs, hid, hversion⟩ := exists_consistent_aged (maxVersion - 1)
  have hsome : (c.perform 3 (.insertRows people (maxVersion - 1) 1)).1.result.toOption.isSome =
      true := by
    decide +kernel
  obtain ⟨o, ho⟩ := Option.isSome_iff_exists.1 hsome
  have hop : Operation.insertRows people (maxVersion - 1) 1 =
      .insertRows x.id x.head.version 1 := by
    rw [hid, hversion]
  have hok : (c.perform 3 (.insertRows x.id x.head.version 1)).1.result = .ok o :=
    hop ▸ eq_ok_of_toOption ho
  obtain ⟨-, x', -, -, hnext, hreads⟩ :=
    Catalog.currentVersion_of_insertRows hs (by decide +kernel) hok
  rw [hversion] at hnext
  rw [← hop] at hreads
  exact ⟨x, k, hs, hid, x', hnext, hreads⟩

/-- At the last version that a scan reaches, far from the end of the counter, an
insertion goes through and its version is not read. -/
theorem unread_of_aged :
    let c := aged maxVersion
    let r := c.perform 3 (.insertRows people maxVersion 1)
    (∃ x k, c.store.Consistent x k ∧ x.id = people ∧ x.head.version = maxVersion) ∧
      maxVersion < 2 ^ 64 - 1 ∧ (∃ o, r.1.result = .ok o) ∧
      ((r.2.store.retainedVersions people).toOption.map fun ds => ds.map (·.version)) =
        some [maxVersion] ∧
      ∃ e, r.2.store.snapshot people none = .error e := by
  intro c r
  have hsome : r.1.result.toOption.isSome = true := by decide +kernel
  obtain ⟨o, ho⟩ := Option.isSome_iff_exists.1 hsome
  exact ⟨exists_consistent_aged maxVersion, by decide, ⟨o, eq_ok_of_toOption ho⟩,
    by decide +kernel, exists_error_of_toOption (by decide +kernel)⟩

end Sample
end Cadastre
