/-
# Reclaimed columns are out of reach

A column that can be reclaimed is in nothing that can be read: in no snapshot
of its table, and not among the columns that a table, a live view or a snapshot
reads from its bases, however deep the chain of bases is.

A version of the table is read because it is retained, because a snapshot fixes
it, or because it is the current one, which a live view reads and which is
always retained. In each case its schema version is reachable when the columns
to reclaim are chosen, and none of those is in a reachable schema version.

Key definitions: `Store.IsReachable`.
Key theorems: `Store.Keeps.notMem_of_reclaimCandidates`,
`Catalog.unreadable_of_reclaimCandidates`.
-/
import Cadastre.Proofs.Scan
import Cadastre.Proofs.VersionChain
import Cadastre.Store.Reclaim
import Cadastre.Store.View

namespace Cadastre

/-! ### Choosing the columns -/

/-- A column to reclaim is in no reachable schema version. -/
theorem notMem_of_mem_reclaimable {history : SortedMap ColumnId ColumnLife} {schemas : List Schema}
    {retained : List DataVersion} {pinned : List SchemaVersion} {id : ColumnId}
    (h : id ∈ reclaimable history schemas retained pinned) {k : Schema} (hk : k ∈ schemas)
    (hv : k.version ∈ retained.map (·.schemaVersion) ++ pinned) : id ∉ k.columns.keys := by
  intro hid
  have hunused := (List.mem_filter.1 h).2
  rw [Bool.not_eq_true', ← Bool.not_eq_true, List.contains_iff_mem] at hunused
  have hreachable : k ∈ schemas.filter fun s =>
      (retained.map (·.schemaVersion) ++ pinned).contains s.version :=
    List.mem_filter.2 ⟨hk, List.contains_iff_mem.2 hv⟩
  exact hunused (List.mem_flatMap.2 ⟨k, hreachable, hid⟩)

theorem leastOf_le {vs : List SchemaVersion} {v : SchemaVersion} (hv : v ∈ vs) :
    ∃ m, leastOf vs = some m ∧ m ≤ v := by
  induction vs with
  | nil => cases hv
  | cons w vs ih =>
    unfold leastOf
    rcases List.mem_cons.1 hv with rfl | hv
    · cases leastOf vs with
      | none => exact ⟨v, rfl, Nat.le_refl v⟩
      | some m => exact ⟨min v m, rfl, Nat.min_le_left v m⟩
    · obtain ⟨m, hm, hle⟩ := ih hv
      rw [hm]
      exact ⟨min w m, rfl, (Nat.min_le_right w m).trans hle⟩

/-- A column to reclaim was dropped, and no reachable schema version is from
before that. -/
theorem exists_drop_of_mem_reclaimable {history : SortedMap ColumnId ColumnLife}
    {schemas : List Schema} {retained : List DataVersion} {pinned : List SchemaVersion}
    {id : ColumnId} (h : id ∈ reclaimable history schemas retained pinned) :
    ∃ i l d, history.get? i = some l ∧ l.column = id ∧ l.dropped = some d ∧
      ∀ v ∈ retained.map (·.schemaVersion) ++ pinned, d ≤ v := by
  obtain ⟨l, hl, rfl⟩ := List.mem_map.1 (List.mem_filter.1 h).1
  obtain ⟨hvalue, hbefore⟩ := List.mem_filter.1 hl
  obtain ⟨⟨i, l'⟩, hentry, rfl⟩ := List.mem_map.1 hvalue
  have hget : history.get? i = some l' := history.mem_entries_iff.1 hentry
  cases hd : l'.dropped with
  | none => simp [droppedBefore, hd] at hbefore
  | some d =>
    refine ⟨i, l', d, hget, rfl, hd, fun v hv => ?_⟩
    obtain ⟨m, hm, hle⟩ := leastOf_le hv
    have hdm : d ≤ m := by simpa [droppedBefore, hd, hm] using hbefore
    exact hdm.trans hle

namespace Store

variable {s : Store} {t : TableId}

theorem reclaimCandidates_eq_ok {cs : List ColumnId} (h : (s.reclaimCandidates t).result = .ok cs) :
    ∃ x ks rs ps, s.table t = .ok x ∧ s.schemas t = .ok ks ∧ s.retainedVersions t = .ok rs ∧
      s.pinnedSchemas t = .ok ps ∧ cs = reclaimable x.head.history ks rs ps := by
  unfold reclaimCandidates at h
  simp only at h
  split at h
  · cases h
  · rename_i x ks rs hown
    obtain ⟨y, hx, hown⟩ := bind_eq_ok_iff.1 hown
    obtain ⟨ls, hks, hown⟩ := bind_eq_ok_iff.1 hown
    obtain ⟨qs, hrs, hown⟩ := bind_eq_ok_iff.1 hown
    cases hown
    split at h
    · cases h
    · rename_i ps hps
      cases h
      exact ⟨x, ks, rs, ps, hx, hks, hrs, hps, rfl⟩

/-- The schema versions of data versions are those that the versions are read with. -/
theorem mem_schemaVersionsOf_iff {vs : List Version} {ss : List SchemaVersion}
    (h : s.schemaVersionsOf t vs = .ok ss) {v : SchemaVersion} :
    v ∈ ss ↔ ∃ w ∈ vs, ∃ d, s.dataVersion t w = .ok d ∧ d.schemaVersion = v := by
  induction vs generalizing ss with
  | nil =>
    cases h
    simp
  | cons w ws ih =>
    obtain ⟨e, he, h⟩ := bind_eq_ok_iff.1 h
    obtain ⟨more, hmore, h⟩ := bind_eq_ok_iff.1 h
    cases h
    simp only [List.mem_cons, ih hmore, exists_eq_or_imp, he, Except.ok.injEq, exists_eq_left']
    exact or_congr_left eq_comm

/-- A snapshot fixes the versions that its bases have. -/
theorem mem_pins_iff {y : Table} {v : Version} : v ∈ pins t y ↔
    ∃ source, y.head.view = some source ∧ source.isSnapshot = true ∧
      (t, some v) ∈ source.bases := by
  unfold pins
  cases hview : y.head.view with
  | none => simp
  | some source =>
    cases hsnap : source.isSnapshot with
    | false => simp [hsnap]
    | true =>
      simp only [hsnap, if_true, List.mem_filterMap, Option.ite_none_right_eq_some, Prod.exists,
        Option.some.injEq, exists_eq_left', true_and]
      constructor
      · rintro ⟨b, w, hb, rfl, rfl⟩
        exact hb
      · intro hb
        exact ⟨t, some v, hb, rfl, rfl⟩

/-! ### Reading versions -/

theorem snapshotAt_eq_ok {x : Table} {v : Version} {sn : Snapshot}
    (h : s.snapshotAt x v = .ok sn) :
    v ≤ x.head.version ∧ ∃ d k, s.dataVersion x.id v = .ok d ∧
      s.schema x.id d.schemaVersion = .ok k ∧ sn = ⟨x.id, x.head.name, d, k⟩ := by
  unfold snapshotAt at h
  split at h
  · cases h
  · rename_i hv
    obtain ⟨d, hd, h⟩ := bind_eq_ok_iff.1 h
    obtain ⟨k, hk, h⟩ := bind_eq_ok_iff.1 h
    cases h
    exact ⟨Nat.le_of_not_lt hv, d, k, hd, hk, rfl⟩

theorem snapshot_eq_ok {version : Option Version} {sn : Snapshot}
    (h : s.snapshot t version = .ok sn) :
    ∃ x rs r, s.table t = .ok x ∧ s.retainedVersions t = .ok rs ∧ r ∈ rs ∧
      s.snapshotAt x r.version = .ok sn := by
  obtain ⟨x, hx, h⟩ := bind_eq_ok_iff.1 h
  obtain ⟨rs, hrs, h⟩ := bind_eq_ok_iff.1 h
  split at h
  · rename_i hany
    obtain ⟨r, hr, hv⟩ := List.any_eq_true.1 hany
    have hv : r.version = version.getD x.head.version := by simpa using hv
    rw [← hv] at h
    exact ⟨x, rs, r, hx, hrs, hr, h⟩
  · cases h

/-- A column that is read from bases is in the snapshot of one of them. -/
theorem exists_base_of_mem_columnsOf {bases : List (TableId × Option Version)}
    {es : List EffectiveColumn} (h : s.columnsOf bases = .ok es) {e : EffectiveColumn}
    (he : e ∈ es) :
    ∃ b ∈ bases, ∃ x sn, s.table b.1 = .ok x ∧
      s.snapshotAt x (b.2.getD x.head.version) = .ok sn ∧ e ∈ sn.columns := by
  induction bases generalizing es with
  | nil =>
    cases h
    cases he
  | cons b bases ih =>
    obtain ⟨u, v⟩ := b
    obtain ⟨x, hx, h⟩ := bind_eq_ok_iff.1 h
    obtain ⟨sn, hsn, h⟩ := bind_eq_ok_iff.1 h
    obtain ⟨more, hmore, h⟩ := bind_eq_ok_iff.1 h
    cases h
    rcases List.mem_append.1 he with he | he
    · exact ⟨(u, v), List.mem_cons_self, x, sn, hx, hsn, he⟩
    · obtain ⟨b, hb, hrest⟩ := ih hmore he
      exact ⟨b, List.mem_cons_of_mem _ hb, hrest⟩

/-- The columns of a snapshot are those of its schema version, under its table. -/
theorem mem_columns_of_snapshot {sn : Snapshot} {e : EffectiveColumn} (he : e ∈ sn.columns) :
    e.table = sn.table ∧ e.id ∈ sn.schema.columns.keys := by
  obtain ⟨⟨id, c⟩, hc, rfl⟩ := List.mem_map.1 he
  exact ⟨rfl, sn.schema.columns.mem_keys_iff.2 ⟨c, Schema.mem_ordered_iff.1 hc⟩⟩

/-- A column that is read through a table or view is in a snapshot of its table,
or in a version of its table that a view reads as a base. -/
theorem routes_of_mem_effectiveSchema {w : TableId} {version : Option Version}
    {es : List EffectiveColumn} (h : s.effectiveSchema w version = .ok es) {e : EffectiveColumn}
    (he : e ∈ es) :
    (∃ sn, s.snapshot e.table version = .ok sn ∧ e.id ∈ sn.schema.columns.keys) ∨
      ∃ y source v x sn, s.table w = .ok y ∧ y.head.view = some source ∧
        (e.table, v) ∈ source.bases ∧ s.table e.table = .ok x ∧
        s.snapshotAt x (v.getD x.head.version) = .ok sn ∧ e.id ∈ sn.schema.columns.keys := by
  obtain ⟨y, hy, h⟩ := bind_eq_ok_iff.1 h
  obtain ⟨sn, hsn, h⟩ := bind_eq_ok_iff.1 h
  obtain ⟨inherited, hinherited, h⟩ := bind_eq_ok_iff.1 h
  cases h
  rcases List.mem_append.1 he with he | he
  · right
    unfold inheritedColumns at hinherited
    split at hinherited
    · rename_i source hview
      obtain ⟨⟨u, v⟩, hb, x, bsn, hx, hbsn, heb⟩ := exists_base_of_mem_columnsOf hinherited he
      obtain ⟨htable, hmem⟩ := mem_columns_of_snapshot heb
      obtain ⟨_, d, k, _, _, hread⟩ := snapshotAt_eq_ok hbsn
      have hu : e.table = u := by
        rw [htable, hread, id_of_table hx]
      rw [hu]
      exact ⟨y, source, v, x, bsn, hy, hview, List.mem_reverse.1 hb, hx, hbsn, hmem⟩
    · cases hinherited
      cases he
  · left
    obtain ⟨htable, hmem⟩ := mem_columns_of_snapshot he
    obtain ⟨x, rs, r, hx, _, _, hat⟩ := snapshot_eq_ok hsn
    obtain ⟨_, d, k, _, _, hread⟩ := snapshotAt_eq_ok hat
    have hw : e.table = w := by
      rw [htable, hread, id_of_table hx]
    rw [hw]
    exact ⟨sn, hsn, hmem⟩

/-- A data version of a table is reachable: it is retained, or a snapshot fixes it. -/
def IsReachable (s : Store) (t : TableId) (v : Version) : Prop :=
  (∃ rs r, s.retainedVersions t = .ok rs ∧ r ∈ rs ∧ r.version = v) ∨
    ∃ w y source, s.table w = .ok y ∧ y.head.view = some source ∧ source.isSnapshot = true ∧
      (t, some v) ∈ source.bases

/-- The schema version of a reachable version is among those that the columns to
reclaim are chosen by. -/
theorem Keeps.mem_reachable {σ : Ledgers} (hk : s.Keeps σ) {rs : List DataVersion}
    (hrs : s.retainedVersions t = .ok rs) {ps : List SchemaVersion}
    (hps : s.pinnedSchemas t = .ok ps) {v : Version} (hv : s.IsReachable t v) {d : DataVersion}
    (hd : s.dataVersion t v = .ok d) : d.schemaVersion ∈ rs.map (·.schemaVersion) ++ ps := by
  rcases hv with ⟨rs', r, hrs', hr, hrv⟩ | ⟨w, y, source, hy, hview, hsnap, hbase⟩
  · -- a retained version is read as it was scanned
    rw [hrs] at hrs'
    cases hrs'
    have hread := (dataVersion_of_mem_retainedVersions hk hrs hr).2
    rw [hrv, hd] at hread
    cases hread
    exact List.mem_append_left _ (List.mem_map.2 ⟨d, hr, rfl⟩)
  · -- a fixed version is one of the pins of the snapshot
    have hyw : y.id = w := id_of_table hy
    have hpin : v ∈ pins t y := mem_pins_iff.2 ⟨source, hview, hsnap, hbase⟩
    have hpins : v ∈ s.tables.flatMap (pins t) := by
      refine List.mem_flatMap.2 ⟨y, mem_tables_iff.2 ?_, hpin⟩
      rw [hyw]
      exact hy
    exact List.mem_append_right _ ((mem_schemaVersionsOf_iff hps).2 ⟨v, hpins, d, hd, rfl⟩)

/-- A reachable version that is read shows none of the columns to reclaim. -/
theorem Keeps.notMem_of_reclaimCandidates {σ : Ledgers} (hk : s.Keeps σ) {cs : List ColumnId}
    (h : (s.reclaimCandidates t).result = .ok cs) {id : ColumnId} (hid : id ∈ cs) {v : Version}
    (hv : s.IsReachable t v) (hmax : v ≤ maxVersion) {d : DataVersion} {k : Schema}
    (hd : s.dataVersion t v = .ok d) (hschema : s.schema t d.schemaVersion = .ok k) :
    id ∉ k.columns.keys := by
  obtain ⟨x, ks, rs, ps, hx, hks, hrs, hps, rfl⟩ := reclaimCandidates_eq_ok h
  have hdv : d.version = v := hk.version_of_dataVersion hd
  have hle : d.schemaVersion ≤ maxVersion := by
    have hpair := schemaVersion_le_of_dataVersion hd
    rw [hdv] at hpair
    exact Nat.le_trans hpair hmax
  have hmem : k ∈ ks := (mem_schemas_iff hks).2 ⟨d.schemaVersion, hle, hschema⟩
  have hkv : k.version = d.schemaVersion := hk.version_of_schema hschema
  refine notMem_of_mem_reclaimable hid hmem ?_
  rw [hkv]
  exact hk.mem_reachable hrs hps hv hd

end Store

/-! ### Nothing that can be read -/

namespace Catalog.Keeps

variable {c : Catalog} {σ : Ledgers} {t : TableId}

/-- The head of a table stands at a version that a scan reaches. -/
theorem version_le_of_table (hc : c.Keeps σ) {x : Table} (hx : c.store.table t = .ok x) :
    x.head.version ≤ maxVersion := by
  obtain ⟨l, hl, rfl⟩ := hc.store.exists_ledger hx
  exact (hc.sound t l hl).version_le

/-- No snapshot of the table shows a column to reclaim. -/
theorem notMem_of_snapshot (hc : c.Keeps σ) {cs : List ColumnId}
    (h : (c.store.reclaimCandidates t).result = .ok cs) {id : ColumnId} (hid : id ∈ cs)
    {version : Option Version} {sn : Snapshot} (hsn : c.store.snapshot t version = .ok sn) :
    id ∉ sn.schema.columns.keys := by
  obtain ⟨x, rs, r, hx, hrs, hr, hat⟩ := Store.snapshot_eq_ok hsn
  obtain ⟨hle, d, k, hd, hk, rfl⟩ := Store.snapshotAt_eq_ok hat
  rw [Store.id_of_table hx] at hd hk
  have hmax : r.version ≤ maxVersion := Nat.le_trans hle (hc.version_le_of_table hx)
  exact hc.store.notMem_of_reclaimCandidates h hid (.inl ⟨rs, r, hrs, hr, rfl⟩) hmax hd hk

/-- No base of a view shows a column to reclaim, be it fixed or live. -/
theorem notMem_of_base (hc : c.Keeps σ) {cs : List ColumnId}
    (h : (c.store.reclaimCandidates t).result = .ok cs) {id : ColumnId} (hid : id ∈ cs)
    {w : TableId} {y : Table} {source : ViewSource} (hy : c.store.table w = .ok y)
    (hview : y.head.view = some source) {version : Option Version}
    (hbase : (t, version) ∈ source.bases) {x : Table} (hx : c.store.table t = .ok x)
    {sn : Snapshot} (hsn : c.store.snapshotAt x (version.getD x.head.version) = .ok sn) :
    id ∉ sn.schema.columns.keys := by
  obtain ⟨hle, d, k, hd, hk, rfl⟩ := Store.snapshotAt_eq_ok hsn
  rw [Store.id_of_table hx] at hd hk
  have hmaxHead := hc.version_le_of_table hx
  have hmax : version.getD x.head.version ≤ maxVersion := Nat.le_trans hle hmaxHead
  refine hc.store.notMem_of_reclaimCandidates h hid ?_ hmax hd hk
  cases version with
  | some v =>
    -- only a snapshot fixes a version
    have hsnap : source.isSnapshot = true :=
      (((Store.sound_of_table hy).view source hview).fixed _ hbase).symm
    exact .inr ⟨w, y, source, hy, hview, hsnap, hbase⟩
  | none =>
    -- the current version is always retained
    obtain ⟨x', ks, rs, ps, hx', _, hrs, _, _⟩ := Store.reclaimCandidates_eq_ok h
    have hmem : d ∈ rs := hc.store.mem_retainedVersions hrs hx hmaxHead hd
    exact .inl ⟨rs, d, hrs, hmem, hc.store.version_of_dataVersion hd⟩

/-- No column that can be read through any table or view is one to reclaim. -/
theorem ne_of_mem_effectiveSchema (hc : c.Keeps σ) {cs : List ColumnId}
    (h : (c.store.reclaimCandidates t).result = .ok cs) {id : ColumnId} (hid : id ∈ cs)
    {w : TableId} {version : Option Version} {es : List EffectiveColumn}
    (hes : c.store.effectiveSchema w version = .ok es) {e : EffectiveColumn} (he : e ∈ es)
    (ht : e.table = t) : e.id ≠ id := by
  rintro rfl
  subst ht
  rcases Store.routes_of_mem_effectiveSchema hes he with
    ⟨sn, hsn, hmem⟩ | ⟨y, source, v, x, sn, hy, hview, hbase, hx, hsn, hmem⟩
  · exact hc.notMem_of_snapshot h hid hsn hmem
  · exact hc.notMem_of_base h hid hy hview hbase hx hsn hmem

end Catalog.Keeps

/-- After any run, a column that can be reclaimed is in no snapshot of its table
and is read through no table or view. -/
theorem Catalog.unreadable_of_reclaimCandidates {config : Config} {registry : Registry}
    {as : List Action} (ha : (fresh config registry).Admits as) {t : TableId} {cs : List ColumnId}
    (h : (((fresh config registry).after as).store.reclaimCandidates t).result = .ok cs)
    {id : ColumnId} (hid : id ∈ cs) :
    (∀ version sn, ((fresh config registry).after as).store.snapshot t version = .ok sn →
      id ∉ sn.schema.columns.keys) ∧
    (∀ w version es,
      ((fresh config registry).after as).store.effectiveSchema w version = .ok es →
        ∀ e ∈ es, ¬ (e.table = t ∧ e.id = id)) := by
  obtain ⟨σ, hc, _⟩ := exists_course ha
  refine ⟨fun version sn hsn => hc.notMem_of_snapshot h hid hsn, ?_⟩
  intro w version es hes e he hread
  exact hc.ne_of_mem_effectiveSchema h hid hes he hread.1 hread.2

/-- The column that was altered away can be reclaimed, but not the dropped one
that the snapshot still reads. -/
theorem Sample.unreadable_people :
    Sample.start.Admits (Sample.creation ++ Sample.evolution) ∧
      ((Sample.start.after (Sample.creation ++ Sample.evolution)).store.reclaimCandidates
        Sample.people).result = .ok [2] ∧ 2 ∈ [2] ∧
      (∀ version sn, (Sample.start.after (Sample.creation ++ Sample.evolution)).store.snapshot
        Sample.people version = .ok sn → 2 ∉ sn.schema.columns.keys) ∧
      (∀ w version es,
        (Sample.start.after (Sample.creation ++ Sample.evolution)).store.effectiveSchema w version =
          .ok es → ∀ e ∈ es, ¬ (e.table = Sample.people ∧ e.id = 2)) := by
  have ha : Sample.start.Admits (Sample.creation ++ Sample.evolution) := by decide +kernel
  have h : ((Sample.start.after (Sample.creation ++ Sample.evolution)).store.reclaimCandidates
      Sample.people).result = .ok [2] := eq_ok_of_toOption (by decide +kernel)
  have hid : 2 ∈ [2] := List.mem_singleton.2 rfl
  exact ⟨ha, h, hid, Catalog.unreadable_of_reclaimCandidates ha h hid⟩

end Cadastre
