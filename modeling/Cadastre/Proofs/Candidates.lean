/-
# What can be reclaimed

The columns to reclaim are those that were dropped no later than the schema
version that any reachable data version is read with
(`Store.ReadsFrom.mem_reclaimCandidates_iff`). What is chosen depends on the
table's own records and on the snapshots that can be read, so this holds of a
store with damaged heads as well.

If no snapshot names the table, only the versions that stay readable count, and
nothing is held back: every column that was dropped and that none of these
versions shows can be reclaimed (`Catalog.leaksNothing`). A drop after the
first of them would leave one that shows the column: the versions that stay
readable run on to the current one, their schema versions do so without a gap,
and a column lives up to the schema version that dropped it.

Key definitions: `Store.ReadsFrom`, `Store.IsPinned`.
Key theorems: `Ledger.Sound.mem_reclaimable_iff`, `Catalog.Keeps.readsFrom`,
`Store.ReadsFrom.mem_reclaimCandidates_iff`,
`Ledger.Sound.exists_retained_of_dropped`, `Catalog.leaksNothing`.
-/
import Cadastre.Proofs.Bases
import Cadastre.Proofs.Reclaim

namespace Cadastre

/-! ### Choosing from a ledger -/

theorem mem_of_leastOf {vs : List SchemaVersion} {m : SchemaVersion} (h : leastOf vs = some m) :
    m ∈ vs := by
  induction vs generalizing m with
  | nil => cases h
  | cons v vs ih =>
    unfold leastOf at h
    split at h
    · cases h
      exact List.mem_cons_self
    · rename_i w hw
      cases h
      rcases Nat.le_total v w with hle | hle
      · rw [Nat.min_eq_left hle]
        exact List.mem_cons_self
      · rw [Nat.min_eq_right hle]
        exact List.mem_cons_of_mem v (ih hw)

/-- A column was dropped before the least of the versions if it was dropped
before all of them. -/
theorem droppedBefore_leastOf {vs : List SchemaVersion} {e : ColumnLife} {d : SchemaVersion}
    (hd : e.dropped = some d) (hle : ∀ v ∈ vs, d ≤ v) : droppedBefore (leastOf vs) e = true := by
  unfold droppedBefore
  rw [hd]
  cases hm : leastOf vs with
  | none => rfl
  | some m => exact decide_eq_true (hle m (mem_of_leastOf hm))

namespace Ledger.Sound

variable {l : Ledger} (hs : l.Sound)
include hs

/-- No schema version from its drop on holds a column. -/
theorem notMem_of_dropped {id : ColumnId} {e : ColumnLife}
    (he : l.head.history.get? id = some e) {d : SchemaVersion} (hd : e.dropped = some d)
    {v : SchemaVersion} (hv : d ≤ v) {k : Schema} (hk : l.schemas[v]? = some k) :
    id ∉ k.columns.keys := by
  intro hmem
  obtain ⟨e', he', hlives⟩ := (hs.chronicle.member v k hk id).1 hmem
  rw [he] at he'
  cases he'
  exact Nat.lt_irrefl d (Nat.lt_of_le_of_lt hv (hlives.2 d hd))

/-- The columns to reclaim are those that were dropped no later than any of the
reachable schema versions. -/
theorem mem_reclaimable_iff {rs : List DataVersion} {ps : List SchemaVersion} {id : ColumnId} :
    id ∈ reclaimable l.head.history l.schemas rs ps ↔
      ∃ e d, l.head.history.get? id = some e ∧ e.dropped = some d ∧
        ∀ v ∈ rs.map (·.schemaVersion) ++ ps, d ≤ v := by
  constructor
  · intro h
    obtain ⟨i, e, d, he, hcolumn, hd, hle⟩ := exists_drop_of_mem_reclaimable h
    have hi : i = id := (hs.chronicle.recorded i e he).filed.symm.trans hcolumn
    exact ⟨e, d, hi ▸ he, hd, hle⟩
  · rintro ⟨e, d, he, hd, hle⟩
    have hvalue : e ∈ l.head.history.values :=
      List.mem_map.2 ⟨(id, e), l.head.history.mem_entries_iff.2 he, rfl⟩
    have hdropped : e ∈ l.head.history.values.filter
        (droppedBefore (leastOf (rs.map (·.schemaVersion) ++ ps))) :=
      List.mem_filter.2 ⟨hvalue, droppedBefore_leastOf hd hle⟩
    refine List.mem_filter.2
      ⟨List.mem_map.2 ⟨e, hdropped, (hs.chronicle.recorded id e he).filed⟩, ?_⟩
    -- what is dropped by then is in no reachable schema version
    rw [Bool.not_eq_true', ← Bool.not_eq_true, List.contains_iff_mem]
    intro hused
    obtain ⟨k, hk, hmem⟩ := List.mem_flatMap.1 hused
    obtain ⟨hlisted, hreachable⟩ := List.mem_filter.1 hk
    obtain ⟨i, hi⟩ := List.mem_iff_getElem?.1 hlisted
    have hdi : d ≤ i := by
      rw [← hs.linked.numbered i k hi]
      exact hle _ (List.contains_iff_mem.1 hreachable)
    exact hs.notMem_of_dropped he hd hdi hi hmem

/-- The columns to reclaim are listed in increasing order. -/
theorem pairwise_reclaimable (rs : List DataVersion) (ps : List SchemaVersion) :
    (reclaimable l.head.history l.schemas rs ps).Pairwise (· < ·) := by
  have hcolumns : l.head.history.values.map (·.column) = l.head.history.keys := by
    rw [SortedMap.values, SortedMap.keys, List.map_map]
    refine List.map_congr_left fun entry hentry => ?_
    exact (hs.chronicle.recorded _ _ (l.head.history.mem_entries_iff.1 hentry)).filed
  have hkeys : (l.head.history.values.map (·.column)).Pairwise (· < ·) := by
    rw [hcolumns]
    exact List.pairwise_map.2 l.head.history.sorted
  exact (hkeys.sublist (List.filter_sublist.map _)).filter _

/-- A column that was dropped after a version that stays readable is shown by
one that does. -/
theorem exists_retained_of_dropped {id : ColumnId} {e : ColumnLife}
    (he : l.head.history.get? id = some e) {d : SchemaVersion} (hd : e.dropped = some d)
    {r : DataVersion} (hr : r ∈ l.retained) (hlt : r.schemaVersion < d) :
    ∃ r' ∈ l.retained, ∃ k, l.schemas[r'.schemaVersion]? = some k ∧ id ∈ k.columns.keys := by
  obtain ⟨hadded, hdropped⟩ := (hs.chronicle.recorded id e he).dropped d hd
  obtain ⟨current, hcurrent⟩ := hs.exists_schema (Nat.le_refl _)
  obtain ⟨hr, hfirst⟩ := (hs.mem_retained_iff hcurrent).1 hr
  obtain ⟨i, hi⟩ := List.mem_iff_getElem?.1 hr
  rw [hs.paired.numbered i r hi] at hfirst
  -- the schema version before the drop is that of a later data version
  have hbefore : d - 1 ≤ l.head.schemaVersion := (Nat.sub_le d 1).trans hdropped
  obtain ⟨j, r', hij, hj, hr'⟩ :=
    hs.paired.exists_schemaVersion_eq hi (Nat.le_sub_one_of_lt hlt) hbefore
  have hretained : r' ∈ l.retained := by
    refine (hs.mem_retained_iff hcurrent).2 ⟨List.mem_of_getElem? hj, ?_⟩
    rw [hs.paired.numbered j r' hj]
    exact hfirst.trans hij
  obtain ⟨k, hk⟩ := hs.exists_schema hbefore
  refine ⟨r', hretained, k, hr' ▸ hk, (hs.chronicle.member _ k hk id).2 ⟨e, he, ?_, ?_⟩⟩
  · exact Nat.le_sub_one_of_lt hadded
  · intro d' hd'
    rw [hd] at hd'
    cases hd'
    exact Nat.sub_one_lt_of_lt hadded

end Ledger.Sound

/-! ### Choosing from a store -/

namespace Store

variable {s : Store} {t : TableId} {l : Ledger}

/-- The records of table `t` are those of its ledger, and no others. -/
structure ReadsFrom (s : Store) (t : TableId) (l : Ledger) : Prop where
  sound : l.Sound
  table : s.table t = .ok ⟨t, l.dir, l.head⟩
  schemas : s.schemas t = .ok l.schemas
  retained : s.retainedVersions t = .ok l.retained
  version : ∀ v d, s.dataVersion t v = .ok d ↔ l.versions[v]? = some d

/-- A snapshot has the table among its bases. -/
def IsPinned (s : Store) (t : TableId) : Prop :=
  ∃ w y source v, s.table w = .ok y ∧ y.head.view = some source ∧ source.isSnapshot = true ∧
    (t, v) ∈ source.bases

instance (s : Store) (t : TableId) : Decidable (s.IsPinned t) :=
  decidable_of_iff (∃ y ∈ s.tables, ∃ source ∈ y.head.view, source.isSnapshot = true ∧
      ∃ b ∈ source.bases, b.1 = t) <| by
    constructor
    · rintro ⟨y, hy, source, hview, hsnap, ⟨_, v⟩, hb, rfl⟩
      exact ⟨y.id, y, source, v, mem_tables_iff.1 hy, hview, hsnap, hb⟩
    · rintro ⟨w, y, source, v, hy, hview, hsnap, hb⟩
      refine ⟨y, mem_tables_iff.2 ?_, source, hview, hsnap, (t, v), hb, rfl⟩
      rw [id_of_table hy]
      exact hy

/-- The schema versions of data versions that exist can be listed. -/
theorem exists_schemaVersionsOf {vs : List Version}
    (h : ∀ v ∈ vs, ∃ d, s.dataVersion t v = .ok d) : ∃ ss, s.schemaVersionsOf t vs = .ok ss := by
  induction vs with
  | nil => exact ⟨[], rfl⟩
  | cons v vs ih =>
    obtain ⟨d, hd⟩ := h v List.mem_cons_self
    obtain ⟨more, hmore⟩ := ih fun w hw => h w (List.mem_cons_of_mem _ hw)
    exact ⟨d.schemaVersion :: more, bind_eq_ok_iff.2 ⟨d, hd, bind_eq_ok_iff.2 ⟨more, hmore, rfl⟩⟩⟩

/-- The versions of `t` that snapshots fix are those of the snapshots that can be read. -/
theorem mem_tables_pins_iff {v : Version} : v ∈ s.tables.flatMap (pins t) ↔
    ∃ w y source, s.table w = .ok y ∧ y.head.view = some source ∧ source.isSnapshot = true ∧
      (t, some v) ∈ source.bases := by
  rw [List.mem_flatMap]
  constructor
  · rintro ⟨y, hy, hpin⟩
    obtain ⟨source, hpin⟩ := mem_pins_iff.1 hpin
    exact ⟨y.id, y, source, mem_tables_iff.1 hy, hpin⟩
  · rintro ⟨w, y, source, hy, hpin⟩
    refine ⟨y, mem_tables_iff.2 ?_, mem_pins_iff.2 ⟨source, hpin⟩⟩
    rw [id_of_table hy]
    exact hy

namespace ReadsFrom

variable (h : s.ReadsFrom t l)
include h

/-- A version that stays readable is read as it is listed. -/
theorem dataVersion_of_retained {r : DataVersion} (hr : r ∈ l.retained) :
    s.dataVersion t r.version = .ok r := by
  obtain ⟨current, hcurrent⟩ := h.sound.exists_schema (Nat.le_refl _)
  obtain ⟨i, hi⟩ := List.mem_iff_getElem?.1 ((h.sound.mem_retained_iff hcurrent).1 hr).1
  rw [h.sound.paired.numbered i r hi]
  exact (h.version i r).2 hi

/-- The schema versions that the columns are chosen by are those of the
reachable versions. -/
theorem mem_reachable_iff {ps : List SchemaVersion} (hps : s.pinnedSchemas t = .ok ps)
    {v : SchemaVersion} : v ∈ l.retained.map (·.schemaVersion) ++ ps ↔
      ∃ w d, s.IsReachable t w ∧ s.dataVersion t w = .ok d ∧ d.schemaVersion = v := by
  rw [List.mem_append, List.mem_map, mem_schemaVersionsOf_iff hps]
  constructor
  · rintro (⟨r, hr, rfl⟩ | ⟨w, hw, d, hd, rfl⟩)
    · exact ⟨r.version, r, .inl ⟨_, r, h.retained, hr, rfl⟩, h.dataVersion_of_retained hr, rfl⟩
    · exact ⟨w, d, .inr (mem_tables_pins_iff.1 hw), hd, rfl⟩
  · rintro ⟨w, d, hw, hd, rfl⟩
    rcases hw with ⟨rs, r, hrs, hr, rfl⟩ | hpin
    · rw [h.retained] at hrs
      cases hrs
      rw [h.dataVersion_of_retained hr] at hd
      cases hd
      exact .inl ⟨d, hr, rfl⟩
    · exact .inr ⟨w, mem_tables_pins_iff.2 hpin, d, hd, rfl⟩

/-- The columns to reclaim can be told if no snapshot fixes a version past the
current one. -/
theorem exists_reclaimCandidates
    (hpins : ∀ v ∈ s.tables.flatMap (pins t), v ≤ l.head.version) :
    ∃ cs, (s.reclaimCandidates t).result = .ok cs := by
  obtain ⟨ps, hps⟩ : ∃ ps, s.pinnedSchemas t = .ok ps := by
    refine exists_schemaVersionsOf fun v hv => ?_
    obtain ⟨d, hd⟩ := h.sound.exists_version (hpins v hv)
    exact ⟨d, (h.version v d).2 hd⟩
  simp only [reclaimCandidates, h.table, h.schemas, h.retained, hps, bind, Except.bind]
  exact ⟨_, rfl⟩

theorem reclaimCandidates_eq {cs : List ColumnId} (hcs : (s.reclaimCandidates t).result = .ok cs) :
    ∃ ps, s.pinnedSchemas t = .ok ps ∧
      cs = reclaimable l.head.history l.schemas l.retained ps := by
  obtain ⟨x, ks, rs, ps, hx, hks, hrs, hps, rfl⟩ := reclaimCandidates_eq_ok hcs
  rw [h.table] at hx
  rw [h.schemas] at hks
  rw [h.retained] at hrs
  cases hx
  cases hks
  cases hrs
  exact ⟨ps, hps, rfl⟩

/-- The columns to reclaim are those that were dropped no later than the schema
version of any reachable version. -/
theorem mem_reclaimCandidates_iff {cs : List ColumnId}
    (hcs : (s.reclaimCandidates t).result = .ok cs) {id : ColumnId} :
    id ∈ cs ↔ ∃ e d, l.head.history.get? id = some e ∧ e.dropped = some d ∧
      ∀ v r, s.IsReachable t v → s.dataVersion t v = .ok r → d ≤ r.schemaVersion := by
  obtain ⟨ps, hps, rfl⟩ := h.reclaimCandidates_eq hcs
  rw [h.sound.mem_reclaimable_iff]
  refine exists_congr fun e => exists_congr fun d => and_congr_right fun _ =>
    and_congr_right fun _ => ?_
  constructor
  · intro hle v r hv hr
    exact hle _ ((h.mem_reachable_iff hps).2 ⟨v, r, hv, hr, rfl⟩)
  · intro hle v hv
    obtain ⟨w, r, hw, hr, rfl⟩ := (h.mem_reachable_iff hps).1 hv
    exact hle w r hw hr

theorem pairwise_reclaimCandidates {cs : List ColumnId}
    (hcs : (s.reclaimCandidates t).result = .ok cs) : cs.Pairwise (· < ·) := by
  obtain ⟨ps, -, rfl⟩ := h.reclaimCandidates_eq hcs
  exact h.sound.pairwise_reclaimable _ _

end ReadsFrom

/-- A version that a snapshot fixes is one of the ledger of its table. -/
theorem Keeps.exists_of_mem_pins {σ : Ledgers} (hk : s.Keeps σ) (hσ : σ.Based) {v : Version}
    (hv : v ∈ s.tables.flatMap (pins t)) : ∃ l, σ t = some l ∧ v ≤ l.head.version := by
  obtain ⟨w, y, source, hy, hview, _, hbase⟩ := mem_tables_pins_iff.1 hv
  obtain ⟨m, hm, rfl⟩ := hk.exists_ledger hy
  obtain ⟨l, hl, hle⟩ := hσ w m source hm hview _ hbase
  exact ⟨l, hl, hle v rfl⟩

end Store

namespace Catalog.Keeps

variable {c : Catalog} {σ : Ledgers} {t : TableId} {l : Ledger}

/-- A table is read from its ledger. -/
theorem readsFrom (hc : c.Keeps σ) (hl : σ t = some l) : c.store.ReadsFrom t l where
  sound := hc.sound t l hl
  table := hc.store.head t l hl
  schemas := by
    have hs := hc.sound t l hl
    obtain ⟨ks, hks⟩ := hc.store.exists_schemas t
    -- there are no schema versions past the current one
    have hall : ks.filter (fun k => k.version ≤ l.head.schemaVersion) = ks := by
      refine List.filter_eq_self.2 fun k hk => ?_
      obtain ⟨v, _, hread⟩ := (Store.mem_schemas_iff hks).1 hk
      have hlisted := hc.schema_of_read hl hread
      have hlt : v < l.schemas.length := (List.getElem?_eq_some_iff.1 hlisted).1
      rw [hs.chronicle.length] at hlt
      rw [hc.store.version_of_schema hread]
      exact decide_eq_true (Nat.le_of_lt_succ hlt)
    rw [← hc.store.filter_schemas hl hs hks, hall, hks]
  retained := hc.store.retainedVersions_eq hl (hc.sound t l hl)
  version v d := ⟨hc.version_of_read hl, hc.store.version t l v d hl⟩

/-- No snapshot fixes a version of a table past its current one. -/
theorem le_of_mem_pins (hc : c.Keeps σ) (hσ : σ.Based) (hl : σ t = some l) :
    ∀ v ∈ c.store.tables.flatMap (Store.pins t), v ≤ l.head.version := by
  intro v hv
  obtain ⟨m, hm, hle⟩ := hc.store.exists_of_mem_pins hσ hv
  rw [hl] at hm
  cases hm
  exact hle

/-- The columns to reclaim can be told of every table that exists. -/
theorem exists_reclaimCandidates (hc : c.Keeps σ) (hσ : σ.Based) (hl : σ t = some l) :
    ∃ cs, (c.store.reclaimCandidates t).result = .ok cs :=
  (hc.readsFrom hl).exists_reclaimCandidates (hc.le_of_mem_pins hσ hl)

/-- If no snapshot names the table, the columns to reclaim are the dropped ones
that no version that stays readable shows. -/
theorem mem_reclaimCandidates_iff (hc : c.Keeps σ) (hl : σ t = some l)
    (hfree : ¬ c.store.IsPinned t) {cs : List ColumnId}
    (hcs : (c.store.reclaimCandidates t).result = .ok cs) {id : ColumnId} :
    id ∈ cs ↔ (∃ e, l.head.history.get? id = some e ∧ e.isDropped = true) ∧
      ∀ r ∈ l.retained, ∀ k, l.schemas[r.schemaVersion]? = some k → id ∉ k.columns.keys := by
  have hs := hc.sound t l hl
  have hreads := hc.readsFrom hl
  rw [hreads.mem_reclaimCandidates_iff hcs]
  constructor
  · rintro ⟨e, d, he, hd, hle⟩
    refine ⟨⟨e, he, Option.isSome_iff_exists.2 ⟨d, hd⟩⟩, fun r hr k hk => ?_⟩
    have hread := hreads.dataVersion_of_retained hr
    exact hs.notMem_of_dropped he hd (hle _ r (.inl ⟨_, r, hreads.retained, hr, rfl⟩) hread) hk
  · rintro ⟨⟨e, he, hdropped⟩, hunseen⟩
    obtain ⟨d, hd⟩ := Option.isSome_iff_exists.1 hdropped
    refine ⟨e, d, he, hd, fun v r hv hr => ?_⟩
    rcases hv with ⟨rs, r', hrs, hr', rfl⟩ | ⟨w, y, source, hy, hview, hsnap, hb⟩
    · rw [hreads.retained] at hrs
      cases hrs
      rw [hreads.dataVersion_of_retained hr'] at hr
      cases hr
      by_contra hlt
      obtain ⟨r₀, hr₀, k, hk, hmem⟩ :=
        hs.exists_retained_of_dropped he hd hr' (Nat.lt_of_not_le hlt)
      exact hunseen r₀ hr₀ k hk hmem
    · exact absurd ⟨w, y, source, some v, hy, hview, hsnap, hb⟩ hfree

end Catalog.Keeps

/-- After any run, of a table or view that no snapshot names, the columns to
reclaim are exactly the dropped ones that no version that stays readable shows,
in increasing order. -/
theorem Catalog.leaksNothing {config : Config} {registry : Registry} {as : List Action}
    (ha : (fresh config registry).Admits as) {t : TableId} {x : Table}
    (hx : ((fresh config registry).after as).store.table t = .ok x)
    (hfree : ¬ ((fresh config registry).after as).store.IsPinned t) :
    ∃ cs rs,
      (((fresh config registry).after as).store.reclaimCandidates t).result = .ok cs ∧
      ((fresh config registry).after as).store.retainedVersions t = .ok rs ∧
      (∀ r ∈ rs, ∃ k, ((fresh config registry).after as).store.schema t r.schemaVersion = .ok k) ∧
      cs.Pairwise (· < ·) ∧
      ∀ id, id ∈ cs ↔ (∃ e, x.head.history.get? id = some e ∧ e.isDropped = true) ∧
        ∀ r ∈ rs, ∀ k, ((fresh config registry).after as).store.schema t r.schemaVersion = .ok k →
          id ∉ k.columns.keys := by
  obtain ⟨σ, hc, _, hσ⟩ := (keeps_fresh config registry).after_based Ledgers.based_empty ha
  obtain ⟨l, hl, rfl⟩ := hc.store.exists_ledger hx
  have hs := hc.sound t l hl
  obtain ⟨cs, hcs⟩ := hc.exists_reclaimCandidates hσ hl
  have hreads := hc.readsFrom hl
  refine ⟨cs, l.retained, hcs, hreads.retained, fun r hr => ?_,
    hreads.pairwise_reclaimCandidates hcs, fun id => ?_⟩
  · have hread := (hreads.version _ r).1 (hreads.dataVersion_of_retained hr)
    obtain ⟨k, hk⟩ := hs.exists_schema (hs.paired.schemaVersion_le hread)
    exact ⟨k, hc.store.schema t l _ k hl hk⟩
  · rw [hc.mem_reclaimCandidates_iff hl hfree hcs]
    refine and_congr_right fun _ => forall_congr' fun r => forall_congr' fun _ =>
      forall_congr' fun k => ?_
    exact imp_congr_left ⟨hc.store.schema t l _ k hl, hc.schema_of_read hl⟩

/-- Two versions stay readable; one column is dropped before them, another one
with the last of them. -/
def Sample.turnover : List Action := [
  .perform 2 (.setRetention people 0 2),
  .perform 3 (.dropColumn people 1 "nick"),
  .perform 4 (.addColumn people 2 { name := "born", type := .string }),
  .perform 5 (.dropColumn people 3 "born")]

theorem Sample.leaksNothing_people :
    Sample.start.Admits (Sample.creation ++ Sample.turnover) ∧
      ¬ (Sample.start.after (Sample.creation ++ Sample.turnover)).store.IsPinned Sample.people ∧
      ∃ x, (Sample.start.after (Sample.creation ++ Sample.turnover)).store.table Sample.people =
        .ok x ∧
      ∃ cs rs,
        ((Sample.start.after (Sample.creation ++ Sample.turnover)).store.reclaimCandidates
          Sample.people).result = .ok cs ∧
        (Sample.start.after (Sample.creation ++ Sample.turnover)).store.retainedVersions
          Sample.people = .ok rs ∧
        (∀ r ∈ rs, ∃ k, (Sample.start.after (Sample.creation ++ Sample.turnover)).store.schema
          Sample.people r.schemaVersion = .ok k) ∧
        cs.Pairwise (· < ·) ∧
        ∀ id, id ∈ cs ↔ (∃ e, x.head.history.get? id = some e ∧ e.isDropped = true) ∧
          ∀ r ∈ rs, ∀ k, (Sample.start.after (Sample.creation ++ Sample.turnover)).store.schema
            Sample.people r.schemaVersion = .ok k → id ∉ k.columns.keys := by
  have ha : Sample.start.Admits (Sample.creation ++ Sample.turnover) := by decide +kernel
  have hfree : ¬ (Sample.start.after (Sample.creation ++ Sample.turnover)).store.IsPinned
      Sample.people := by decide +kernel
  have htable : ((Sample.start.after (Sample.creation ++ Sample.turnover)).store.table
      Sample.people).toOption.isSome = true := by decide +kernel
  obtain ⟨x, hx⟩ := Option.isSome_iff_exists.1 htable
  exact ⟨ha, hfree, x, eq_ok_of_toOption hx,
    Catalog.leaksNothing ha (eq_ok_of_toOption hx) hfree⟩

/-- Of the two columns that were dropped only the first one can be reclaimed. -/
example : ((Sample.start.after (Sample.creation ++ Sample.turnover)).store.reclaimCandidates
    Sample.people).result.toOption = some [1] := by decide +kernel

end Cadastre
