/-
# What a scan finds

The versions of a table lie together in the order of the keys, so a scan of
them finds the versions that a look-up finds, up to the last one that it
reaches, in increasing order. The list of all tables holds exactly the tables
that are found by their identifiers.

Key theorems: `Store.scan_congr`, `Store.mem_dataVersions_iff`,
`Store.Keeps.pairwise_dataVersions`, `Store.mem_schemas_iff`, `Store.mem_tables_iff`,
`Store.Keeps.mem_retainedVersions`.
-/
import Cadastre.Proofs.Ledger

namespace Cadastre

/-! ### Ranges of keys -/

/-- Keys that are not behind another one, by their parts. -/
theorem Key.eq_or_lt_iff {a b : Key} : a = b ∨ a < b ↔ a.kind < b.kind ∨ (a.kind = b.kind ∧
    (a.owner < b.owner ∨ (a.owner = b.owner ∧ a.version ≤ b.version))) := by
  rw [lt_def]
  constructor
  · rintro (rfl | h) <;> omega
  · intro h
    by_cases heq : a.kind = b.kind ∧ a.owner = b.owner ∧ a.version = b.version
    · exact .inl (eq_of_parts heq.1 heq.2.1 heq.2.2)
    · right
      omega

namespace KeyRange

theorem contains_iff {r : KeyRange} {k : Key} :
    r.contains k = true ↔ (r.first = k ∨ r.first < k) ∧ (k = r.last ∨ k < r.last) := by
  simp [contains]

theorem contains_tableVersions_iff {t : TableId} {k : Key} :
    (tableVersions t).contains k = true ↔ ∃ v, v ≤ maxVersion ∧ k = .tableVersion t v := by
  rw [contains_iff, Key.eq_or_lt_iff, Key.eq_or_lt_iff]
  cases k <;> simp [tableVersions, Key.kind, Key.owner, Key.version, Uuid.eq_iff]
  omega

theorem contains_schemaVersions_iff {t : TableId} {k : Key} :
    (schemaVersions t).contains k = true ↔ ∃ v, v ≤ maxVersion ∧ k = .schemaVersion t v := by
  rw [contains_iff, Key.eq_or_lt_iff, Key.eq_or_lt_iff]
  cases k <;> simp [schemaVersions, Key.kind, Key.owner, Key.version, Uuid.eq_iff]
  omega

theorem contains_tables_iff {k : Key} : tables.contains k = true ↔ ∃ t, k = .table t := by
  rw [contains_iff, Key.eq_or_lt_iff, Key.eq_or_lt_iff]
  cases k with
  | table t =>
    have h := t.value.isLt
    simp [tables, Key.kind, Key.owner, Key.version, Uuid.least, Uuid.greatest]
    omega
  | _ => simp [tables, Key.kind]

theorem contains_dirs_iff {k : Key} : dirs.contains k = true ↔ ∃ d, k = .dir d := by
  rw [contains_iff, Key.eq_or_lt_iff, Key.eq_or_lt_iff]
  cases k with
  | dir d =>
    have h := d.value.isLt
    simp [dirs, Key.kind, Key.owner, Key.version, Uuid.least, Uuid.greatest]
    omega
  | _ => simp [dirs, Key.kind]

end KeyRange

namespace Store

/-! ### Scans of a range -/

/-- A scan depends on the records of its range only. -/
theorem scan_congr {s s' : Store} {r : KeyRange}
    (h : ∀ k, r.contains k = true → s'.get? k = s.get? k) : s'.scan r = s.scan r := by
  refine SortedMap.eq_of_mem_iff (s'.pairwise_scan r) (s.pairwise_scan r) fun ⟨k, x⟩ => ?_
  rw [mem_scan_iff, mem_scan_iff]
  constructor
  · rintro ⟨hx, hk⟩
    exact ⟨(h k hk).symm.trans hx, hk⟩
  · rintro ⟨hx, hk⟩
    exact ⟨(h k hk).trans hx, hk⟩

/-- Keys that differ in their versions only are scanned in the order of the versions. -/
theorem pairwise_version_scan (s : Store) {r : KeyRange}
    (h : ∀ k k', r.contains k = true → r.contains k' = true →
      k.kind = k'.kind ∧ k.owner = k'.owner) :
    (s.scan r).Pairwise fun e f => e.1.version < f.1.version := by
  refine (s.pairwise_scan r).imp_of_mem fun {e f} he hf hlt => ?_
  obtain ⟨hkind, howner⟩ := h e.1 f.1 ((mem_scan_iff s r).1 he).2 ((mem_scan_iff s r).1 hf).2
  rw [Key.lt_def] at hlt
  omega

/-! ### Records that decode one by one -/

section Decode

variable {α : Type} [Payload α] {l : List (Key × Record)} {as : List α}

theorem decodeAll_cons {e : Key × Record} (h : decodeAll α (e :: l) = .ok as) :
    ∃ a as', Payload.decode e.1 e.2.content = .ok a ∧ decodeAll α l = .ok as' ∧ as = a :: as' := by
  obtain ⟨k, r⟩ := e
  cases hd : (Payload.decode k r.content : Except Error α) with
  | error e => simp [decodeAll, hd, bind, Except.bind] at h
  | ok a =>
    cases hl : decodeAll α l with
    | error e => simp [decodeAll, hd, hl, bind, Except.bind] at h
    | ok as' =>
      simp only [decodeAll, hd, hl, bind, Except.bind, Except.ok.injEq] at h
      exact ⟨a, as', rfl, rfl, h.symm⟩

theorem mem_decodeAll_iff (h : decodeAll α l = .ok as) {a : α} :
    a ∈ as ↔ ∃ e ∈ l, Payload.decode e.1 e.2.content = .ok a := by
  induction l generalizing as with
  | nil =>
    cases h
    simp
  | cons e l ih =>
    obtain ⟨b, bs, hb, hbs, rfl⟩ := decodeAll_cons h
    simp only [List.mem_cons, ih hbs, exists_eq_or_imp, hb, Except.ok.injEq]
    exact or_congr_left eq_comm

/-- Contents that carry the versions of their keys increase with the keys. -/
theorem pairwise_decodeAll (h : decodeAll α l = .ok as) {number : α → Nat}
    (hl : l.Pairwise fun e f => e.1.version < f.1.version)
    (hn : ∀ e ∈ l, ∀ a : α, Payload.decode e.1 e.2.content = .ok a → number a = e.1.version) :
    as.Pairwise fun a b => number a < number b := by
  induction l generalizing as with
  | nil =>
    cases h
    exact .nil
  | cons e l ih =>
    obtain ⟨a, as', ha, has, rfl⟩ := decodeAll_cons h
    obtain ⟨hhead, htail⟩ := List.pairwise_cons.1 hl
    refine List.pairwise_cons.2
      ⟨fun b hb => ?_, ih has htail fun f hf => hn f (List.mem_cons_of_mem e hf)⟩
    obtain ⟨f, hf, hfb⟩ := (mem_decodeAll_iff has).1 hb
    rw [hn e List.mem_cons_self a ha, hn f (List.mem_cons_of_mem e hf) b hfb]
    exact hhead f hf

end Decode

/-! ### The versions of a table -/

section Versions

variable {s : Store} {t : TableId}

/-- The data versions are those that a look-up finds, up to the last that a scan reaches. -/
theorem mem_dataVersions_iff {ds : List DataVersion} (h : s.dataVersions t = .ok ds)
    {d : DataVersion} : d ∈ ds ↔ ∃ v ≤ maxVersion, s.dataVersion t v = .ok d := by
  rw [mem_decodeAll_iff h]
  constructor
  · rintro ⟨⟨k, r⟩, he, hd⟩
    obtain ⟨hr, hk⟩ := (mem_scan_iff s _).1 he
    obtain ⟨v, hv, rfl⟩ := KeyRange.contains_tableVersions_iff.1 hk
    exact ⟨v, hv, dataVersion_eq_ok_iff.2 ⟨r, hr, hd⟩⟩
  · rintro ⟨v, hv, hd⟩
    obtain ⟨r, hr, hdec⟩ := dataVersion_eq_ok_iff.1 hd
    have hk : (KeyRange.tableVersions t).contains (.tableVersion t v) = true :=
      KeyRange.contains_tableVersions_iff.2 ⟨v, hv, rfl⟩
    exact ⟨(.tableVersion t v, r), (mem_scan_iff s _).2 ⟨hr, hk⟩, hdec⟩

/-- The schema versions are those that a look-up finds, up to the last that a scan reaches. -/
theorem mem_schemas_iff {ks : List Schema} (h : s.schemas t = .ok ks) {k : Schema} :
    k ∈ ks ↔ ∃ v ≤ maxVersion, s.schema t v = .ok k := by
  rw [mem_decodeAll_iff h]
  constructor
  · rintro ⟨⟨key, r⟩, he, hd⟩
    obtain ⟨hr, hk⟩ := (mem_scan_iff s _).1 he
    obtain ⟨v, hv, rfl⟩ := KeyRange.contains_schemaVersions_iff.1 hk
    exact ⟨v, hv, schema_eq_ok_iff.2 ⟨r, hr, hd⟩⟩
  · rintro ⟨v, hv, hd⟩
    obtain ⟨r, hr, hdec⟩ := schema_eq_ok_iff.1 hd
    have hk : (KeyRange.schemaVersions t).contains (.schemaVersion t v) = true :=
      KeyRange.contains_schemaVersions_iff.2 ⟨v, hv, rfl⟩
    exact ⟨(.schemaVersion t v, r), (mem_scan_iff s _).2 ⟨hr, hk⟩, hdec⟩

theorem Keeps.version_of_dataVersion {σ : Ledgers} (hk : s.Keeps σ) {v : Version} {d : DataVersion}
    (h : s.dataVersion t v = .ok d) : d.version = v := by
  obtain ⟨r, hr, hd⟩ := dataVersion_eq_ok_iff.1 h
  obtain ⟨d', hd', hv⟩ := hk.versionRecord t v r hr
  rw [hd] at hd'
  cases hd'
  exact hv

theorem Keeps.version_of_schema {σ : Ledgers} (hk : s.Keeps σ) {v : SchemaVersion} {k : Schema}
    (h : s.schema t v = .ok k) : k.version = v := by
  obtain ⟨r, hr, hd⟩ := schema_eq_ok_iff.1 h
  obtain ⟨k', hk', hv⟩ := hk.schemaRecord t v r hr
  rw [hd] at hk'
  cases hk'
  exact hv

/-- The data versions increase. -/
theorem Keeps.pairwise_dataVersions {σ : Ledgers} (hk : s.Keeps σ) {ds : List DataVersion}
    (h : s.dataVersions t = .ok ds) : ds.Pairwise fun a b => a.version < b.version := by
  refine pairwise_decodeAll h (s.pairwise_version_scan fun k k' hk hk' => ?_) fun e he a ha => ?_
  · obtain ⟨_, _, rfl⟩ := KeyRange.contains_tableVersions_iff.1 hk
    obtain ⟨_, _, rfl⟩ := KeyRange.contains_tableVersions_iff.1 hk'
    exact ⟨rfl, rfl⟩
  · obtain ⟨hr, hkey⟩ := (mem_scan_iff s _).1 he
    obtain ⟨v, _, hek⟩ := KeyRange.contains_tableVersions_iff.1 hkey
    rw [hek] at hr ha ⊢
    exact hk.version_of_dataVersion (dataVersion_eq_ok_iff.2 ⟨e.2, hr, ha⟩)

/-- The schema versions increase. -/
theorem Keeps.pairwise_schemas {σ : Ledgers} (hk : s.Keeps σ) {ks : List Schema}
    (h : s.schemas t = .ok ks) : ks.Pairwise fun a b => a.version < b.version := by
  refine pairwise_decodeAll h (s.pairwise_version_scan fun k k' hk hk' => ?_) fun e he a ha => ?_
  · obtain ⟨_, _, rfl⟩ := KeyRange.contains_schemaVersions_iff.1 hk
    obtain ⟨_, _, rfl⟩ := KeyRange.contains_schemaVersions_iff.1 hk'
    exact ⟨rfl, rfl⟩
  · obtain ⟨hr, hkey⟩ := (mem_scan_iff s _).1 he
    obtain ⟨v, _, hek⟩ := KeyRange.contains_schemaVersions_iff.1 hkey
    rw [hek] at hr ha ⊢
    exact hk.version_of_schema (schema_eq_ok_iff.2 ⟨e.2, hr, ha⟩)

/-! ### The versions that stay readable -/

theorem retainedVersions_eq_ok_iff {rs : List DataVersion} : s.retainedVersions t = .ok rs ↔
    ∃ x k ds, s.table t = .ok x ∧ s.schema t x.head.schemaVersion = .ok k ∧
      s.dataVersions t = .ok ds ∧
        rs = lastOf k.retained.toNat (ds.filter fun v => v.version ≤ x.head.version) := by
  simp only [retainedVersions, bind_eq_ok_iff, Except.ok.injEq]
  constructor
  · rintro ⟨x, hx, k, hk, ds, hds, rfl⟩
    exact ⟨x, k, ds, hx, hk, hds, rfl⟩
  · rintro ⟨x, k, ds, hx, hk, hds, rfl⟩
    exact ⟨x, hx, k, hk, ds, hds, rfl⟩

theorem dataVersion_of_mem_retainedVersions {σ : Ledgers} (hk : s.Keeps σ)
    {rs : List DataVersion} (h : s.retainedVersions t = .ok rs) {d : DataVersion} (hd : d ∈ rs) :
    d.version ≤ maxVersion ∧ s.dataVersion t d.version = .ok d := by
  obtain ⟨x, k, ds, -, -, hds, rfl⟩ := retainedVersions_eq_ok_iff.1 h
  have hmem : d ∈ ds := (List.mem_filter.1 (List.mem_of_mem_drop hd)).1
  obtain ⟨v, hv, hread⟩ := (mem_dataVersions_iff hds).1 hmem
  rw [hk.version_of_dataVersion hread]
  exact ⟨hv, hread⟩

/-- The greatest element of an increasing list is the last one. -/
theorem mem_lastOf_of_greatest {α : Type} {number : α → Nat} {l : List α} {a : α} {n : Nat}
    (hl : l.Pairwise fun a b => number a < number b) (ha : a ∈ l)
    (hmax : ∀ b ∈ l, number b ≤ number a) (hn : 0 < n) : a ∈ lastOf n l := by
  obtain ⟨xs, ys, rfl⟩ := List.append_of_mem ha
  have hys : ys = [] := by
    cases ys with
    | nil => rfl
    | cons b ys =>
      have hlt : number a < number b :=
        List.rel_of_pairwise_cons (List.pairwise_append.1 hl).2.1 List.mem_cons_self
      exact absurd (hmax b (by simp)) (Nat.not_le.2 hlt)
  subst hys
  have hdrop : (xs ++ [a]).length - n ≤ xs.length := by simp; omega
  rw [lastOf, List.drop_append_of_le_length hdrop]
  exact List.mem_append_right _ (List.mem_singleton.2 rfl)

/-- The current data version stays readable. -/
theorem Keeps.mem_retainedVersions {σ : Ledgers} (hk : s.Keeps σ) {rs : List DataVersion}
    (h : s.retainedVersions t = .ok rs) {x : Table} (hx : s.table t = .ok x)
    (hmax : x.head.version ≤ maxVersion) {d : DataVersion}
    (hd : s.dataVersion t x.head.version = .ok d) : d ∈ rs := by
  obtain ⟨x', k, ds, hx', hschema, hds, rfl⟩ := retainedVersions_eq_ok_iff.1 h
  rw [hx] at hx'
  cases hx'
  have hv : d.version = x.head.version := hk.version_of_dataVersion hd
  have hmem : d ∈ ds := (mem_dataVersions_iff hds).2 ⟨x.head.version, hmax, hd⟩
  have hpos : 0 < k.retained.toNat := by
    have h0 := (sound_of_schema hschema).retained
    rw [← UInt32.toNat_inj.ne] at h0
    exact Nat.pos_of_ne_zero h0
  refine mem_lastOf_of_greatest ((hk.pairwise_dataVersions hds).filter _)
    (List.mem_filter.2 ⟨hmem, by simp [hv]⟩) (fun b hb => ?_) hpos
  have hb : b.version ≤ x.head.version := by simpa using (List.mem_filter.1 hb).2
  rw [hv]
  exact hb

end Versions

/-! ### All tables -/

theorem mem_tableResults_iff {s : Store} {t : TableId} {x : Except Error Table} :
    (t, x) ∈ s.tableResults ↔ ∃ r, s.get? (.table t) = some r ∧
      x = (Payload.decode (.table t) r.content).map fun h => ⟨t, r.dir, h⟩ := by
  rw [tableResults, List.mem_filterMap]
  constructor
  · rintro ⟨⟨key, r⟩, he, hx⟩
    obtain ⟨hr, hk⟩ := (mem_scan_iff s _).1 he
    obtain ⟨u, rfl⟩ := KeyRange.contains_tables_iff.1 hk
    simp only [tableOfRecord?, Option.some.injEq, Prod.mk.injEq] at hx
    obtain ⟨rfl, rfl⟩ := hx
    exact ⟨r, hr, rfl⟩
  · rintro ⟨r, hr, rfl⟩
    have hk : KeyRange.tables.contains (.table t) = true := KeyRange.contains_tables_iff.2 ⟨t, rfl⟩
    exact ⟨(.table t, r), (mem_scan_iff s _).2 ⟨hr, hk⟩, rfl⟩

/-- The listed tables are those that are found by their identifiers. -/
theorem mem_tables_iff {s : Store} {x : Table} : x ∈ s.tables ↔ s.table x.id = .ok x := by
  rw [tables, List.mem_filterMap, table_eq_ok_iff]
  constructor
  · rintro ⟨⟨t, y⟩, hy, hx⟩
    obtain ⟨r, hr, rfl⟩ := mem_tableResults_iff.1 hy
    cases hd : (Payload.decode (.table t) r.content : Except Error TableHead) with
    | error e => simp [hd, Except.map, Except.toOption] at hx
    | ok h =>
      simp only [hd, Except.map, Except.toOption, Option.some.injEq] at hx
      subst hx
      exact ⟨r, hr, hd, rfl⟩
  · rintro ⟨r, hr, hd, hx⟩
    refine ⟨(x.id, .ok x), mem_tableResults_iff.2 ⟨r, hr, ?_⟩, rfl⟩
    rw [hd, Except.map, ← hx]

end Store
end Cadastre
