/-
# Stores that keep the same tables

Two stores are alike if they keep the same ledgers, creation times aside, and
have the same heads and the same records that belong to no table. One of them
may have records of versions that no ledger lists. No read of a table or view
finds these: a table, the list of all tables, the versions that stay readable,
a snapshot, the columns that are read through a table, and the columns whose
storage can be reclaimed are the same in both (`Store.Alike.sameReads`).

The scans find such records. The versions past the current one fall to the
head; of the schema versions only the reachable ones count, and these are
paired with versions that a ledger lists (`Store.Alike.reclaimCandidates_eq`).

Key definitions: `Ledger.timeless`, `Store.Alike`, `Store.SameReads`.
Key theorems: `Ledger.Sound.congr`, `Store.Alike.readsAs`,
`Store.Alike.reclaimCandidates_eq`, `Store.Alike.sameReads`.
-/
import Cadastre.Proofs.Candidates
import Cadastre.Proofs.Frame

namespace Cadastre

/-! ### Ledgers, creation times aside -/

/-- What a version has beside its time is the same in lists that are the same
but for the times. -/
theorem exists_of_map_timeless {vs vs' : List DataVersion}
    (h : vs'.map DataVersion.timeless = vs.map DataVersion.timeless) {i : Nat} {d' : DataVersion}
    (hd' : vs'[i]? = some d') : ∃ d, vs[i]? = some d ∧ d'.timeless = d.timeless := by
  have hget : (vs.map DataVersion.timeless)[i]? = some d'.timeless := by
    rw [← h, List.getElem?_map, hd']
    rfl
  rw [List.getElem?_map] at hget
  obtain ⟨d, hd, heq⟩ := Option.map_eq_some_iff.1 hget
  exact ⟨d, hd, heq.symm⟩

theorem version_eq_of_timeless {d d' : DataVersion} (h : d'.timeless = d.timeless) :
    d'.version = d.version := by
  show d'.timeless.version = d.timeless.version
  rw [h]

theorem schemaVersion_eq_of_timeless {d d' : DataVersion} (h : d'.timeless = d.timeless) :
    d'.schemaVersion = d.schemaVersion := by
  show d'.timeless.schemaVersion = d.timeless.schemaVersion
  rw [h]

/-- Other creation times leave the versions paired. -/
theorem Paired.congr {vs vs' : List DataVersion} {v s : Nat} (hp : Paired vs v s)
    (h : vs'.map DataVersion.timeless = vs.map DataVersion.timeless) : Paired vs' v s where
  length := by
    have hlen := congrArg List.length h
    rw [List.length_map, List.length_map] at hlen
    rw [hlen, hp.length]
  numbered i d' hd' := by
    obtain ⟨d, hd, heq⟩ := exists_of_map_timeless h hd'
    rw [version_eq_of_timeless heq, hp.numbered i d hd]
  first d' hd' := by
    obtain ⟨d, hd, heq⟩ := exists_of_map_timeless h hd'
    rw [schemaVersion_eq_of_timeless heq, hp.first d hd]
  step i d' e' hd' he' := by
    obtain ⟨d, hd, hdeq⟩ := exists_of_map_timeless h hd'
    obtain ⟨e, he, heeq⟩ := exists_of_map_timeless h he'
    rw [schemaVersion_eq_of_timeless hdeq, schemaVersion_eq_of_timeless heeq]
    exact hp.step i d e hd he
  last d' hd' := by
    obtain ⟨d, hd, heq⟩ := exists_of_map_timeless h hd'
    rw [schemaVersion_eq_of_timeless heq, hp.last d hd]
  le := hp.le

namespace Ledger

/-- A ledger without the creation times of its versions. -/
def timeless (l : Ledger) : Ledger := { l with versions := l.versions.map DataVersion.timeless }

variable {l l' : Ledger} {now now' : Float} {h : TableHead} {schema : Option Schema}

/-- Ledgers are the same but for the times if their parts are. -/
theorem timeless_eq_iff : l'.timeless = l.timeless ↔ l'.dir = l.dir ∧ l'.head = l.head ∧
    l'.versions.map DataVersion.timeless = l.versions.map DataVersion.timeless ∧
      l'.schemas = l.schemas := by
  simp [timeless]

theorem Sound.congr (hs : l.Sound) (heq : l'.timeless = l.timeless) : l'.Sound := by
  obtain ⟨_, hhead, hversions, hschemas⟩ := timeless_eq_iff.1 heq
  constructor
  · rw [hhead]
    exact hs.paired.congr hversions
  · rw [hschemas]
    exact hs.linked
  · rw [hhead, hschemas]
    exact hs.chronicle
  · rw [hschemas]
    exact hs.schemas
  · rw [hhead]
    exact hs.view
  · rw [hhead]
    exact hs.settled
  · rw [hhead]
    exact hs.version_le
  · rw [hhead]
    exact hs.nextColumn_lt

theorem timeless_push : (l.push now h schema).timeless = l.timeless.push 0 h schema := by
  unfold push timeless
  rw [List.map_append]
  rfl

/-- The same version, pushed at two times. -/
theorem timeless_push_congr (heq : l'.timeless = l.timeless) :
    (l'.push now' h schema).timeless = (l.push now h schema).timeless := by
  calc (l'.push now' h schema).timeless = l'.timeless.push 0 h schema := timeless_push
    _ = l.timeless.push 0 h schema := by rw [heq]
    _ = (l.push now h schema).timeless := timeless_push.symm

theorem Takes.congr (ht : l.Takes now h schema) (heq : l'.timeless = l.timeless)
    (hnow : now'.isFinite = true) : l'.Takes now' h schema := by
  obtain ⟨_, _, hversions, hschemas⟩ := timeless_eq_iff.1 heq
  refine ⟨hnow, ht.head, ?_, ?_⟩
  · have hlen := congrArg List.length hversions
    rw [List.length_map, List.length_map] at hlen
    rw [hlen, ht.version]
  · rw [hschemas]
    exact ht.schema

theorem retained_timeless (l : Ledger) :
    l.timeless.retained = l.retained.map DataVersion.timeless := by
  unfold retained
  dsimp only [timeless]
  cases l.schemas[l.head.schemaVersion]? with
  | none => rfl
  | some k =>
    show Store.lastOf k.retained.toNat (l.versions.map DataVersion.timeless) =
      (Store.lastOf k.retained.toNat l.versions).map DataVersion.timeless
    unfold Store.lastOf
    rw [List.map_drop, List.length_map]

/-- The same versions stay readable, creation times aside. -/
theorem map_retained_congr (heq : l'.timeless = l.timeless) :
    l'.retained.map DataVersion.timeless = l.retained.map DataVersion.timeless := by
  calc l'.retained.map DataVersion.timeless = l'.timeless.retained := (retained_timeless l').symm
    _ = l.timeless.retained := by rw [heq]
    _ = l.retained.map DataVersion.timeless := retained_timeless l

theorem at?_timeless (l : Ledger) (v : Version) :
    l.timeless.at? v = (l.at? v).map fun r => (r.1.timeless, r.2) := by
  unfold at?
  show ((l.versions.map DataVersion.timeless)[v]?).bind _ = _
  rw [List.getElem?_map]
  cases l.versions[v]? with
  | none => rfl
  | some d =>
    show (l.schemas[d.schemaVersion]?).map _ = ((l.schemas[d.schemaVersion]?).map _).map _
    rw [Option.map_map]
    rfl

end Ledger

/-! ### Stores that are alike -/

/-- Two stores that keep the same ledgers but for the creation times, with the
same heads and the same records that belong to no table. -/
structure Store.Alike (s s' : Store) (σ σ' : Ledgers) : Prop where
  keeps : s.Keeps σ
  keeps' : s'.Keeps σ'
  sound : ∀ t l, σ t = some l → l.Sound
  based : σ.Based
  ledgers : ∀ t, (σ' t).map Ledger.timeless = (σ t).map Ledger.timeless
  head : ∀ t, s'.get? (.table t) = s.get? (.table t)
  foreign : ∀ k, k.isForeign = true → s'.get? k = s.get? k

namespace Store

variable {s s' : Store} {σ σ' : Ledgers} {t : TableId}

namespace Alike

/-- A ledger of the first store has its like in the second. -/
theorem exists_like (h : s.Alike s' σ σ') {l : Ledger} (hl : σ t = some l) :
    ∃ l', σ' t = some l' ∧ l'.timeless = l.timeless ∧ l'.Sound := by
  have hmap : (σ' t).map Ledger.timeless = some l.timeless := by
    rw [h.ledgers t, hl]
    rfl
  obtain ⟨l', hl', heq⟩ := Option.map_eq_some_iff.1 hmap
  exact ⟨l', hl', heq, (h.sound t l hl).congr heq⟩

/-- A table without a ledger in the first store has none in the second. -/
theorem eq_none (h : s.Alike s' σ σ') (hl : σ t = none) : σ' t = none := by
  have hmap : (σ' t).map Ledger.timeless = none := by
    rw [h.ledgers t, hl]
    rfl
  exact Option.map_eq_none_iff.1 hmap

theorem snapshotAt_congr (h : s.Alike s' σ σ') {l l' : Ledger} (hl : σ t = some l)
    (hl' : σ' t = some l') (heq : l'.timeless = l.timeless) (v : Version) :
    (s'.snapshotAt ⟨t, l'.dir, l'.head⟩ v).map Snapshot.timeless =
      (s.snapshotAt ⟨t, l.dir, l.head⟩ v).map Snapshot.timeless := by
  have hs := h.sound t l hl
  obtain ⟨_, hhead, _, _⟩ := Ledger.timeless_eq_iff.1 heq
  have hat : (l'.at? v).map (fun r => (r.1.timeless, r.2)) =
      (l.at? v).map fun r => (r.1.timeless, r.2) := by
    calc (l'.at? v).map (fun r => (r.1.timeless, r.2)) = l'.timeless.at? v :=
          (Ledger.at?_timeless l' v).symm
      _ = l.timeless.at? v := by rw [heq]
      _ = (l.at? v).map fun r => (r.1.timeless, r.2) := Ledger.at?_timeless l v
  rw [h.keeps.snapshotAt_eq hl hs, h.keeps'.snapshotAt_eq hl' (hs.congr heq), hhead]
  cases hr : l.at? v with
  | none =>
    rw [hr] at hat
    rw [Option.map_eq_none_iff.1 hat]
  | some r =>
    rw [hr] at hat
    obtain ⟨r', hr', hrr⟩ := Option.map_eq_some_iff.1 hat
    rw [hr']
    show Except.ok (Snapshot.mk t l.head.name r'.1.timeless r'.2) =
      Except.ok (Snapshot.mk t l.head.name r.1.timeless r.2)
    rw [(Prod.mk.inj hrr).1, (Prod.mk.inj hrr).2]

/-- Stores that are alike are read alike. -/
theorem readsAs (h : s.Alike s' σ σ') : s.ReadsAs s' where
  foreign := h.foreign
  head := h.head
  schema t x hx := by
    obtain ⟨l, hl, rfl⟩ := h.keeps.exists_ledger hx
    obtain ⟨l', hl', heq, _⟩ := h.exists_like hl
    obtain ⟨_, _, _, hschemas⟩ := Ledger.timeless_eq_iff.1 heq
    obtain ⟨k, hk⟩ := (h.sound t l hl).exists_schema (Nat.le_refl _)
    have hk' : l'.schemas[l.head.schemaVersion]? = some k := by rw [hschemas, hk]
    rw [h.keeps.schema t l _ k hl hk, h.keeps'.schema t l' _ k hl' hk']
  snapshotAt t x v hx := by
    obtain ⟨l, hl, rfl⟩ := h.keeps.exists_ledger hx
    obtain ⟨l', hl', heq, _⟩ := h.exists_like hl
    obtain ⟨hdir, hhead, _, _⟩ := Ledger.timeless_eq_iff.1 heq
    rw [← hdir, ← hhead, h.snapshotAt_congr hl hl' heq v, hdir, hhead]
  retainedVersions t := by
    cases hl : σ t with
    | none =>
      rw [h.keeps.retainedVersions_eq_error hl, h.keeps'.retainedVersions_eq_error (h.eq_none hl)]
    | some l =>
      obtain ⟨l', hl', heq, hs'⟩ := h.exists_like hl
      rw [h.keeps.retainedVersions_eq hl (h.sound t l hl), h.keeps'.retainedVersions_eq hl' hs']
      exact congrArg Except.ok (Ledger.map_retained_congr heq)

end Alike

/-! ### Columns to reclaim -/

/-- Only the schema versions that are reachable matter for what can be reclaimed. -/
theorem reclaimable_congr {history : SortedMap ColumnId ColumnLife} {ks ks' : List Schema}
    {rs rs' : List DataVersion} {ps : List SchemaVersion}
    (hrs : rs'.map (·.schemaVersion) = rs.map (·.schemaVersion))
    (hks : (ks'.filter fun k => (rs.map (·.schemaVersion) ++ ps).contains k.version) =
      ks.filter fun k => (rs.map (·.schemaVersion) ++ ps).contains k.version) :
    reclaimable history ks' rs' ps = reclaimable history ks rs ps := by
  unfold reclaimable
  simp only [hrs, hks]

/-- Of the schema versions that a scan finds, the reachable ones are the ledger's. -/
theorem Keeps.filter_reachable (hk : s.Keeps σ) {l : Ledger} (hl : σ t = some l) (hs : l.Sound)
    {ks : List Schema} (hks : s.schemas t = .ok ks) {reachable : List SchemaVersion}
    (hle : ∀ v ∈ reachable, v ≤ l.head.schemaVersion) :
    (ks.filter fun k => reachable.contains k.version) =
      l.schemas.filter fun k => reachable.contains k.version := by
  rw [← hk.filter_schemas hl hs hks, List.filter_filter]
  refine List.filter_congr fun k _ => ?_
  cases hmem : reachable.contains k.version with
  | false => rfl
  | true => simpa using hle _ (List.contains_iff_mem.1 hmem)

/-- The schema versions of data versions that are paired alike are the same. -/
theorem schemaVersionsOf_congr {vs : List Version}
    (h : ∀ v ∈ vs, (s'.dataVersion t v).map (·.schemaVersion) =
      (s.dataVersion t v).map (·.schemaVersion)) :
    s'.schemaVersionsOf t vs = s.schemaVersionsOf t vs := by
  induction vs with
  | nil => rfl
  | cons v vs ih =>
    unfold schemaVersionsOf
    refine bind_congr_map (h v List.mem_cons_self) fun d d' _ _ hd => ?_
    rw [ih fun w hw => h w (List.mem_cons_of_mem v hw), hd]

namespace Alike

variable (h : s.Alike s' σ σ')
include h

theorem pinnedSchemas_eq (t : TableId) : s'.pinnedSchemas t = s.pinnedSchemas t := by
  unfold pinnedSchemas
  rw [h.readsAs.tables_eq]
  refine schemaVersionsOf_congr fun v hv => ?_
  obtain ⟨l, hl, hle⟩ := h.keeps.exists_of_mem_pins h.based hv
  obtain ⟨d, hd⟩ := (h.sound t l hl).exists_version hle
  obtain ⟨l', hl', heq, _⟩ := h.exists_like hl
  obtain ⟨_, _, hversions, _⟩ := Ledger.timeless_eq_iff.1 heq
  obtain ⟨d', hd', hdd⟩ := exists_of_map_timeless hversions.symm hd
  rw [h.keeps.version t l v d hl hd, h.keeps'.version t l' v d' hl' hd']
  exact congrArg Except.ok (schemaVersion_eq_of_timeless hdd.symm)

/-- Every reachable schema version is one of the ledger's. -/
theorem le_of_reachable {l : Ledger} (hl : σ t = some l) {ps : List SchemaVersion}
    (hps : s.pinnedSchemas t = .ok ps) {v : SchemaVersion}
    (hv : v ∈ l.retained.map (·.schemaVersion) ++ ps) : v ≤ l.head.schemaVersion := by
  have hs := h.sound t l hl
  rcases List.mem_append.1 hv with hv | hv
  · obtain ⟨d, hd, rfl⟩ := List.mem_map.1 hv
    obtain ⟨k, hk⟩ := hs.exists_schema (Nat.le_refl _)
    obtain ⟨i, hi⟩ := List.mem_iff_getElem?.1 ((hs.mem_retained_iff hk).1 hd).1
    exact hs.paired.schemaVersion_le hi
  · obtain ⟨w, hw, d, hread, rfl⟩ := (mem_schemaVersionsOf_iff hps).1 hv
    obtain ⟨m, hm, hle⟩ := h.keeps.exists_of_mem_pins h.based hw
    rw [hl] at hm
    cases hm
    obtain ⟨e, he⟩ := hs.exists_version hle
    rw [h.keeps.version t l w e hl he] at hread
    cases hread
    exact hs.paired.schemaVersion_le he

/-- The same columns can be reclaimed: a schema version that no ledger lists is
not reachable. -/
theorem reclaimCandidates_eq (t : TableId) : s'.reclaimCandidates t = s.reclaimCandidates t := by
  have hwarnings := h.readsAs.tableWarnings_eq
  have htable := h.readsAs.table_eq t
  have hpinned := h.pinnedSchemas_eq t
  unfold reclaimCandidates
  rw [htable, hpinned, hwarnings]
  cases hl : σ t with
  | none =>
    rw [h.keeps.table_eq_error hl]
    rfl
  | some l =>
    obtain ⟨l', hl', heq, hs'⟩ := h.exists_like hl
    have hs := h.sound t l hl
    obtain ⟨ks, hks⟩ := h.keeps.exists_schemas t
    obtain ⟨ks', hks'⟩ := h.keeps'.exists_schemas t
    rw [h.keeps.head t l hl, hks, hks', h.keeps.retainedVersions_eq hl hs,
      h.keeps'.retainedVersions_eq hl' hs']
    cases hps : s.pinnedSchemas t with
    | error e => rfl
    | ok ps =>
      obtain ⟨_, hhead, _, hschemas⟩ := Ledger.timeless_eq_iff.1 heq
      have hretained : l'.retained.map (·.schemaVersion) = l.retained.map (·.schemaVersion) := by
        have hmap := Ledger.map_retained_congr heq
        have hversions := congrArg (List.map fun d : DataVersion => d.schemaVersion) hmap
        rw [List.map_map, List.map_map] at hversions
        exact hversions
      have hle : ∀ v ∈ l.retained.map (·.schemaVersion) ++ ps, v ≤ l.head.schemaVersion :=
        fun v hv => h.le_of_reachable hl hps hv
      have hfilter := h.keeps.filter_reachable hl hs hks hle
      have hfilter' := h.keeps'.filter_reachable hl' hs' hks' (hhead ▸ hle)
      rw [hschemas] at hfilter'
      have hsame : reclaimable l.head.history ks' l'.retained ps =
          reclaimable l.head.history ks l.retained ps :=
        reclaimable_congr hretained (hfilter'.trans hfilter.symm)
      simp only [bind, Except.bind, hsame]

end Alike

/-! ### All reads of tables -/

/-- Every read of tables and views answers the same in both stores, creation
times aside, and the records that belong to no table are the same. -/
structure SameReads (s s' : Store) : Prop where
  foreign : ∀ k, k.isForeign = true → s'.get? k = s.get? k
  table : ∀ t, s'.table t = s.table t
  tables : s'.tables = s.tables
  tableWarnings : s'.tableWarnings = s.tableWarnings
  retainedVersions : ∀ t, (s'.retainedVersions t).map (List.map DataVersion.timeless) =
    (s.retainedVersions t).map (List.map DataVersion.timeless)
  snapshot : ∀ t version, (s'.snapshot t version).map Snapshot.timeless =
    (s.snapshot t version).map Snapshot.timeless
  effectiveSchema : ∀ t version, s'.effectiveSchema t version = s.effectiveSchema t version
  reclaimCandidates : ∀ t, s'.reclaimCandidates t = s.reclaimCandidates t

theorem Alike.sameReads (h : s.Alike s' σ σ') : s.SameReads s' where
  foreign := h.foreign
  table := h.readsAs.table_eq
  tables := h.readsAs.tables_eq
  tableWarnings := h.readsAs.tableWarnings_eq
  retainedVersions := h.readsAs.retainedVersions
  snapshot := h.readsAs.snapshot_eq
  effectiveSchema := h.readsAs.effectiveSchema_eq
  reclaimCandidates := h.reclaimCandidates_eq

end Store
end Cadastre
