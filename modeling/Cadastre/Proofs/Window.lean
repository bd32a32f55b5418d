/-
# What is read of a table is read from its ledger

A store that keeps a sound ledger of a table answers every read of the table
from the ledger. The scans also find records that no ledger lists, of versions
past the counters of the head; the head hides them: the versions that stay
readable are the last ones of the ledger (`Store.Keeps.retainedVersions_eq`),
and a version past the current one is not found (`Store.Keeps.snapshotAt_eq`).

Key definitions: `Ledger.retained`, `Ledger.at?`.
Key theorems: `Paired.schemaVersion_mono`, `Paired.exists_schemaVersion_eq`,
`Store.Keeps.filter_dataVersions`, `Store.Keeps.filter_schemas`,
`Store.Keeps.retainedVersions_eq`, `Store.Keeps.snapshotAt_eq`,
`Store.Keeps.snapshot_eq`, `Store.Keeps.exists_of_snapshot`.
-/
import Cadastre.Proofs.Run
import Cadastre.Proofs.Scan

namespace Cadastre

/-! ### The versions of a sound ledger -/

/-- A later data version is not paired with an earlier schema version. -/
theorem Paired.schemaVersion_mono {versions : List DataVersion} {v s : Nat}
    (hp : Paired versions v s) {i j : Nat} {d e : DataVersion} (hd : versions[i]? = some d)
    (he : versions[j]? = some e) (hij : i ≤ j) : d.schemaVersion ≤ e.schemaVersion := by
  -- by induction on the distance between the two
  obtain ⟨n, rfl⟩ := Nat.exists_eq_add_of_le hij
  induction n generalizing i d with
  | zero =>
    rw [Nat.add_zero, hd] at he
    cases he
    exact Nat.le_refl _
  | succ n ih =>
    have hj : i + (n + 1) < versions.length := (List.getElem?_eq_some_iff.1 he).1
    have hlt : i + 1 < versions.length := by omega
    have hnext : versions[i + 1]? = some versions[i + 1] := List.getElem?_eq_getElem hlt
    have hle : versions[i + 1].schemaVersion ≤ e.schemaVersion := by
      refine ih hnext ?_ (Nat.le_add_right _ _)
      rw [← he, Nat.add_assoc, Nat.add_comm 1 n]
    rcases hp.step i d _ hd hnext with hstep | hstep
    · rw [← hstep]
      exact hle
    · rw [hstep] at hle
      exact Nat.le_of_succ_le hle

/-- From a data version on, every schema version up to the last one is paired
with some data version. -/
theorem Paired.exists_schemaVersion_eq {versions : List DataVersion} {v s : Nat}
    (hp : Paired versions v s) {i : Nat} {d : DataVersion} (hd : versions[i]? = some d) {m : Nat}
    (hm : d.schemaVersion ≤ m) (hs : m ≤ s) :
    ∃ j e, i ≤ j ∧ versions[j]? = some e ∧ e.schemaVersion = m := by
  have hi : i < v + 1 := hp.length ▸ (List.getElem?_eq_some_iff.1 hd).1
  -- by induction on the distance to the last data version
  obtain ⟨n, hn⟩ := Nat.exists_eq_add_of_le (Nat.le_of_lt_succ hi)
  induction n generalizing i d with
  | zero =>
    obtain rfl : i = v := hn.symm
    rw [hp.last d hd] at hm
    exact ⟨i, d, Nat.le_refl _, hd, (hp.last d hd).trans (Nat.le_antisymm hm hs)⟩
  | succ n ih =>
    rcases Nat.eq_or_lt_of_le hm with heq | hlt
    · exact ⟨i, d, Nat.le_refl _, hd, heq⟩
    · have hnext : i + 1 < versions.length := by rw [hp.length]; omega
      have he : versions[i + 1]? = some versions[i + 1] := List.getElem?_eq_getElem hnext
      have hle : versions[i + 1].schemaVersion ≤ m := by
        rcases hp.step i d _ hd he with hstep | hstep
        · exact hstep ▸ hm
        · exact hstep ▸ hlt
      obtain ⟨j, e, hj, hje, hem⟩ := ih he hle (by omega) (by omega)
      exact ⟨j, e, Nat.le_of_succ_le hj, hje, hem⟩

/-- No data version is paired with a schema version past the last one. -/
theorem Paired.schemaVersion_le {versions : List DataVersion} {v s : Nat}
    (hp : Paired versions v s) {i : Nat} {d : DataVersion} (hd : versions[i]? = some d) :
    d.schemaVersion ≤ s := by
  have hi : i < versions.length := (List.getElem?_eq_some_iff.1 hd).1
  rw [hp.length] at hi
  have hv : v < versions.length := by rw [hp.length]; omega
  have hlast : versions[v]? = some versions[v] := List.getElem?_eq_getElem hv
  rw [← hp.last _ hlast]
  exact hp.schemaVersion_mono hd hlast (Nat.le_of_lt_succ hi)

/-- A list that is numbered by position is in increasing order of the numbers. -/
theorem pairwise_of_numbered {α : Type} {number : α → Nat} {l : List α}
    (h : ∀ (i : Nat) a, l[i]? = some a → number a = i) :
    l.Pairwise fun a b => number a < number b := by
  rw [List.pairwise_iff_getElem]
  intro i j hi hj hij
  rw [h i _ (List.getElem?_eq_getElem hi), h j _ (List.getElem?_eq_getElem hj)]
  exact hij

/-- Lists in increasing order of their numbers that have the same members are equal. -/
theorem eq_of_pairwise_number {α : Type} {number : α → Nat} {l m : List α}
    (hl : l.Pairwise fun a b => number a < number b)
    (hm : m.Pairwise fun a b => number a < number b) (h : ∀ a, a ∈ l ↔ a ∈ m) : l = m := by
  have hne : ∀ {a b : α}, number a < number b → a ≠ b := by
    rintro a b hlt rfl
    exact Nat.lt_irrefl _ hlt
  have hperm : l.Perm m := (List.perm_ext_iff_of_nodup (hl.imp hne) (hm.imp hne)).2 h
  exact hperm.eq_of_pairwise (fun a b _ _ hab hba => absurd hba (Nat.lt_asymm hab)) hl hm

namespace Ledger

variable {l : Ledger}

/-- The data versions that stay readable. -/
def retained (l : Ledger) : List DataVersion :=
  match l.schemas[l.head.schemaVersion]? with
  | some k => Store.lastOf k.retained.toNat l.versions
  | none => []

/-- A data version with the schema version that it is read with. -/
def at? (l : Ledger) (v : Version) : Option (DataVersion × Schema) :=
  (l.versions[v]?).bind fun d => (l.schemas[d.schemaVersion]?).map fun k => (d, k)

theorem at?_eq_some_iff {v : Version} {d : DataVersion} {k : Schema} :
    l.at? v = some (d, k) ↔ l.versions[v]? = some d ∧ l.schemas[d.schemaVersion]? = some k := by
  unfold at?
  simp only [Option.bind_eq_some_iff, Option.map_eq_some_iff, Prod.mk.injEq]
  constructor
  · rintro ⟨e, he, m, hm, rfl, rfl⟩
    exact ⟨he, hm⟩
  · rintro ⟨hd, hk⟩
    exact ⟨d, hd, k, hk, rfl, rfl⟩

/-- Every version up to the current one is there with its schema version. -/
theorem Sound.exists_at (hs : l.Sound) {v : Version} (hv : v ≤ l.head.version) :
    ∃ d k, l.at? v = some (d, k) := by
  obtain ⟨d, hd⟩ := hs.exists_version hv
  obtain ⟨k, hk⟩ := hs.exists_schema (hs.paired.schemaVersion_le hd)
  exact ⟨d, k, at?_eq_some_iff.2 ⟨hd, hk⟩⟩

/-- Versions past the current one are not there. -/
theorem Sound.at?_eq_none (hs : l.Sound) {v : Version} (hv : l.head.version < v) :
    l.at? v = none := by
  have hnone : l.versions[v]? = none := by
    apply List.getElem?_eq_none
    rw [hs.paired.length]
    exact Nat.succ_le_of_lt hv
  rw [at?, hnone]
  rfl

theorem Sound.pairwise_versions (hs : l.Sound) :
    l.versions.Pairwise fun a b => a.version < b.version :=
  pairwise_of_numbered hs.paired.numbered

theorem Sound.pairwise_schemas (hs : l.Sound) :
    l.schemas.Pairwise fun a b => a.version < b.version :=
  pairwise_of_numbered hs.linked.numbered

/-- The versions that stay readable are those from some number on. -/
theorem Sound.mem_retained_iff (hs : l.Sound) {k : Schema}
    (hk : l.schemas[l.head.schemaVersion]? = some k) {d : DataVersion} :
    d ∈ l.retained ↔ d ∈ l.versions ∧ l.head.version + 1 - k.retained.toNat ≤ d.version := by
  have hlen : l.versions.length = l.head.version + 1 := hs.paired.length
  rw [retained, hk]
  show d ∈ l.versions.drop (l.versions.length - k.retained.toNat) ↔ _
  rw [hlen, List.mem_iff_getElem?, List.mem_iff_getElem?]
  constructor
  · rintro ⟨i, hi⟩
    rw [List.getElem?_drop] at hi
    refine ⟨⟨_, hi⟩, ?_⟩
    rw [hs.paired.numbered _ d hi]
    exact Nat.le_add_right _ i
  · rintro ⟨⟨i, hi⟩, hle⟩
    rw [hs.paired.numbered i d hi] at hle
    refine ⟨i - (l.head.version + 1 - k.retained.toNat), ?_⟩
    rw [List.getElem?_drop, Nat.add_sub_cancel' hle, hi]

/-- The current version is among those that stay readable. -/
theorem Sound.first_retained_le (hs : l.Sound) {k : Schema}
    (hk : l.schemas[l.head.schemaVersion]? = some k) :
    l.head.version + 1 - k.retained.toNat ≤ l.head.version := by
  have hpos : 0 < k.retained.toNat := by
    have h0 := (hs.schemas k (List.mem_of_getElem? hk)).1.retained
    rw [← UInt32.toNat_inj.ne] at h0
    exact Nat.pos_of_ne_zero h0
  rw [Nat.sub_le_iff_le_add]
  exact Nat.add_le_add_left hpos _

end Ledger

/-! ### Reads of a table -/

namespace Store

/-- Records that decode one by one decode. -/
theorem exists_decodeAll {α : Type} [Payload α] {l : List (Key × Record)}
    (h : ∀ e ∈ l, ∃ a : α, Payload.decode e.1 e.2.content = .ok a) :
    ∃ as, decodeAll α l = .ok as := by
  induction l with
  | nil => exact ⟨[], rfl⟩
  | cons e l ih =>
    obtain ⟨k, r⟩ := e
    obtain ⟨a, ha⟩ := h (k, r) List.mem_cons_self
    obtain ⟨as, has⟩ := ih fun e he => h e (List.mem_cons_of_mem _ he)
    refine ⟨a :: as, bind_eq_ok_iff.2 ⟨a, ha, bind_eq_ok_iff.2 ⟨as, has, rfl⟩⟩⟩

namespace Keeps

variable {s : Store} {σ : Ledgers} {t : TableId} {l : Ledger}

/-- The data versions of every table can be listed. -/
theorem exists_dataVersions (hk : s.Keeps σ) (t : TableId) :
    ∃ ds, s.dataVersions t = .ok ds := by
  refine exists_decodeAll fun e he => ?_
  obtain ⟨hr, hkey⟩ := (mem_scan_iff s _).1 he
  obtain ⟨v, _, hek⟩ := KeyRange.contains_tableVersions_iff.1 hkey
  rw [hek] at hr ⊢
  obtain ⟨d, hd, _⟩ := hk.versionRecord t v e.2 hr
  exact ⟨d, hd⟩

/-- The schema versions of every table can be listed. -/
theorem exists_schemas (hk : s.Keeps σ) (t : TableId) : ∃ ks, s.schemas t = .ok ks := by
  refine exists_decodeAll fun e he => ?_
  obtain ⟨hr, hkey⟩ := (mem_scan_iff s _).1 he
  obtain ⟨v, _, hek⟩ := KeyRange.contains_schemaVersions_iff.1 hkey
  rw [hek] at hr ⊢
  obtain ⟨k, hk', _⟩ := hk.schemaRecord t v e.2 hr
  exact ⟨k, hk'⟩

/-- A data version up to the current one is read as the ledger lists it. -/
theorem getElem?_of_dataVersion (hk : s.Keeps σ) (hl : σ t = some l) (hs : l.Sound) {v : Version}
    (hv : v ≤ l.head.version) {d : DataVersion} (hd : s.dataVersion t v = .ok d) :
    l.versions[v]? = some d := by
  obtain ⟨e, he⟩ := hs.exists_version hv
  have hread := hk.version t l v e hl he
  rw [hd] at hread
  cases hread
  exact he

/-- A schema version up to the current one is read as the ledger lists it. -/
theorem getElem?_of_schema (hk : s.Keeps σ) (hl : σ t = some l) (hs : l.Sound) {v : SchemaVersion}
    (hv : v ≤ l.head.schemaVersion) {k : Schema} (hschema : s.schema t v = .ok k) :
    l.schemas[v]? = some k := by
  obtain ⟨m, hm⟩ := hs.exists_schema hv
  have hread := hk.schema t l v m hl hm
  rw [hschema] at hread
  cases hread
  exact hm

/-- Of the data versions that a scan finds, the head shows those of the ledger. -/
theorem filter_dataVersions (hk : s.Keeps σ) (hl : σ t = some l) (hs : l.Sound)
    {ds : List DataVersion} (hds : s.dataVersions t = .ok ds) :
    (ds.filter fun d => d.version ≤ l.head.version) = l.versions := by
  refine eq_of_pairwise_number ((hk.pairwise_dataVersions hds).filter _) hs.pairwise_versions
    fun d => ?_
  rw [List.mem_filter, mem_dataVersions_iff hds, decide_eq_true_eq]
  constructor
  · rintro ⟨⟨v, _, hd⟩, hle⟩
    have hv : d.version = v := hk.version_of_dataVersion hd
    rw [hv] at hle
    exact List.mem_of_getElem? (hk.getElem?_of_dataVersion hl hs hle hd)
  · intro hd
    obtain ⟨i, hi⟩ := List.mem_iff_getElem?.1 hd
    have hlt : i < l.versions.length := (List.getElem?_eq_some_iff.1 hi).1
    have hle : i ≤ l.head.version := by rw [hs.paired.length] at hlt; omega
    have hmax := hs.version_le
    rw [hs.paired.numbered i d hi]
    exact ⟨⟨i, hle.trans hmax, hk.version t l i d hl hi⟩, hle⟩

/-- Of the schema versions that a scan finds, those up to the current one are the
ledger's. -/
theorem filter_schemas (hk : s.Keeps σ) (hl : σ t = some l) (hs : l.Sound)
    {ks : List Schema} (hks : s.schemas t = .ok ks) :
    (ks.filter fun k => k.version ≤ l.head.schemaVersion) = l.schemas := by
  refine eq_of_pairwise_number ((hk.pairwise_schemas hks).filter _) hs.pairwise_schemas
    fun k => ?_
  rw [List.mem_filter, mem_schemas_iff hks, decide_eq_true_eq]
  constructor
  · rintro ⟨⟨v, _, hread⟩, hle⟩
    have hv : k.version = v := hk.version_of_schema hread
    rw [hv] at hle
    exact List.mem_of_getElem? (hk.getElem?_of_schema hl hs hle hread)
  · intro hmem
    obtain ⟨i, hi⟩ := List.mem_iff_getElem?.1 hmem
    have hlt : i < l.schemas.length := (List.getElem?_eq_some_iff.1 hi).1
    rw [hs.chronicle.length] at hlt
    have hle : i ≤ l.head.schemaVersion := Nat.le_of_lt_succ hlt
    have hmax : i ≤ maxVersion := by
      calc i ≤ l.head.schemaVersion := hle
        _ ≤ l.head.version := hs.paired.le
        _ ≤ maxVersion := hs.version_le
    rw [hs.linked.numbered i k hi]
    exact ⟨⟨i, hmax, hk.schema t l i k hl hi⟩, hle⟩

/-- The versions that stay readable are the last ones of the ledger. -/
theorem retainedVersions_eq (hk : s.Keeps σ) (hl : σ t = some l) (hs : l.Sound) :
    s.retainedVersions t = .ok l.retained := by
  obtain ⟨ds, hds⟩ := hk.exists_dataVersions t
  obtain ⟨k, hcurrent⟩ := hs.exists_schema (Nat.le_refl _)
  have htable := hk.head t l hl
  have hschema := hk.schema t l _ k hl hcurrent
  have hfilter := hk.filter_dataVersions hl hs hds
  refine retainedVersions_eq_ok_iff.2 ⟨_, k, ds, htable, hschema, hds, ?_⟩
  rw [Ledger.retained, hcurrent]
  show lastOf k.retained.toNat l.versions = lastOf k.retained.toNat
    (ds.filter fun d => d.version ≤ l.head.version)
  rw [hfilter]

/-- A version is read with its schema version if it is in the ledger, and not
found if it is past the current one. -/
theorem snapshotAt_eq (hk : s.Keeps σ) (hl : σ t = some l) (hs : l.Sound) (v : Version) :
    s.snapshotAt ⟨t, l.dir, l.head⟩ v =
      match l.at? v with
      | some (d, k) => .ok ⟨t, l.head.name, d, k⟩
      | none => .error (.catalog (.versionNotFound t v)) := by
  unfold snapshotAt
  by_cases hv : l.head.version < v
  · rw [if_pos hv, hs.at?_eq_none hv]
  · obtain ⟨d, k, hat⟩ := hs.exists_at (Nat.le_of_not_lt hv)
    obtain ⟨hd, hschema⟩ := Ledger.at?_eq_some_iff.1 hat
    rw [if_neg hv, hat, hk.version t l v d hl hd]
    show (do
      let schema ← s.schema t d.schemaVersion
      Except.ok (Snapshot.mk t l.head.name d schema)) = _
    rw [hk.schema t l _ k hl hschema]
    rfl

/-- A snapshot reads a version that stays readable, and no other. -/
theorem snapshot_eq (hk : s.Keeps σ) (hl : σ t = some l) (hs : l.Sound)
    (version : Option Version) :
    s.snapshot t version =
      if l.retained.any fun r => r.version == version.getD l.head.version then
        s.snapshotAt ⟨t, l.dir, l.head⟩ (version.getD l.head.version)
      else .error (.catalog (.versionNotFound t (version.getD l.head.version))) := by
  unfold snapshot
  rw [hk.head t l hl, hk.retainedVersions_eq hl hs]
  rfl

/-- What a table is read as, as of a version, is listed in its ledger. -/
theorem exists_of_snapshotAt (hk : s.Keeps σ) (hl : σ t = some l) (hs : l.Sound) {v : Version}
    {sn : Snapshot} (h : s.snapshotAt ⟨t, l.dir, l.head⟩ v = .ok sn) :
    ∃ d k, l.versions[v]? = some d ∧ l.schemas[d.schemaVersion]? = some k ∧
      sn = ⟨t, l.head.name, d, k⟩ := by
  rw [hk.snapshotAt_eq hl hs] at h
  split at h
  · rename_i d k hat
    obtain ⟨hd, hschema⟩ := Ledger.at?_eq_some_iff.1 hat
    cases h
    exact ⟨d, k, hd, hschema, rfl⟩
  · cases h

/-- A snapshot reads a version that is listed and stays readable. -/
theorem exists_of_snapshot (hk : s.Keeps σ) (hl : σ t = some l) (hs : l.Sound)
    {version : Option Version} {sn : Snapshot} (h : s.snapshot t version = .ok sn) :
    ∃ d k, d ∈ l.retained ∧ l.versions[version.getD l.head.version]? = some d ∧
      l.schemas[d.schemaVersion]? = some k ∧ sn = ⟨t, l.head.name, d, k⟩ := by
  rw [hk.snapshot_eq hl hs] at h
  split at h
  · rename_i hany
    obtain ⟨d, k, hd, hschema, hsn⟩ := hk.exists_of_snapshotAt hl hs h
    obtain ⟨r, hr, hv⟩ := List.any_eq_true.1 hany
    have hv : r.version = version.getD l.head.version := eq_of_beq hv
    obtain ⟨current, hcurrent⟩ := hs.exists_schema (Nat.le_refl _)
    obtain ⟨i, hi⟩ := List.mem_iff_getElem?.1 ((hs.mem_retained_iff hcurrent).1 hr).1
    have hrd : r = d := by
      rw [hs.paired.numbered i r hi] at hv
      rw [hv, hd] at hi
      cases hi
      rfl
    exact ⟨d, k, hrd ▸ hr, hd, hschema, hsn⟩
  · cases h

/-- A table without a ledger is not found. -/
theorem table_eq_error (hk : s.Keeps σ) (hl : σ t = none) :
    s.table t = .error (.catalog (.tableNotFound t)) := by
  rw [table, read?, hk.absent t hl]

theorem retainedVersions_eq_error (hk : s.Keeps σ) (hl : σ t = none) :
    s.retainedVersions t = .error (.catalog (.tableNotFound t)) := by
  unfold retainedVersions
  rw [hk.table_eq_error hl]
  rfl

end Keeps
end Store
end Cadastre
