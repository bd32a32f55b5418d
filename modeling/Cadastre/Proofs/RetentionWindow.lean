/-
# The retention window

Of a table at version `V`, whose current schema version retains `N` data versions, the
versions that stay readable are the last `N` up to `V`, or all of them while there are
not more: the records of the versions `V + 1 - N`, …, `V`, in this order. A snapshot as
of one of them reads its record and the schema version that the record names, and one
as of any other version is not found. As a schema version retains one version at least,
the current one is always readable.

The list of readable versions is what a scan of the records leaves when the head has
filtered it and the first ones were dropped. That it has no gap and begins where it
should is due to the ledger of the table, in which every version stands in the place
of its number (`Ledger.Sound.map_version_retained`).

Key definitions: `window`, `RetentionWindow`.
Key theorems: `mem_window_iff`, `Ledger.Sound.map_version_retained`,
`Catalog.Keeps.window_of_ledger`, `Catalog.retentionWindow`.
-/
import Cadastre.Proofs.VersionChain
import Cadastre.Proofs.Window
import Mathlib.Data.List.Forall2

namespace Cadastre

/-- The numbers of the last `n` versions up to the current one, or of all versions if
they are not more. -/
def window (current n : Nat) : List Version :=
  List.range' (current + 1 - n) (min n (current + 1))

theorem mem_window_iff {current n v : Nat} :
    v ∈ window current n ↔ current + 1 - n ≤ v ∧ v ≤ current := by
  rw [window, List.mem_range'_1]
  omega

/-- The window is what is left of all numbers without the first ones. -/
theorem drop_range_eq_window (current n : Nat) :
    (List.range (current + 1)).drop (current + 1 - n) = window current n := by
  have hcount : current + 1 - (current + 1 - n) = min n (current + 1) := by omega
  rw [List.range_eq_range', List.drop_range', hcount, Nat.mul_one, Nat.zero_add, window]

namespace Ledger.Sound

variable {l : Ledger}

theorem map_version_versions (hs : l.Sound) :
    l.versions.map (·.version) = List.range (l.head.version + 1) := by
  apply List.ext_getElem
  · rw [List.length_map, List.length_range, hs.paired.length]
  · intro i hi _
    have hlt : i < l.versions.length := by simpa using hi
    have hnumber := hs.paired.numbered i _ (List.getElem?_eq_getElem hlt)
    rw [List.getElem_map, List.getElem_range, hnumber]

/-- The versions that stay readable have the numbers of the window. -/
theorem map_version_retained (hs : l.Sound) {k : Schema}
    (hk : l.schemas[l.head.schemaVersion]? = some k) :
    l.retained.map (·.version) = window l.head.version k.retained.toNat := by
  have hlength : l.versions.length = l.head.version + 1 := hs.paired.length
  rw [retained, hk]
  show (l.versions.drop (l.versions.length - k.retained.toNat)).map (·.version) = _
  rw [List.map_drop, hs.map_version_versions, hlength, drop_range_eq_window]

/-- A version that stays readable stands in the ledger in the place of its number. -/
theorem getElem?_of_mem_retained (hs : l.Sound) {k : Schema}
    (hk : l.schemas[l.head.schemaVersion]? = some k) {d : DataVersion} (hd : d ∈ l.retained) :
    l.versions[d.version]? = some d := by
  obtain ⟨hmem, _⟩ := (hs.mem_retained_iff hk).1 hd
  obtain ⟨i, hi⟩ := List.mem_iff_getElem?.1 hmem
  have hnumber : d.version = i := hs.paired.numbered i d hi
  rw [hnumber, hi]

end Ledger.Sound

/-- What stays readable of a table whose current schema version is `k`. -/
structure RetentionWindow (s : Store) (x : Table) (k : Schema) : Prop where
  /-- The records of the window, in the order of their numbers. -/
  retained : ∃ ds, s.retainedVersions x.id = .ok ds ∧
    List.Forall₂ (fun v d => s.dataVersion x.id v = .ok d ∧ d.version = v)
      (window x.head.version k.retained.toNat) ds
  /-- As of a version in the window the table is read, with the record of the version
  and the schema version that this names. -/
  readable : ∀ v ∈ window x.head.version k.retained.toNat, ∃ sn,
    s.snapshot x.id (some v) = .ok sn ∧ sn.table = x.id ∧ sn.name = x.head.name ∧
      s.dataVersion x.id v = .ok sn.version ∧
      s.schema x.id sn.version.schemaVersion = .ok sn.schema
  /-- As of any other version it is not found. -/
  unreadable : ∀ v, v ∉ window x.head.version k.retained.toNat →
    s.snapshot x.id (some v) = .error (.catalog (.versionNotFound x.id v)) ∧
      (Error.catalog (.versionNotFound x.id v)).code = "CATALOG_005"
  /-- The current version is in the window, and it is read if none is given. -/
  current : x.head.version ∈ window x.head.version k.retained.toNat ∧
    s.snapshot x.id none = s.snapshot x.id (some x.head.version)

namespace Catalog

/-- The ledger of a table reads as a window over its versions. -/
theorem Keeps.window_of_ledger {c : Catalog} {σ : Ledgers} (hc : c.Keeps σ) {t : TableId}
    {l : Ledger} (hl : σ t = some l) {k : Schema}
    (hk : l.schemas[l.head.schemaVersion]? = some k) :
    RetentionWindow c.store ⟨t, l.dir, l.head⟩ k := by
  have hs := hc.sound t l hl
  have hnumbers := hs.map_version_retained hk
  have hany : ∀ v, (l.retained.any fun d => d.version == v) = true ↔
      v ∈ window l.head.version k.retained.toNat := by
    intro v
    simp [← hnumbers]
  constructor
  case retained =>
    refine ⟨l.retained, hc.store.retainedVersions_eq hl hs, ?_⟩
    show List.Forall₂ _ (window l.head.version k.retained.toNat) l.retained
    rw [← hnumbers, List.forall₂_map_left_iff, List.forall₂_same]
    intro d hd
    exact ⟨hc.store.version t l _ d hl (hs.getElem?_of_mem_retained hk hd), rfl⟩
  case readable =>
    intro v hv
    have hle : v ≤ l.head.version := (mem_window_iff.1 hv).2
    obtain ⟨d, m, hat⟩ := hs.exists_at hle
    obtain ⟨hd, hm⟩ := Ledger.at?_eq_some_iff.1 hat
    refine ⟨⟨t, l.head.name, d, m⟩, ?_, rfl, rfl, hc.store.version t l v d hl hd,
      hc.store.schema t l _ m hl hm⟩
    show c.store.snapshot t (some v) = _
    rw [hc.store.snapshot_eq hl hs, Option.getD_some, if_pos ((hany v).2 hv),
      hc.store.snapshotAt_eq hl hs, hat]
  case unreadable =>
    intro v hv
    refine ⟨?_, rfl⟩
    show c.store.snapshot t (some v) = _
    rw [hc.store.snapshot_eq hl hs, Option.getD_some, if_neg (mt (hany v).1 hv)]
  case current =>
    refine ⟨mem_window_iff.2 ⟨hs.first_retained_le hk, Nat.le_refl _⟩, ?_⟩
    show c.store.snapshot t none = c.store.snapshot t (some l.head.version)
    rw [hc.store.snapshot_eq hl hs, hc.store.snapshot_eq hl hs, Option.getD_none,
      Option.getD_some]

/-- After any run the versions of a table or view that stay readable are those of the
window that its current schema version sets. -/
theorem retentionWindow {config : Config} {registry : Registry} {as : List Action}
    (ha : (fresh config registry).Admits as) {t : TableId}
    (ht : (((fresh config registry).after as).store.get? (.table t)).isSome = true) :
    ∃ x k, ((fresh config registry).after as).store.table t = .ok x ∧
      ((fresh config registry).after as).store.schema t x.head.schemaVersion = .ok k ∧
      RetentionWindow ((fresh config registry).after as).store x k := by
  obtain ⟨σ, hc, _⟩ := exists_course ha
  obtain ⟨l, hl⟩ := hc.exists_ledger ht
  obtain ⟨k, hk⟩ := (hc.sound t l hl).exists_schema (Nat.le_refl _)
  exact ⟨⟨t, l.dir, l.head⟩, k, hc.store.head t l hl, hc.store.schema t l _ k hl hk,
    hc.window_of_ledger hl hk⟩

end Catalog

/-- The window is widened to two versions, an insertion moves it on, and a change that
comes too late leaves it as it is. -/
def Sample.retention : List Action := [
  .perform 2 (.addColumn people 0 { name := "born", type := .string }),
  .perform 3 (.setRetention people 1 2),
  .perform 4 (.insertRows people 2 5),
  .perform 5 (.setRetention people 2 10)]

theorem Sample.retentionWindow_people :
    Sample.start.Admits (Sample.creation ++ Sample.retention) ∧
      ((Sample.start.after (Sample.creation ++ Sample.retention)).store.get?
        (.table Sample.people)).isSome = true ∧
      (((Sample.start.after (Sample.creation ++ Sample.retention)).store.retainedVersions
        Sample.people).toOption.map fun ds => ds.map (·.version)) = some [2, 3] ∧
      ∃ x k, (Sample.start.after (Sample.creation ++ Sample.retention)).store.table
          Sample.people = .ok x ∧
        (Sample.start.after (Sample.creation ++ Sample.retention)).store.schema Sample.people
          x.head.schemaVersion = .ok k ∧
        RetentionWindow (Sample.start.after (Sample.creation ++ Sample.retention)).store x k := by
  have ha : Sample.start.Admits (Sample.creation ++ Sample.retention) := by decide +kernel
  have ht : ((Sample.start.after (Sample.creation ++ Sample.retention)).store.get?
      (.table Sample.people)).isSome = true := by decide +kernel
  exact ⟨ha, ht, by decide +kernel, Catalog.retentionWindow ha ht⟩

end Cadastre
