/-
# Broken heads

A head whose record cannot be read is skipped in the list of all tables. The
columns to reclaim of another table are then chosen without it: none of them is
lost, and none comes in addition unless the broken head is that of a snapshot
that fixes a version of the table read with a schema version from before the
column's drop (`Catalog.reclaimCandidates_of_brokenHead`). What such a snapshot
holds back, its broken head frees (`Sample.freed_frozen`), although its versions
and the columns they show are as they were.

Key definitions: `Record.IsBrokenHead`, `Store.withHead`, `Store.HoldsBack`.
Key theorems: `Store.SameBut.readsFrom`, `Store.isReachable_of_brokenHead_iff`,
`Catalog.reclaimCandidates_of_brokenHead`.
-/
import Cadastre.Proofs.Candidates
import Cadastre.Proofs.Separation

namespace Cadastre

/-- The record is not read as the head of table `x`: it does not decode, or what
it says breaks a rule. -/
def Record.IsBrokenHead (r : Record) (x : TableId) : Prop :=
  ∃ e : Error, (Payload.decode (.table x) r.content : Except Error TableHead) = .error e

namespace Store

variable {s : Store} {t x : TableId} {r : Record}

/-- The store with another record for the head of table `x`. -/
def withHead (s : Store) (x : TableId) (r : Record) : Store := s.insert (.table x) r

/-- Table `x` is a snapshot that fixes version `v` of table `t`. -/
def Fixes (s : Store) (x t : TableId) (v : Version) : Prop :=
  ∃ y source, s.table x = .ok y ∧ y.head.view = some source ∧ source.isSnapshot = true ∧
    (t, some v) ∈ source.bases

/-- Table `x` is a snapshot that fixes a version of table `t` which is read with
a schema version before `d`. -/
def HoldsBack (s : Store) (x t : TableId) (d : SchemaVersion) : Prop :=
  ∃ v k, s.Fixes x t v ∧ s.dataVersion t v = .ok k ∧ k.schemaVersion < d

/-- Replacing a head leaves the records of the other tables as they are. -/
theorem sameBut_withHead (s : Store) (x : TableId) (r : Record) :
    SameBut x s (s.withHead x r) := by
  intro k hk
  rw [withHead, SortedMap.get?_insert, if_neg]
  rintro rfl
  exact hk rfl

/-- A table is read from its ledger whatever the records of another one are. -/
theorem SameBut.readsFrom {s' : Store} (h : SameBut x s s') (ht : t ≠ x) {l : Ledger}
    (hl : s.ReadsFrom t l) : s'.ReadsFrom t l where
  sound := hl.sound
  table := (h.table_eq ht).trans hl.table
  schemas := (h.schemas_eq ht).trans hl.schemas
  retained := (h.retainedVersions_eq ht).trans hl.retained
  version v d := by
    rw [h.dataVersion_eq ht]
    exact hl.version v d

/-- A table under a broken head is not read. -/
theorem table_of_brokenHead (hr : r.IsBrokenHead x) (y : Table) :
    (s.withHead x r).table x ≠ .ok y := by
  intro hy
  obtain ⟨r', hr', hd, _⟩ := table_eq_ok_iff.1 hy
  rw [withHead, SortedMap.get?_insert, if_pos rfl] at hr'
  cases hr'
  obtain ⟨e, he⟩ := hr
  rw [he] at hd
  cases hd

/-- What snapshots fix is what those with heads that can be read fix. -/
theorem fixes_of_brokenHead_iff (hr : r.IsBrokenHead x) {w : TableId} {v : Version} :
    (s.withHead x r).Fixes w t v ↔ w ≠ x ∧ s.Fixes w t v := by
  by_cases hw : w = x
  · subst hw
    constructor
    · rintro ⟨y, source, hy, -⟩
      exact absurd hy (table_of_brokenHead hr y)
    · rintro ⟨hne, -⟩
      exact absurd rfl hne
  · unfold Fixes
    rw [(s.sameBut_withHead x r).table_eq hw]
    exact (and_iff_right hw).symm

/-- A version is reachable if it stays readable or some snapshot fixes it. -/
theorem isReachable_iff {v : Version} : s.IsReachable t v ↔
    (∃ rs k, s.retainedVersions t = .ok rs ∧ k ∈ rs ∧ k.version = v) ∨ ∃ w, s.Fixes w t v :=
  Iff.rfl

/-- With a broken head only what its table fixes is no longer reachable. -/
theorem isReachable_of_brokenHead_iff (ht : t ≠ x) (hr : r.IsBrokenHead x) {v : Version} :
    s.IsReachable t v ↔ (s.withHead x r).IsReachable t v ∨ s.Fixes x t v := by
  rw [isReachable_iff, isReachable_iff, (s.sameBut_withHead x r).retainedVersions_eq ht, or_assoc]
  refine or_congr_right ?_
  simp only [fixes_of_brokenHead_iff hr]
  constructor
  · rintro ⟨w, hw⟩
    by_cases hwx : w = x
    · exact .inr (hwx ▸ hw)
    · exact .inl ⟨w, hwx, hw⟩
  · rintro (⟨w, -, hw⟩ | hx)
    · exact ⟨w, hw⟩
    · exact ⟨x, hx⟩

/-- A broken head fixes no version that was not fixed before. -/
theorem mem_pins_of_brokenHead (hr : r.IsBrokenHead x) {v : Version}
    (hv : v ∈ (s.withHead x r).tables.flatMap (pins t)) :
    v ∈ s.tables.flatMap (pins t) := by
  obtain ⟨w, hw⟩ := mem_tables_pins_iff.1 hv
  exact mem_tables_pins_iff.2 ⟨w, ((fixes_of_brokenHead_iff hr).1 hw).2⟩

/-- A column can be reclaimed beside a broken head if it can be without it, or
if the broken head is that of a snapshot that alone held it back. -/
theorem ReadsFrom.mem_reclaimCandidates_of_brokenHead {l : Ledger} (hl : s.ReadsFrom t l)
    (ht : t ≠ x) (hr : r.IsBrokenHead x) {cs cs' : List ColumnId}
    (hcs : (s.reclaimCandidates t).result = .ok cs)
    (hcs' : ((s.withHead x r).reclaimCandidates t).result = .ok cs') {id : ColumnId} :
    id ∈ cs' ↔ id ∈ cs ∨ ∃ e d, l.head.history.get? id = some e ∧ e.dropped = some d ∧
      s.HoldsBack x t d ∧ ∀ v k, (s.withHead x r).IsReachable t v →
        s.dataVersion t v = .ok k → d ≤ k.schemaVersion := by
  have hsame := s.sameBut_withHead x r
  rw [hl.mem_reclaimCandidates_iff hcs, (hsame.readsFrom ht hl).mem_reclaimCandidates_iff hcs']
  simp only [hsame.dataVersion_eq ht]
  constructor
  · rintro ⟨e, d, he, hd, hle⟩
    by_cases hheld : s.HoldsBack x t d
    · exact .inr ⟨e, d, he, hd, hheld, hle⟩
    · left
      refine ⟨e, d, he, hd, fun v k hv hk => ?_⟩
      rcases (isReachable_of_brokenHead_iff ht hr).1 hv with hv | hv
      · exact hle v k hv hk
      · by_contra hlt
        exact hheld ⟨v, k, hv, hk, Nat.lt_of_not_le hlt⟩
  · rintro (⟨e, d, he, hd, hle⟩ | ⟨e, d, he, hd, -, hle⟩)
    · exact ⟨e, d, he, hd, fun v k hv hk =>
        hle v k ((isReachable_of_brokenHead_iff ht hr).2 (.inl hv)) hk⟩
    · exact ⟨e, d, he, hd, hle⟩

/-- A column that is held back cannot be reclaimed. -/
theorem ReadsFrom.notMem_of_holdsBack {l : Ledger} (hl : s.ReadsFrom t l) {cs : List ColumnId}
    (hcs : (s.reclaimCandidates t).result = .ok cs) {id : ColumnId} {e : ColumnLife}
    (he : l.head.history.get? id = some e) {d : SchemaVersion} (hd : e.dropped = some d)
    (hheld : s.HoldsBack x t d) : id ∉ cs := by
  intro hid
  obtain ⟨e', d', he', hd', hle⟩ := (hl.mem_reclaimCandidates_iff hcs).1 hid
  rw [he] at he'
  cases he'
  rw [hd] at hd'
  cases hd'
  obtain ⟨v, k, hfixes, hk, hlt⟩ := hheld
  exact Nat.not_le.2 hlt (hle v k (.inr ⟨x, hfixes⟩) hk)

end Store

/-- After any run, if the head of another table is replaced by a record that
cannot be read, the columns to reclaim are still told of every table. None of
them is lost, and those that come in addition are the ones that only a snapshot
under the broken head held back. -/
theorem Catalog.reclaimCandidates_of_brokenHead {config : Config} {registry : Registry}
    {as : List Action} (ha : (fresh config registry).Admits as) {t x : TableId} (ht : t ≠ x)
    {y : Table} (hy : ((fresh config registry).after as).store.table t = .ok y) {r : Record}
    (hr : r.IsBrokenHead x) :
    ∃ cs cs',
      (((fresh config registry).after as).store.reclaimCandidates t).result = .ok cs ∧
      ((((fresh config registry).after as).store.withHead x r).reclaimCandidates t).result =
        .ok cs' ∧
      cs ⊆ cs' ∧
      ∀ id, (id ∈ cs' ∧ id ∉ cs) ↔
        ∃ e d, y.head.history.get? id = some e ∧ e.dropped = some d ∧
          ((fresh config registry).after as).store.HoldsBack x t d ∧
          ∀ v k, (((fresh config registry).after as).store.withHead x r).IsReachable t v →
            ((fresh config registry).after as).store.dataVersion t v = .ok k →
              d ≤ k.schemaVersion := by
  obtain ⟨σ, hc, _, hσ⟩ := (keeps_fresh config registry).after_based Ledgers.based_empty ha
  obtain ⟨l, hl, rfl⟩ := hc.store.exists_ledger hy
  have hreads := hc.readsFrom hl
  have hpins := hc.le_of_mem_pins hσ hl
  have hreads' := (Store.sameBut_withHead _ x r).readsFrom ht hreads
  obtain ⟨cs, hcs⟩ := hreads.exists_reclaimCandidates hpins
  obtain ⟨cs', hcs'⟩ := hreads'.exists_reclaimCandidates fun v hv =>
    hpins v (Store.mem_pins_of_brokenHead hr hv)
  refine ⟨cs, cs', hcs, hcs', fun id hid => ?_, fun id => ?_⟩
  · exact (hreads.mem_reclaimCandidates_of_brokenHead ht hr hcs hcs').2 (.inl hid)
  have hmem : id ∈ cs' ↔ _ := hreads.mem_reclaimCandidates_of_brokenHead ht hr hcs hcs'
  constructor
  · rintro ⟨hid', hid⟩
    exact (hmem.1 hid').resolve_left hid
  · intro hfreed
    refine ⟨hmem.2 (.inr hfreed), ?_⟩
    obtain ⟨e, d, he, hd, hheld, _⟩ := hfreed
    exact hreads.notMem_of_holdsBack hcs he hd hheld

namespace Sample

/-- A snapshot is taken, and then a column is dropped that it shows. -/
def keepsake : List Action := creation ++ [
  .perform 2 (.createView frozen {
    dir := home
    name := "frozen"
    base := people
    isSnapshot := true }),
  .perform 3 (.dropColumn people 0 "nick")]

/-- A record that lacks most of what a head has. -/
def brokenHead : Record := .plain (some home) (.obj [("name", .str "broken")])

end Sample

theorem Sample.reclaimCandidates_keepsake :
    Sample.start.Admits Sample.keepsake ∧ Sample.people ≠ Sample.frozen ∧
      Sample.brokenHead.IsBrokenHead Sample.frozen ∧
      ∃ y, (Sample.start.after Sample.keepsake).store.table Sample.people = .ok y ∧
      ∃ cs cs',
        ((Sample.start.after Sample.keepsake).store.reclaimCandidates Sample.people).result =
          .ok cs ∧
        (((Sample.start.after Sample.keepsake).store.withHead Sample.frozen
          Sample.brokenHead).reclaimCandidates Sample.people).result = .ok cs' ∧
        cs ⊆ cs' ∧
        ∀ id, (id ∈ cs' ∧ id ∉ cs) ↔
          ∃ e d, y.head.history.get? id = some e ∧ e.dropped = some d ∧
            (Sample.start.after Sample.keepsake).store.HoldsBack Sample.frozen Sample.people d ∧
            ∀ v k, ((Sample.start.after Sample.keepsake).store.withHead Sample.frozen
              Sample.brokenHead).IsReachable Sample.people v →
                (Sample.start.after Sample.keepsake).store.dataVersion Sample.people v = .ok k →
                  d ≤ k.schemaVersion := by
  have ha : Sample.start.Admits Sample.keepsake := by decide +kernel
  have hne : Sample.people ≠ Sample.frozen := by decide +kernel
  have hr : Sample.brokenHead.IsBrokenHead Sample.frozen :=
    exists_error_of_toOption (by decide +kernel)
  have htable : ((Sample.start.after Sample.keepsake).store.table
      Sample.people).toOption.isSome = true := by decide +kernel
  obtain ⟨y, hy⟩ := Option.isSome_iff_exists.1 htable
  exact ⟨ha, hne, hr, y, eq_ok_of_toOption hy,
    Catalog.reclaimCandidates_of_brokenHead ha hne (eq_ok_of_toOption hy) hr⟩

/-- The snapshot holds the dropped column back; when its head is broken, the
column can be reclaimed. -/
theorem Sample.freed_frozen :
    Sample.start.Admits Sample.keepsake ∧ Sample.people ≠ Sample.frozen ∧
      Sample.brokenHead.IsBrokenHead Sample.frozen ∧
      ((Sample.start.after Sample.keepsake).store.reclaimCandidates Sample.people).result =
        .ok [] ∧
      (((Sample.start.after Sample.keepsake).store.withHead Sample.frozen
        Sample.brokenHead).reclaimCandidates Sample.people).result = .ok [1] :=
  ⟨by decide +kernel, by decide +kernel, exists_error_of_toOption (by decide +kernel),
    eq_ok_of_toOption (by decide +kernel), eq_ok_of_toOption (by decide +kernel)⟩

end Cadastre
