/-
# The history is only appended to

No operation changes or removes the record of a version that an earlier one
completed, whatever the clock shows, whatever the literals are and wherever
operations break off: the keys of a version that is written are those of no
version that was completed. So a version that is read twice reads the same.

Key definitions: `Key.isVersion`.
Key theorems: `Progress.lists`, `Catalog.Holds.afterAttempts`,
`Store.Holds.snapshot_eq`, `Catalog.appendOnly`.
-/
import Cadastre.Proofs.Archive
import Cadastre.Proofs.Window
import Cadastre.Proofs.Reclaim

namespace Cadastre

/-- The key of a data version or a schema version. -/
def Key.isVersion : Key → Bool
  | tableVersion .. => true
  | schemaVersion .. => true
  | _ => false

/-! ### Completed records are listed -/

/-- The records of a version that is pushed are listed. -/
theorem Ledger.Follows.lists {σ : Ledgers} {t : TableId} {l : Ledger} {now : Float} {h : TableHead}
    {schema : Option Schema} (hf : l.Follows h schema) {w : Key × Record}
    (hw : w ∈ commitWrites t l.dir now h schema) (hkey : w.1.isVersion = true) :
    (σ.put t (l.push now h schema)).Lists w := by
  have hput : σ.put t (l.push now h schema) t = some (l.push now h schema) :=
    Ledgers.put_self _ _ _
  rcases Store.mem_commitWrites_iff.1 hw with ⟨k, hk, rfl⟩ | rfl | rfl
  · refine .schema hput ?_
    show (l.schemas ++ schema.toList)[k.version]? = some k
    rw [Option.mem_def.1 hk, hf.schema k hk]
    exact List.getElem?_concat_length
  · refine .version hput ?_
    show (l.versions ++ [⟨now, h.version, h.schemaVersion⟩])[h.version]? = _
    rw [hf.version]
    exact List.getElem?_concat_length
  · cases hkey

/-- The versions that an attempt completes are listed after it. -/
theorem Progress.lists {c : Catalog} {σ σ' : Ledgers} {a : Attempt} (h : Progress c σ a σ')
    {w : Key × Record} (hw : w ∈ c.completed a) (hkey : w.1.isVersion = true) : σ'.Lists w := by
  cases h with
  | still hs =>
    rw [Catalog.completed_of_success?_eq_none hs] at hw
    cases hw
  | done hs hwrites hstep =>
    rw [hwrites] at hw
    cases hstep with
    | foreign _ hforeign =>
      have hforeign := hforeign w hw
      cases hw' : w.1 <;> simp [hw', Key.isForeign, Key.isVersion] at hforeign hkey
    | birth _ _ _ _ hf hwrites =>
      rw [hwrites] at hw
      exact hf.lists hw hkey
    | mutation _ _ _ _ _ _ hf hwrites =>
      rw [hwrites] at hw
      exact hf.lists hw hkey

/-- Along a run of attempts the ledgers grow, and the versions that are completed
are listed in the end. -/
theorem Catalog.Holds.afterAttempts {c : Catalog} {σ : Ledgers} (hc : c.Holds σ)
    {as : List Attempt} (ha : c.IssuesFresh as) :
    ∃ σ', (c.afterAttempts as).Holds σ' ∧ σ.Extends σ' ∧
      ∀ w ∈ c.completions as, w.1.isVersion = true → σ'.Lists w := by
  induction as generalizing c σ with
  | nil => exact ⟨σ, hc, .refl σ, nofun⟩
  | cons a as ih =>
    obtain ⟨σ', hc', hprogress, hext⟩ := hc.attempt ha.1
    obtain ⟨σ'', hc'', hext', hlists⟩ := ih hc' ha.2
    refine ⟨σ'', hc'', hext.trans hext', fun w hw hkey => ?_⟩
    rcases List.mem_append.1 hw with hnow | hlater
    · exact hext'.lists (hprogress.lists hnow hkey)
    · exact hlists w hlater hkey

/-! ### Reading a version twice -/

namespace Store

variable {s s' : Store} {σ σ' : Ledgers} {t : TableId}

/-- A snapshot at a version reads the table at that version. -/
theorem snapshotAt_of_snapshot {v : Version} {sn : Snapshot}
    (h : s.snapshot t (some v) = .ok sn) :
    ∃ x, s.table t = .ok x ∧ s.snapshotAt x v = .ok sn := by
  obtain ⟨x, hx, h⟩ := bind_eq_ok_iff.1 h
  obtain ⟨rs, _, h⟩ := bind_eq_ok_iff.1 h
  split at h
  · exact ⟨x, hx, h⟩
  · cases h

/-- What a snapshot at a version reads is what the ledger lists. -/
theorem Holds.exists_of_snapshot (hs : s.Holds σ) (hσ : ∀ t l, σ t = some l → l.Numbered)
    {v : Version} {sn : Snapshot} (h : s.snapshot t (some v) = .ok sn) :
    ∃ l d k, σ t = some l ∧ l.versions[v]? = some d ∧ l.schemas[d.schemaVersion]? = some k ∧
      s.schema t d.schemaVersion = .ok sn.schema ∧ sn = ⟨t, l.head.name, d, sn.schema⟩ := by
  obtain ⟨x, hx, hat⟩ := snapshotAt_of_snapshot h
  obtain ⟨l, hl, rfl⟩ := hs.exists_ledger hσ hx
  obtain ⟨hv, d, k, hd, hk, rfl⟩ := snapshotAt_eq_ok hat
  have hl' : l.Numbered := hσ t l hl
  have hlt : v < l.versions.length := by
    rw [hl'.paired.length]
    exact Nat.lt_succ_of_le hv
  have hd' : l.versions[v]? = some l.versions[v] := List.getElem?_eq_getElem hlt
  obtain rfl := hs.eq_of_dataVersion hl hd' hd
  have hle := hl'.paired.schemaVersion_le hd'
  have hlt' : l.versions[v].schemaVersion < l.schemas.length := by
    rw [hl'.length]
    exact Nat.lt_succ_of_le hle
  exact ⟨l, _, _, hl, hd', List.getElem?_eq_getElem hlt', hk, rfl⟩

/-- A schema version that is listed reads the same from two stores that hold it. -/
theorem schema_eq_of_listed {v : SchemaVersion} {k : Schema} {w : Record}
    (h : s.get? (.schemaVersion t v) = some w) (h' : s'.get? (.schemaVersion t v) = some w)
    (hk : s.schema t v = .ok k) : s'.schema t v = .ok k := by
  rw [Store.schema, require, h']
  rw [Store.schema, require, h] at hk
  exact hk

/-- A snapshot at a version that is read again later reads the same. -/
theorem Holds.snapshot_eq (hs : s.Holds σ) (hσ : ∀ t l, σ t = some l → l.Numbered)
    (hs' : s'.Holds σ') (hσ' : ∀ t l, σ' t = some l → l.Numbered) (hext : σ.Extends σ')
    {v : Version} {sn sn' : Snapshot} (h : s.snapshot t (some v) = .ok sn)
    (h' : s'.snapshot t (some v) = .ok sn') : sn' = sn := by
  obtain ⟨l, d, k, hl, hd, hk, hschema, hsn⟩ := hs.exists_of_snapshot hσ h
  obtain ⟨l', d', k', hl', hd', hk', hschema', hsn'⟩ := hs'.exists_of_snapshot hσ' h'
  obtain ⟨m, hm, hgrow⟩ := hext t l hl
  rw [hl'] at hm
  cases hm
  have hversion : d' = d := by
    rw [getElem?_of_isPrefix hgrow.versions hd] at hd'
    cases hd'
    rfl
  subst hversion
  have hlisted := hs.listed _ (.schema hl hk)
  have hlisted' := hs'.listed _ (hext.lists (.schema hl hk))
  have hread := schema_eq_of_listed hlisted hlisted' hschema
  rw [hschema', Except.ok.injEq] at hread
  rw [hsn, hsn', hread, hgrow.name]

end Store

/-! ### Runs -/

/-- Along every run of attempts from an empty store the record of a version is,
once it is completed, in the store as it was written, at every later point; and
a version whose snapshot is taken at two points reads the same at both. -/
theorem Catalog.appendOnly {config : Config} {registry : Registry} {as bs : List Attempt}
    (ha : (fresh config registry).IssuesFresh (as ++ bs)) :
    (∀ w ∈ (fresh config registry).completions as, w.1.isVersion = true →
      ((fresh config registry).afterAttempts (as ++ bs)).store.get? w.1 = some w.2) ∧
    ∀ t v sn sn',
      ((fresh config registry).afterAttempts as).store.snapshot t (some v) = .ok sn →
      ((fresh config registry).afterAttempts (as ++ bs)).store.snapshot t (some v) = .ok sn' →
        sn' = sn := by
  rw [issuesFresh_append] at ha
  obtain ⟨σ, hc, _, hlists⟩ := (holds_fresh config registry).afterAttempts ha.1
  obtain ⟨σ', hc', hext, _⟩ := hc.afterAttempts ha.2
  rw [afterAttempts_append]
  refine ⟨fun w hw hkey => ?_, fun t v sn sn' hsn hsn' => ?_⟩
  · exact hc'.store.listed w (hext.lists (hlists w hw hkey))
  · exact hc.store.snapshot_eq hc.numbered hc'.store hc'.numbered hext hsn hsn'

/-- The first version of the table stays as it was created, though a change
breaks off and others follow. -/
theorem Sample.appendOnly_people :
    Sample.start.IssuesFresh (Sample.founding ++ Sample.mishap) ∧
      (Sample.start.completions Sample.founding).map (·.1) = [.dir Sample.home,
        .schemaVersion Sample.people 0, .tableVersion Sample.people 0, .table Sample.people] ∧
      (∀ w ∈ Sample.start.completions Sample.founding, w.1.isVersion = true →
        (Sample.start.afterAttempts (Sample.founding ++ Sample.mishap)).store.get? w.1 =
          some w.2) ∧
      ∀ t v sn sn',
        (Sample.start.afterAttempts Sample.founding).store.snapshot t (some v) = .ok sn →
        (Sample.start.afterAttempts (Sample.founding ++ Sample.mishap)).store.snapshot t (some v) =
          .ok sn' → sn' = sn := by
  have ha : Sample.start.IssuesFresh (Sample.founding ++ Sample.mishap) := by decide +kernel
  have hkeys : (Sample.start.completions Sample.founding).map (·.1) = [.dir Sample.home,
      .schemaVersion Sample.people 0, .tableVersion Sample.people 0, .table Sample.people] := by
    decide +kernel
  exact ⟨ha, hkeys, Catalog.appendOnly ha⟩

end Cadastre
