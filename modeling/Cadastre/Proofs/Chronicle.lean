/-
# The history of the columns

A head chronicles the schema versions of its table: its history has an entry
for every column number given out, and a schema version holds a column exactly
if the column lives at it, from the schema version that added it up to the one
that dropped it. A draft continues the schema versions before it if its head
chronicles them and its own.

A column that is dropped in a draft was added before it, as only columns of the
schema version before are dropped, so no entry ends where it begins.

Key definitions: `ColumnLife.LivesAt`, `Chronicle`, `Draft.Continues`.
Key theorems: `Draft.Continues.adopt`, `Draft.Continues.retired`,
`Chronicle.next`, `Draft.Continues.chronicle`.
-/
import Cadastre.Catalog.Alter
import Cadastre.Proofs.Ledger
import Cadastre.Proofs.Listing

namespace Cadastre

namespace SortedMap

variable {κ β : Type} [LT κ]

@[simp] theorem keys_empty : (empty : SortedMap κ β).keys = [] := rfl

variable [DecidableEq κ] [KeyOrder κ]

theorem mem_keys_insert [DecidableLT κ] {m : SortedMap κ β} {k j : κ} {b : β} :
    j ∈ (m.insert k b).keys ↔ j = k ∨ j ∈ m.keys := by
  simp only [mem_keys_iff, get?_insert]
  by_cases hj : j = k <;> simp [hj]

theorem mem_keys_erase {m : SortedMap κ β} {k j : κ} :
    j ∈ (m.erase k).keys ↔ j ≠ k ∧ j ∈ m.keys := by
  simp only [mem_keys_iff, get?_erase]
  by_cases hj : j = k <;> simp [hj]

/-- A map whose keys are the numbers below `n` lists them. -/
theorem keys_eq_range {m : SortedMap Nat β} {n : Nat} (h : ∀ k, k ∈ m.keys ↔ k < n) :
    m.keys = List.range n := by
  have hm : m.keys.Pairwise (· < ·) := List.pairwise_map.2 m.sorted
  have hperm : m.keys.Perm (List.range n) :=
    (List.perm_ext_iff_of_nodup (hm.imp Nat.ne_of_lt) List.nodup_range).2 fun k => by
      rw [h, List.mem_range]
  exact hperm.eq_of_pairwise (fun a b _ _ hab hba => absurd hba (Nat.lt_asymm hab)) hm
    List.pairwise_lt_range

end SortedMap

/-- A column lives at a schema version: it was added by then and not yet dropped. -/
def ColumnLife.LivesAt (l : ColumnLife) (v : SchemaVersion) : Prop :=
  l.added ≤ v ∧ ∀ d ∈ l.dropped, v < d

/-- What the history says of a column of a table at a schema version. -/
structure ColumnLife.Recorded (l : ColumnLife) (id : ColumnId) (current : SchemaVersion) :
    Prop where
  filed : l.column = id
  added : l.added ≤ current
  dropped : ∀ d ∈ l.dropped, l.added < d ∧ d ≤ current

/-- The history of the head says which schema versions hold which columns. -/
structure Chronicle (h : TableHead) (schemas : List Schema) : Prop where
  length : schemas.length = h.schemaVersion + 1
  allocated : ∀ id, id ∈ h.history.keys ↔ id < h.nextColumn
  recorded : ∀ id l, h.history.get? id = some l → l.Recorded id h.schemaVersion
  member : ∀ v k, schemas[v]? = some k → ∀ id,
    id ∈ k.columns.keys ↔ ∃ l, h.history.get? id = some l ∧ l.LivesAt v

/-- The head of a draft chronicles the schema versions `old` and, after them,
the schema of the draft. -/
structure Draft.Continues (d : Draft) (old : List Schema) : Prop where
  version : d.schema.version = old.length
  schemaVersion : d.head.schemaVersion = old.length
  allocated : ∀ id, id ∈ d.head.history.keys ↔ id < d.head.nextColumn
  recorded : ∀ id l, d.head.history.get? id = some l → l.Recorded id old.length
  past : ∀ v k, old[v]? = some k → ∀ id,
    id ∈ k.columns.keys ↔ ∃ l, d.head.history.get? id = some l ∧ l.LivesAt v
  current : ∀ id, id ∈ d.schema.columns.keys ↔
    ∃ l, d.head.history.get? id = some l ∧ l.LivesAt old.length

namespace Chronicle

variable {h : TableHead} {schemas : List Schema}

/-- Only the counters and the history of columns matter. -/
theorem congr {h' : TableHead} (hc : Chronicle h schemas)
    (hv : h'.schemaVersion = h.schemaVersion) (hn : h'.nextColumn = h.nextColumn)
    (hh : h'.history = h.history) : Chronicle h' schemas where
  length := by rw [hv, hc.length]
  allocated id := by rw [hh, hn, hc.allocated]
  recorded id l hl := by rw [hv]; exact hc.recorded id l (hh ▸ hl)
  member v k hk id := by rw [hh, hc.member v k hk]

/-- The entries pass the rule of a head. -/
theorem sound (hc : Chronicle h schemas) (hv : h.schemaVersion ≤ h.version)
    (hview : ∀ v ∈ h.view, v.Sound) : h.Sound where
  versions := hv
  history id l hl := by
    have hr := hc.recorded id l hl
    exact ⟨hr.filed, (hc.allocated id).1 (h.history.mem_keys_iff.2 ⟨l, hl⟩), hr.added,
      fun d hd => (hr.dropped d hd).1⟩
  view := hview

theorem readable (hc : Chronicle h schemas) (hn : h.nextColumn < 2 ^ 32) : h.Readable where
  next := hn
  columns id l hl := by
    have hid := (hc.allocated id).1 (h.history.mem_keys_iff.2 ⟨l, hl⟩)
    rw [(hc.recorded id l hl).filed]
    exact ⟨Nat.lt_trans hid hn, Nat.lt_trans hid hn⟩

/-- The next draft holds what the current schema version holds. -/
theorem next (hc : Chronicle h schemas) {k : Schema} (hk : schemas[h.schemaVersion]? = some k) :
    (Catalog.nextDraft h k).Continues schemas where
  version := hc.length.symm
  schemaVersion := hc.length.symm
  allocated := hc.allocated
  recorded id l hl := by
    have hr := hc.recorded id l hl
    rw [hc.length]
    exact ⟨hr.filed, Nat.le_succ_of_le hr.added,
      fun d hd => ⟨(hr.dropped d hd).1, Nat.le_succ_of_le (hr.dropped d hd).2⟩⟩
  past := hc.member
  current id := by
    refine (hc.member _ k hk id).trans (exists_congr fun l => and_congr_right fun hl => ?_)
    have hr := hc.recorded id l hl
    -- an entry that is closed was closed by the current schema version
    constructor
    · rintro ⟨ha, hd⟩
      exact ⟨by rw [hc.length]; exact Nat.le_succ_of_le ha,
        fun d hd' => absurd (hd d hd') (Nat.not_lt.2 (hr.dropped d hd').2)⟩
    · rintro ⟨_, hd⟩
      exact ⟨hr.added, fun d hd' => by
        have hlt := hd d hd'
        rw [hc.length] at hlt
        exact Nat.lt_of_succ_lt hlt⟩

/-- Every column of the next draft was added before it. -/
theorem added_lt_next (hc : Chronicle h schemas) {id : ColumnId} {l : ColumnLife}
    (hl : h.history.get? id = some l) : l.added < schemas.length := by
  rw [hc.length]
  exact Nat.lt_succ_of_le (hc.recorded id l hl).added

end Chronicle

namespace Draft

/-- The draft without a column, whose entry ends with the draft's schema version. -/
def retired (d : Draft) (id : ColumnId) (l : ColumnLife) : Draft where
  head := { d.head with
    history := d.head.history.insert id { l with dropped := some d.head.schemaVersion } }
  schema := { d.schema with columns := d.schema.columns.erase id }

theorem retire_eq_ok_iff {d d' : Draft} {t : TableId} {id : ColumnId} :
    d.retire t id = .ok d' ↔ ∃ l, d.head.history.get? id = some l ∧ d' = d.retired id l := by
  unfold retire
  cases hl : d.head.history.get? id with
  | none => simp
  | some l =>
    simp only [Except.ok.injEq, Option.some.injEq, exists_eq_left']
    exact eq_comm

namespace Continues

variable {d : Draft} {old : List Schema}

/-- The draft of a table or view without columns continues nothing. -/
theorem start {name : String} {retained : UInt32} {comment : String} {view : Option ViewSource} :
    Draft.Continues ⟨⟨name, 0, 0, 0, 0, .empty, view⟩, ⟨0, none, .empty, retained, comment⟩⟩
      [] where
  version := rfl
  schemaVersion := rfl
  allocated id := by simp
  recorded id l hl := by cases hl
  past v k hk := by cases hk
  current id := by simp

theorem nextColumn_fresh (hd : d.Continues old) : d.head.history.get? d.head.nextColumn = none := by
  cases hl : d.head.history.get? d.head.nextColumn with
  | none => rfl
  | some l =>
    have hmem := d.head.history.mem_keys_iff.2 ⟨l, hl⟩
    exact absurd ((hd.allocated _).1 hmem) (Nat.lt_irrefl _)

/-- The columns of the draft were given out. -/
theorem lt_nextColumn (hd : d.Continues old) {id : ColumnId} (hid : id ∈ d.schema.columns.keys) :
    id < d.head.nextColumn := by
  obtain ⟨l, hl, _⟩ := (hd.current id).1 hid
  exact (hd.allocated id).1 (d.head.history.mem_keys_iff.2 ⟨l, hl⟩)

/-- A column under the next number opens an entry, and lives at no earlier
schema version. -/
theorem adopt (hd : d.Continues old) (c : Column) : (d.adopt c).Continues old where
  version := hd.version
  schemaVersion := hd.schemaVersion
  allocated id := by
    refine SortedMap.mem_keys_insert.trans ?_
    rw [hd.allocated]
    exact or_comm.trans Nat.lt_succ_iff_lt_or_eq.symm
  recorded id l hl := by
    simp only [Draft.adopt, SortedMap.get?_insert] at hl
    split at hl
    · rename_i hid
      cases hl
      exact ⟨hid.symm, Nat.le_of_eq hd.version, fun d hd => by simp at hd⟩
    · exact hd.recorded id l hl
  past v k hk id := by
    have hv : v < old.length := (List.getElem?_eq_some_iff.1 hk).1
    rw [hd.past v k hk]
    simp only [Draft.adopt, SortedMap.get?_insert]
    by_cases hid : id = d.head.nextColumn
    · subst hid
      simp [hd.nextColumn_fresh, ColumnLife.LivesAt, hd.version, hv]
    · simp [hid]
  current id := by
    simp only [Draft.adopt, SortedMap.mem_keys_insert, SortedMap.get?_insert, hd.current]
    by_cases hid : id = d.head.nextColumn
    · subst hid
      simp [ColumnLife.LivesAt, hd.version]
    · simp [hid]

/-- A column of an earlier schema version is taken out: its entry ends with the
draft, at which it lives no more. -/
theorem retired (hd : d.Continues old) {id : ColumnId} {l : ColumnLife}
    (hl : d.head.history.get? id = some l) (hid : id ∈ d.schema.columns.keys)
    (hadded : l.added < old.length) : (d.retired id l).Continues old := by
  obtain ⟨l', hl', hlives⟩ := (hd.current id).1 hid
  rw [hl, Option.some.injEq] at hl'
  subst hl'
  have hopen : l.dropped = none := by
    cases hdrop : l.dropped with
    | none => rfl
    | some v =>
      have hle := ((hd.recorded id l hl).dropped v hdrop).2
      exact absurd (hlives.2 v hdrop) (Nat.not_lt.2 hle)
  refine ⟨hd.version, hd.schemaVersion, fun i => ?_, fun i m hm => ?_, fun v k hk i => ?_,
    fun i => ?_⟩
  · refine (SortedMap.mem_keys_insert.trans (or_iff_right_of_imp ?_)).trans (hd.allocated i)
    rintro rfl
    exact d.head.history.mem_keys_iff.2 ⟨l, hl⟩
  · simp only [Draft.retired, SortedMap.get?_insert] at hm
    split at hm
    · rename_i hi
      cases hm
      refine ⟨hi ▸ (hd.recorded id l hl).filed, (hd.recorded id l hl).added, fun v hv => ?_⟩
      cases hv
      exact ⟨hd.schemaVersion ▸ hadded, Nat.le_of_eq hd.schemaVersion⟩
    · exact hd.recorded i m hm
  · have hv : v < old.length := (List.getElem?_eq_some_iff.1 hk).1
    rw [hd.past v k hk]
    simp only [Draft.retired, SortedMap.get?_insert]
    by_cases hi : i = id
    · subst hi
      simp [hl, ColumnLife.LivesAt, hopen, hd.schemaVersion, hv]
    · simp [hi]
  · simp only [Draft.retired, SortedMap.mem_keys_erase, SortedMap.get?_insert, hd.current]
    by_cases hi : i = id
    · subst hi
      simp [ColumnLife.LivesAt, hd.schemaVersion]
    · simp [hi]

/-- A draft with the same columns under other names, types or positions. -/
theorem congr {s : Schema} (hd : d.Continues old) (hv : s.version = d.schema.version)
    (hkeys : ∀ id, id ∈ s.columns.keys ↔ id ∈ d.schema.columns.keys) :
    Draft.Continues { d with schema := s } old where
  version := hv.trans hd.version
  schemaVersion := hd.schemaVersion
  allocated := hd.allocated
  recorded := hd.recorded
  past := hd.past
  current id := (hkeys id).trans (hd.current id)

theorem update (hd : d.Continues old) {id : ColumnId} (hid : id ∈ d.schema.columns.keys)
    (c : Column) : (d.update id c).Continues old :=
  hd.congr rfl fun i => by
    rw [SortedMap.mem_keys_insert, or_iff_right_of_imp]
    rintro rfl
    exact hid

/-- The head of a draft chronicles the schema versions with the draft's. -/
theorem chronicle (hd : d.Continues old) : Chronicle d.head (old ++ [d.schema]) where
  length := by simp [hd.schemaVersion]
  allocated := hd.allocated
  recorded := hd.schemaVersion ▸ hd.recorded
  member v k hk id := by
    rcases getElem?_concat_eq_some_iff.1 hk with hk | ⟨rfl, rfl⟩
    · exact hd.past v k hk id
    · exact hd.current id

end Continues
end Draft
end Cadastre
