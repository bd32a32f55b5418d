/-
# Scans visit one kind of records, in order

Keys are compared as a whole, yet the records that a scan is for lie together: a range has
the keys of one kind, and those of versions the keys of one table, up to the last version
that is reached. In such a range the order of the keys is that of what they are made from,
so a scan visits its records in the order of their identifiers, or of their versions
(`Store.visits_of_contains`). What the lists of a table's versions give is what the
look-ups of the visited versions give, one after the other
(`Store.Visits.exists_reached`).

Key definitions: `Store.Visits`.
Key theorems: `Store.visits_of_contains`, `Store.decodeAll_eq_mapM`, `Store.isolatedScans`.
-/
import Cadastre.Proofs.Scan
import Mathlib.Data.Set.List

namespace Cadastre
namespace Store

/-- The scan of the range visits the records under the keys `key i` of all `i` that are
reached, in increasing order of the `i`, and no other record. -/
def Visits {ι : Type} [LT ι] (s : Store) (r : KeyRange) (key : ι → Key) (reached : ι → Prop) :
    Prop :=
  ∃ l : List (ι × Record), s.scan r = l.map (fun e => (key e.1, e.2)) ∧
    (l.Pairwise fun a b => a.1 < b.1) ∧
    ∀ i x, (i, x) ∈ l ↔ reached i ∧ s.get? (key i) = some x

section Visits

variable {ι : Type} [LT ι] {r : KeyRange} {key : ι → Key} {reached : ι → Prop}

/-- If a range has exactly the keys of what is reached, and keys are in the order of what
they are made from, then its scan visits that. -/
theorem visits_of_contains (s : Store)
    (hcontains : ∀ k, r.contains k = true ↔ ∃ i, reached i ∧ k = key i)
    (hlt : ∀ i j, key i < key j → i < j) (hinjective : Function.Injective key) :
    s.Visits r key reached := by
  have hrange : s.scan r ∈ Set.range (List.map fun e : ι × Record => (key e.1, e.2)) := by
    rw [Set.range_list_map]
    intro e he
    obtain ⟨i, -, hi⟩ := (hcontains e.1).1 ((mem_scan_iff s r).1 he).2
    exact ⟨(i, e.2), Prod.ext hi.symm rfl⟩
  obtain ⟨l, hl⟩ := hrange
  have hmem : ∀ i x, (i, x) ∈ l ↔ (key i, x) ∈ s.scan r := by
    intro i x
    rw [← hl, List.mem_map]
    constructor
    · exact fun h => ⟨(i, x), h, rfl⟩
    · rintro ⟨⟨j, y⟩, hj, heq⟩
      obtain ⟨hkey, rfl⟩ := Prod.mk.inj heq
      rwa [← hinjective hkey]
  refine ⟨l, hl.symm, ?_, fun i x => ?_⟩
  · have hsorted := s.pairwise_scan r
    rw [← hl, List.pairwise_map] at hsorted
    exact hsorted.imp (hlt _ _)
  · rw [hmem, mem_scan_iff, hcontains]
    constructor
    · rintro ⟨hx, j, hj, hkey⟩
      rw [hinjective hkey]
      exact ⟨hj, by rwa [← hinjective hkey]⟩
    · rintro ⟨hi, hx⟩
      exact ⟨hx, i, hi, rfl⟩

end Visits

/-! ### The four ranges -/

section Ranges

variable (s : Store) (t : TableId)

theorem visits_tableVersions : s.Visits (.tableVersions t) (.tableVersion t) (· ≤ maxVersion) := by
  refine s.visits_of_contains (fun _ => KeyRange.contains_tableVersions_iff) (fun v w h => ?_)
    fun v w h => (Key.tableVersion.inj h).2
  rw [Key.lt_def] at h
  simpa [Key.kind, Key.owner, Key.version] using h

theorem visits_schemaVersions :
    s.Visits (.schemaVersions t) (.schemaVersion t) (· ≤ maxVersion) := by
  refine s.visits_of_contains (fun _ => KeyRange.contains_schemaVersions_iff) (fun v w h => ?_)
    fun v w h => (Key.schemaVersion.inj h).2
  rw [Key.lt_def] at h
  simpa [Key.kind, Key.owner, Key.version] using h

theorem visits_dirs : s.Visits .dirs .dir fun _ => True := by
  refine s.visits_of_contains (fun k => ?_) (fun d e h => ?_) fun d e h => Key.dir.inj h
  · simp only [KeyRange.contains_dirs_iff, true_and]
  · rw [Key.lt_def] at h
    exact Uuid.lt_def.2 (by simpa [Key.kind, Key.owner, Key.version] using h)

theorem visits_tables : s.Visits .tables .table fun _ => True := by
  refine s.visits_of_contains (fun k => ?_) (fun t u h => ?_) fun t u h => Key.table.inj h
  · simp only [KeyRange.contains_tables_iff, true_and]
  · rw [Key.lt_def] at h
    exact Uuid.lt_def.2 (by simpa [Key.kind, Key.owner, Key.version] using h)

end Ranges

/-! ### The lists of a table's versions -/

/-- Records that decode one by one are read one by one. -/
theorem decodeAll_eq_mapM {ι α : Type} [Payload α] {key : ι → Key} {read : ι → Except Error α}
    {l : List (ι × Record)}
    (hread : ∀ e ∈ l, read e.1 = Payload.decode (key e.1) e.2.content) :
    decodeAll α (l.map fun e => (key e.1, e.2)) = (l.map (·.1)).mapM read := by
  induction l with
  | nil => rfl
  | cons e l ih =>
    rw [List.forall_mem_cons] at hread
    rw [List.map_cons, List.map_cons, List.mapM_cons, hread.1, decodeAll, ih hread.2]
    rfl

variable {s : Store} {t : TableId}

theorem dataVersion_of_get? {v : Version} {x : Record} (h : s.get? (.tableVersion t v) = some x) :
    s.dataVersion t v = Payload.decode (.tableVersion t v) x.content := by
  simp only [dataVersion, read?, h]
  cases (Payload.decode (.tableVersion t v) x.content : Except Error DataVersion) <;> rfl

theorem schema_of_get? {v : SchemaVersion} {x : Record}
    (h : s.get? (.schemaVersion t v) = some x) :
    s.schema t v = Payload.decode (.schemaVersion t v) x.content := by
  unfold schema require
  rw [h]

/-- What a scan visits, without the records. -/
theorem Visits.exists_reached {ι : Type} [LT ι] {r : KeyRange} {key : ι → Key}
    {reached : ι → Prop} (h : s.Visits r key reached) {α : Type} [Payload α]
    {read : ι → Except Error α}
    (hread : ∀ i x, s.get? (key i) = some x → read i = Payload.decode (key i) x.content) :
    ∃ is : List ι, is.Pairwise (· < ·) ∧
      (∀ i, i ∈ is ↔ reached i ∧ ∃ x, s.get? (key i) = some x) ∧
        decodeAll α (s.scan r) = is.mapM read := by
  obtain ⟨l, hscan, hsorted, hmem⟩ := h
  refine ⟨l.map (·.1), List.pairwise_map.2 hsorted, fun i => ?_, ?_⟩
  · rw [List.mem_map]
    constructor
    · rintro ⟨⟨i, x⟩, hx, rfl⟩
      obtain ⟨hi, hget⟩ := (hmem i x).1 hx
      exact ⟨hi, x, hget⟩
    · rintro ⟨hi, x, hget⟩
      exact ⟨(i, x), (hmem i x).2 ⟨hi, hget⟩, rfl⟩
  · rw [hscan]
    exact decodeAll_eq_mapM fun e he => hread e.1 e.2 ((hmem e.1 e.2).1 he).2

/-- Keys are totally ordered. The scans of a table's data versions and schema versions
visit exactly the records of that kind and table with a version that is reached, in the
order of the versions; the lists read these versions one after the other. The scans of
directories and of heads visit exactly the records of their kind, in the order of the
identifiers. -/
theorem isolatedScans (s : Store) (t : TableId) :
    ((∀ a : Key, ¬ a < a) ∧ (∀ a b c : Key, a < b → b < c → a < c) ∧
      ∀ a b : Key, a < b ∨ a = b ∨ b < a) ∧
    s.Visits (.tableVersions t) (.tableVersion t) (· ≤ maxVersion) ∧
    s.Visits (.schemaVersions t) (.schemaVersion t) (· ≤ maxVersion) ∧
    s.Visits .dirs .dir (fun _ => True) ∧
    s.Visits .tables .table (fun _ => True) ∧
    (∃ vs : List Version, vs.Pairwise (· < ·) ∧
      (∀ v, v ∈ vs ↔ v ≤ maxVersion ∧ ∃ x, s.get? (.tableVersion t v) = some x) ∧
        s.dataVersions t = vs.mapM (s.dataVersion t)) ∧
    (∃ vs : List SchemaVersion, vs.Pairwise (· < ·) ∧
      (∀ v, v ∈ vs ↔ v ≤ maxVersion ∧ ∃ x, s.get? (.schemaVersion t v) = some x) ∧
        s.schemas t = vs.mapM (s.schema t)) :=
  ⟨⟨KeyOrder.irrefl, fun _ _ _ => KeyOrder.trans, KeyOrder.trichotomy⟩,
    s.visits_tableVersions t, s.visits_schemaVersions t, s.visits_dirs, s.visits_tables,
    (s.visits_tableVersions t).exists_reached fun _ _ => dataVersion_of_get?,
    (s.visits_schemaVersions t).exists_reached fun _ _ => schema_of_get?⟩

end Store
end Cadastre
