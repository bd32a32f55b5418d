/-
# Tables lie apart

The records of a table are its head and those of its versions. In two stores that
differ in the records of one table only, every read of another table answers the
same, whatever the records are, damaged ones included; a view that has the table
among its bases is the only one to tell them apart (`Store.SameBut.sameTable`).
And every mutation of the other table is planned the same
(`Store.SameBut.mutatesAs`).

Key definitions: `Key.table?`, `Store.SameBut`, `Store.IsBase`,
`Store.SameTable`.
Key theorems: `Store.SameBut.effectiveSchema_eq`, `Store.SameBut.sameTable`,
`Store.SameBut.mutatesAs`.
-/
import Cadastre.Proofs.EffectiveSchema
import Cadastre.Proofs.Frame
import Mathlib.Data.List.Basic

namespace Cadastre

/-- The table that a record belongs to. -/
def Key.table? : Key → Option TableId
  | table t => some t
  | tableVersion t _ => some t
  | schemaVersion t _ => some t
  | _ => none

namespace Store

/-- The stores differ in the records of table `x` only. -/
def SameBut (x : TableId) (s s' : Store) : Prop := ∀ k, k.table? ≠ some x → s'.get? k = s.get? k

/-- Table `y` is a view with `x` among its bases. -/
def IsBase (s : Store) (x y : TableId) : Prop :=
  ∃ table, s.table y = .ok table ∧ ∃ v, (x, v) ∈ table.head.chain

instance (s : Store) (x y : TableId) : Decidable (s.IsBase x y) :=
  decidable_of_iff
    ((s.table y).toOption.any (fun t => t.head.chain.any fun b => b.1 == x) = true) <| by
      unfold IsBase
      cases s.table y <;> simp [Except.toOption]

/-- Every read of table `y` answers the same in both stores, and so does the part
of the list of all tables that is about `y`. -/
structure SameTable (y : TableId) (s s' : Store) : Prop where
  table : s'.table y = s.table y
  listed : (s'.tables.filter fun t => t.id == y) = s.tables.filter fun t => t.id == y
  results : (s'.tableResults.filter fun r => r.1 == y) = s.tableResults.filter fun r => r.1 == y
  dataVersion : ∀ v, s'.dataVersion y v = s.dataVersion y v
  dataVersions : s'.dataVersions y = s.dataVersions y
  schema : ∀ v, s'.schema y v = s.schema y v
  schemas : s'.schemas y = s.schemas y
  retainedVersions : s'.retainedVersions y = s.retainedVersions y
  snapshot : ∀ v, s'.snapshot y v = s.snapshot y v
  effectiveSchema : ∀ v, s'.effectiveSchema y v = s.effectiveSchema y v

/-- The tables in the list of all tables are those of the results. -/
theorem filter_tables (s : Store) (y : TableId) : (s.tables.filter fun t => t.id == y) =
    (s.tableResults.filter fun r => r.1 == y).filterMap fun r => r.2.toOption := by
  rw [tables, List.filter_filterMap, List.filterMap_filter]
  apply List.filterMap_congr
  rintro ⟨u, result⟩ hr
  obtain ⟨r, _, rfl⟩ := mem_tableResults_iff.1 hr
  cases (Payload.decode (.table u) r.content : Except Error TableHead) with
  | error e => simp [Except.map, Except.toOption]
  | ok head => by_cases hu : u = y <;> simp [Except.map, Except.toOption, Option.filter, hu]

namespace SameBut

variable {x : TableId} {s s' : Store} (h : SameBut x s s')
include h


section Reads

variable {y : TableId} (hy : y ≠ x)
include hy

theorem get?_eq {k : Key} (hk : k.table? = some y) : s'.get? k = s.get? k := by
  apply h k
  rw [hk]
  exact fun heq => hy (Option.some.inj heq)

theorem table_eq : s'.table y = s.table y := by
  unfold table read?
  rw [h.get?_eq hy rfl]

theorem dataVersion_eq (v : Version) : s'.dataVersion y v = s.dataVersion y v := by
  unfold dataVersion read?
  rw [h.get?_eq hy rfl]

theorem schema_eq (v : SchemaVersion) : s'.schema y v = s.schema y v := by
  unfold schema require
  rw [h.get?_eq hy rfl]

theorem dataVersions_eq : s'.dataVersions y = s.dataVersions y := by
  unfold dataVersions
  rw [scan_congr fun k hk => ?_]
  obtain ⟨v, _, rfl⟩ := KeyRange.contains_tableVersions_iff.1 hk
  exact h.get?_eq hy rfl

theorem schemas_eq : s'.schemas y = s.schemas y := by
  unfold schemas
  rw [scan_congr fun k hk => ?_]
  obtain ⟨v, _, rfl⟩ := KeyRange.contains_schemaVersions_iff.1 hk
  exact h.get?_eq hy rfl

theorem retainedVersions_eq : s'.retainedVersions y = s.retainedVersions y := by
  unfold retainedVersions
  simp only [h.table_eq hy, h.schema_eq hy, h.dataVersions_eq hy]

theorem snapshotAt_eq {t : Table} (ht : t.id = y) (v : Version) :
    s'.snapshotAt t v = s.snapshotAt t v := by
  unfold snapshotAt
  simp only [ht, h.dataVersion_eq hy, h.schema_eq hy]

theorem snapshot_eq (v : Option Version) : s'.snapshot y v = s.snapshot y v := by
  unfold snapshot
  rw [h.table_eq hy, h.retainedVersions_eq hy]
  refine bind_congr_ok fun t ht => ?_
  simp only [h.snapshotAt_eq hy (id_of_table ht)]

/-- The head of `y` lies under one key, whatever other heads a scan passes. -/
theorem tableResults_eq : (s'.tableResults.filter fun r => r.1 == y) =
    s.tableResults.filter fun r => r.1 == y := by
  have hscan : ∀ s : Store, (s.tableResults.filter fun r => r.1 == y) =
      ((s.scan .tables).filter fun e => e.1 == .table y).filterMap tableOfRecord? := by
    intro s
    rw [tableResults, List.filter_filterMap, List.filterMap_filter]
    apply List.filterMap_congr
    rintro ⟨k, r⟩ hr
    obtain ⟨u, rfl⟩ := KeyRange.contains_tables_iff.1 ((mem_scan_iff s _).1 hr).2
    by_cases hu : u = y <;> simp [tableOfRecord?, Option.filter, hu]
  rw [hscan, hscan]
  congr 1
  apply SortedMap.eq_of_mem_iff ((s'.pairwise_scan _).filter _) ((s.pairwise_scan _).filter _)
  rintro ⟨k, r⟩
  simp only [List.mem_filter, mem_scan_iff, beq_iff_eq]
  constructor
  · rintro ⟨⟨hr, hk⟩, rfl⟩
    exact ⟨⟨(h.get?_eq hy rfl).symm.trans hr, hk⟩, rfl⟩
  · rintro ⟨⟨hr, hk⟩, rfl⟩
    exact ⟨⟨(h.get?_eq hy rfl).trans hr, hk⟩, rfl⟩

end Reads

theorem columnsOf_eq {bases : List (TableId × Option Version)} (hb : ∀ b ∈ bases, b.1 ≠ x) :
    s'.columnsOf bases = s.columnsOf bases := by
  induction bases with
  | nil => rfl
  | cons b bases ih =>
    obtain ⟨t, v⟩ := b
    obtain ⟨ht, hrest⟩ := List.forall_mem_cons.1 hb
    unfold columnsOf
    rw [h.table_eq ht]
    refine bind_congr_ok fun table htable => ?_
    rw [h.snapshotAt_eq ht (id_of_table htable), ih hrest]

theorem inheritedColumns_eq {head : TableHead} (hb : ∀ b ∈ head.chain, b.1 ≠ x) :
    s'.inheritedColumns head = s.inheritedColumns head := by
  unfold inheritedColumns baseColumns
  cases hview : head.view with
  | none => rfl
  | some v =>
    rw [TableHead.chain_of_view hview] at hb
    exact h.columnsOf_eq fun b hmem => hb b (List.mem_reverse.1 hmem)

section Views

variable {y : TableId} (hy : y ≠ x) (hbase : ¬ s.IsBase x y)
include hy hbase

/-- What `y` inherits does not come from `x`. -/
theorem inheritedColumns_of_table {t : Table} (ht : s.table y = .ok t) {head : TableHead}
    (hview : head.view = t.head.view) :
    s'.inheritedColumns head = s.inheritedColumns head := by
  apply h.inheritedColumns_eq
  rintro ⟨_, v⟩ hb rfl
  rw [TableHead.chain, hview] at hb
  exact hbase ⟨t, ht, v, hb⟩

theorem effectiveSchema_eq (v : Option Version) :
    s'.effectiveSchema y v = s.effectiveSchema y v := by
  unfold effectiveSchema
  rw [h.table_eq hy, h.snapshot_eq hy]
  refine bind_congr_ok fun t ht => ?_
  rw [h.inheritedColumns_of_table hy hbase ht rfl]

/-- No read of `y` tells the stores apart. -/
theorem sameTable : SameTable y s s' where
  table := h.table_eq hy
  listed := by rw [filter_tables, filter_tables, h.tableResults_eq hy]
  results := h.tableResults_eq hy
  dataVersion := h.dataVersion_eq hy
  dataVersions := h.dataVersions_eq hy
  schema := h.schema_eq hy
  schemas := h.schemas_eq hy
  retainedVersions := h.retainedVersions_eq hy
  snapshot := h.snapshot_eq hy
  effectiveSchema := h.effectiveSchema_eq hy hbase

end Views

end SameBut

/-- Nor does any mutation of `y`. -/
theorem SameBut.mutatesAs {x y : TableId} {c c' : Catalog} (h : SameBut x c.store c'.store)
    (hregistry : c'.registry = c.registry) (hy : y ≠ x) (hbase : ¬ c.store.IsBase x y) :
    c.MutatesAs c' y where
  signatures f := by
    unfold Catalog.callSignatures
    cases f with
    | path path => rw [hregistry]
    | id id =>
      dsimp only
      unfold read?
      rw [h (.function id) nofun]
  table := h.table_eq hy
  schema _ _ := h.schema_eq hy _
  inherited _ ht _ hview := h.inheritedColumns_of_table hy hbase ht hview

end Store
end Cadastre
