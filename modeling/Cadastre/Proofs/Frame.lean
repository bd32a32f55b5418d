/-
# What an operation reads

An operation reads the heads of tables, the current schema version and the
versions of a table that its head shows, and the records that belong to no
table. Two stores that answer these reads alike, creation times aside, answer
all reads of tables and views alike (`Store.ReadsAs`), and catalogs over them
plan every operation alike: the same error, or the same records, result and log
(`Catalog.ReadsAs.plan_alike`). A mutation reads less: its own table, the bases
of that, and the signatures of functions (`Catalog.MutatesAs.plan_alike`). At
another time the record of the data version has another creation time, and
nothing else is different. Other records of versions do not matter.

Key definitions: `Snapshot.timeless`, `Store.ReadsAs`, `Catalog.ReadsAs`,
`Plan.Alike`, `Catalog.MutatesAs`.
Key theorems: `Store.ReadsAs.snapshot_eq`, `Store.ReadsAs.effectiveSchema_eq`,
`Catalog.MutatesAs.plan_alike`, `Catalog.ReadsAs.plan_alike`.
-/
import Cadastre.Proofs.Effect
import Cadastre.Proofs.Scan

namespace Cadastre

/-! ### Creation times aside -/

/-- A data version without the time of its creation. -/
def DataVersion.timeless (d : DataVersion) : DataVersion := { d with createdAt := 0 }

/-- A table as of a data version, without the time of the version's creation. -/
def Snapshot.timeless (s : Snapshot) : Snapshot := { s with version := s.version.timeless }

theorem Snapshot.columns_eq_of_timeless {a b : Snapshot} (h : b.timeless = a.timeless) :
    b.columns = a.columns := by
  show b.timeless.columns = a.timeless.columns
  rw [h]

/-! ### Steps that agree -/

section Except

variable {ε α β γ : Type} {x y : Except ε α}

/-- Results that agree under a map are the same error, or values that agree under it. -/
theorem map_eq_map_iff {f : α → β} : y.map f = x.map f ↔
    (∃ e, x = .error e ∧ y = .error e) ∨ ∃ a b, x = .ok a ∧ y = .ok b ∧ f b = f a := by
  cases x <;> cases y <;> simp [Except.map, eq_comm]

/-- Steps that agree on every value that is reached agree. -/
theorem bind_congr_ok {f g : α → Except ε γ} (h : ∀ a, x = .ok a → g a = f a) :
    (x >>= g) = (x >>= f) := by
  cases x with
  | error e => rfl
  | ok a => exact h a rfl

/-- After results that agree under a map, steps that agree where the map does agree. -/
theorem bind_congr_map {p : α → β} (hxy : y.map p = x.map p) {f g : α → Except ε γ}
    (h : ∀ a b, x = .ok a → y = .ok b → p b = p a → g b = f a) : (y >>= g) = (x >>= f) := by
  rcases map_eq_map_iff.1 hxy with ⟨e, rfl, rfl⟩ | ⟨a, b, rfl, rfl, hab⟩
  · rfl
  · exact h a b rfl rfl hab

end Except

/-! ### Stores that are read alike -/

/-- The second store is read like the first: it has the same heads and the same
records that belong to no table, and shows through every head the same current
schema version and, creation times aside, the same versions. -/
structure Store.ReadsAs (s s' : Store) : Prop where
  foreign : ∀ k, k.isForeign = true → s'.get? k = s.get? k
  head : ∀ t, s'.get? (.table t) = s.get? (.table t)
  schema : ∀ t x, s.table t = .ok x →
    s'.schema t x.head.schemaVersion = s.schema t x.head.schemaVersion
  snapshotAt : ∀ t x v, s.table t = .ok x →
    (s'.snapshotAt x v).map Snapshot.timeless = (s.snapshotAt x v).map Snapshot.timeless
  retainedVersions : ∀ t, (s'.retainedVersions t).map (List.map DataVersion.timeless) =
    (s.retainedVersions t).map (List.map DataVersion.timeless)

namespace Store.ReadsAs

variable {s s' : Store} (h : s.ReadsAs s')
include h

theorem read?_eq {α : Type} [Payload α] {key : Key} (hkey : key.isForeign = true) :
    s'.read? α key = s.read? α key := by
  unfold read?
  rw [h.foreign key hkey]

theorem directory_eq (d : DirId) : s'.directory d = s.directory d := by
  unfold directory
  rw [h.read?_eq rfl]

theorem findDirectory_eq (parent : Option DirId) (name : String) :
    s'.findDirectory parent name = s.findDirectory parent name := by
  unfold findDirectory
  rw [scan_congr fun k hk => ?_]
  obtain ⟨d, rfl⟩ := KeyRange.contains_dirs_iff.1 hk
  exact h.foreign (.dir d) rfl

theorem table_eq (t : TableId) : s'.table t = s.table t := by
  unfold table read?
  rw [h.head t]

theorem tableResults_eq : s'.tableResults = s.tableResults := by
  unfold tableResults
  rw [scan_congr fun k hk => ?_]
  obtain ⟨t, rfl⟩ := KeyRange.contains_tables_iff.1 hk
  exact h.head t

theorem tables_eq : s'.tables = s.tables := by
  unfold tables
  rw [h.tableResults_eq]

theorem tableWarnings_eq : s'.tableWarnings = s.tableWarnings := by
  unfold tableWarnings
  rw [h.tableResults_eq]

theorem snapshot_eq (t : TableId) (version : Option Version) :
    (s'.snapshot t version).map Snapshot.timeless =
      (s.snapshot t version).map Snapshot.timeless := by
  unfold snapshot
  rw [h.table_eq t]
  cases hx : s.table t with
  | error e => rfl
  | ok x =>
    rcases map_eq_map_iff.1 (h.retainedVersions t) with ⟨e, hrs, hrs'⟩ | ⟨rs, rs', hrs, hrs', heq⟩
    · rw [hrs, hrs']
      rfl
    · -- the version is looked for by its number, which has no time
      have hany : ∀ v : Version,
          (rs'.any fun r => r.version == v) = rs.any fun r => r.version == v := by
        intro v
        show (rs'.any ((fun r => r.version == v) ∘ DataVersion.timeless)) =
          rs.any ((fun r => r.version == v) ∘ DataVersion.timeless)
        rw [← List.any_map, ← List.any_map, heq]
      rw [hrs, hrs']
      simp only [bind, Except.bind, hany]
      split
      · exact h.snapshotAt t x _ hx
      · rfl

theorem columnsOf_eq (bases : List (TableId × Option Version)) :
    s'.columnsOf bases = s.columnsOf bases := by
  induction bases with
  | nil => rfl
  | cons b bases ih =>
    obtain ⟨t, v⟩ := b
    unfold columnsOf
    rw [h.table_eq t]
    refine bind_congr_ok fun x hx => ?_
    refine bind_congr_map (h.snapshotAt t x _ hx) fun a b _ _ hab => ?_
    rw [ih, Snapshot.columns_eq_of_timeless hab]

theorem inheritedColumns_eq (head : TableHead) :
    s'.inheritedColumns head = s.inheritedColumns head := by
  unfold inheritedColumns baseColumns
  cases head.view with
  | none => rfl
  | some v => exact h.columnsOf_eq v.bases.reverse

theorem effectiveSchema_eq (t : TableId) (version : Option Version) :
    s'.effectiveSchema t version = s.effectiveSchema t version := by
  unfold effectiveSchema
  rw [h.table_eq t]
  refine bind_congr_ok fun x _ => ?_
  refine bind_congr_map (h.snapshot_eq t version) fun a b _ _ hab => ?_
  rw [h.inheritedColumns_eq, Snapshot.columns_eq_of_timeless hab]

theorem pinAll_eq (bases : List (TableId × Option Version)) :
    s'.pinAll bases = s.pinAll bases := by
  induction bases with
  | nil => rfl
  | cons b bases ih =>
    obtain ⟨t, v⟩ := b
    cases v with
    | some v =>
      unfold pinAll
      rw [ih]
    | none =>
      unfold pinAll
      rw [h.table_eq t, ih]

theorem resolveBases_eq (base : Table) (isSnapshot : Bool) (version : Option Version) :
    s'.resolveBases base isSnapshot version = s.resolveBases base isSnapshot version := by
  unfold resolveBases
  cases isSnapshot with
  | false => rfl
  | true =>
    refine bind_congr_map (h.snapshot_eq base.id _) fun _ _ _ _ _ => ?_
    rw [h.pinAll_eq]

end Store.ReadsAs

/-! ### Catalogs that are read alike -/

/-- The second catalog is read like the first. -/
structure Catalog.ReadsAs (c c' : Catalog) : Prop where
  config : c'.config = c.config
  registry : c'.registry = c.registry
  store : c.store.ReadsAs c'.store

namespace Catalog

variable {c c' : Catalog}

theorem checkCall_congr (h : ∀ f, c'.callSignatures f = c.callSignatures f) (f : FunctionRef)
    (overload : Nat) (args : List ColumnType) (returnType : ColumnType) :
    c'.checkCall f overload args returnType = c.checkCall f overload args returnType := by
  unfold checkCall
  rw [h f]

mutual

/-- The check of an expression depends on the signatures of the functions only. -/
theorem checkExpr_congr (h : ∀ f, c'.callSignatures f = c.callSignatures f) (column : String)
    (visible : List VisibleColumn) : ∀ e : Expr,
    c'.checkExpr column visible e = c.checkExpr column visible e
  | .column _ _ => by rw [checkExpr, checkExpr]
  | .var _ _ => by rw [checkExpr, checkExpr]
  | .literal _ => by rw [checkExpr, checkExpr]
  | .call _ _ args _ => by
    rw [checkExpr, checkExpr, checkArgs_congr h column visible args, checkCall_congr h]

theorem checkArgs_congr (h : ∀ f, c'.callSignatures f = c.callSignatures f) (column : String)
    (visible : List VisibleColumn) : ∀ es : List Expr,
    c'.checkArgs column visible es = c.checkArgs column visible es
  | [] => by rw [checkArgs, checkArgs]
  | e :: es => by
    rw [checkArgs, checkArgs, checkExpr_congr h column visible e,
      checkArgs_congr h column visible es]

end

theorem checkColumn_congr (h : ∀ f, c'.callSignatures f = c.callSignatures f) (spec : ColumnSpec)
    (visible : List VisibleColumn) : c'.checkColumn spec visible = c.checkColumn spec visible := by
  have hcomputed : ∀ v, c'.checkComputed spec.name spec.type visible v =
      c.checkComputed spec.name spec.type visible v := by
    intro v
    cases v with
    | tree _ => rfl
    | expr e =>
      unfold checkComputed
      dsimp only
      rw [checkExpr_congr h]
  unfold checkColumn
  simp only [hcomputed]

theorem appendColumns_congr (h : ∀ f, c'.callSignatures f = c.callSignatures f) (t : TableId)
    (d : Draft) (visible : List VisibleColumn) (specs : List ColumnSpec) :
    c'.appendColumns t d visible specs = c.appendColumns t d visible specs := by
  induction specs generalizing d visible with
  | nil => rfl
  | cons spec rest ih =>
    unfold appendColumns
    rw [checkColumn_congr h, ih]

namespace ReadsAs

variable {c c' : Catalog} (h : c.ReadsAs c')
include h

theorem callSignatures_eq (f : FunctionRef) : c'.callSignatures f = c.callSignatures f := by
  cases f with
  | path path =>
    show (c'.registry.resolve path).map _ = (c.registry.resolve path).map _
    rw [h.registry]
  | id id =>
    unfold callSignatures
    dsimp only
    rw [h.store.read?_eq rfl]

theorem visibleColumns_eq (d : Draft) : c'.visibleColumns d = c.visibleColumns d := by
  unfold visibleColumns
  rw [h.store.inheritedColumns_eq]

theorem newDraft_eq (id : TableId) (name : String) (retained : Option UInt32) (comment : String)
    (view : Option ViewSource) :
    c'.newDraft id name retained comment view = c.newDraft id name retained comment view := by
  unfold newDraft
  rw [h.config]

end ReadsAs
end Catalog

/-! ### Plans at two times -/

/-- Plans at the times `now` and `now'` that differ in nothing but the creation
time of the version that they write, if they write one. -/
inductive Plan.Alike {α : Type} (now now' : Float) :
    Except Error (Plan α) → Except Error (Plan α) → Prop
  | error (e : Error) : Alike now now' (.error e) (.error e)
  | foreign {p : Plan α} (hkeys : ∀ w ∈ p.writes, w.1.isForeign = true) :
      Alike now now' (.ok p) (.ok p)
  | version (t : TableId) (dir : Option DirId) (h : TableHead) (schema : Option Schema) (a : α)
      (log : List Event) :
      Alike now now' (.ok ⟨commitWrites t dir now h schema, a, log⟩)
        (.ok ⟨commitWrites t dir now' h schema, a, log⟩)

namespace Plan.Alike

variable {α β : Type} {now now' : Float}

/-- At the same time plans that are alike are the same. -/
theorem eq {p q : Except Error (Plan α)} (h : Alike now now p q) : q = p := by
  cases h <;> rfl

theorem map {p q : Except Error (Plan α)} (h : Alike now now' p q) (f : α → β) :
    Alike now now' (p.map (·.map f)) (q.map (·.map f)) := by
  cases h with
  | error e => exact .error e
  | foreign hkeys => exact .foreign hkeys
  | version t dir h schema a log => exact .version t dir h schema (f a) log

theorem bind {x : Except Error β} {f g : β → Except Error (Plan α)}
    (h : ∀ b, x = .ok b → Alike now now' (f b) (g b)) : Alike now now' (x >>= f) (x >>= g) := by
  cases x with
  | error e => exact .error e
  | ok b => exact h b rfl

/-- Plans that are refused under the same condition. -/
theorem guard {p q : Except Error (Plan α)} (h : Alike now now' p q) (b : Prop) [Decidable b]
    (e : Error) : Alike now now' (if b then .error e else p) (if b then .error e else q) := by
  by_cases hb : b
  · rw [if_pos hb, if_pos hb]
    exact .error e
  · rw [if_neg hb, if_neg hb]
    exact h

end Plan.Alike

/-! ### Mutations of one table -/

/-- The second catalog answers like the first all that a mutation of table `t`
reads: its head and current schema version, what it inherits from its bases, and
the signatures of functions. -/
structure Catalog.MutatesAs (c c' : Catalog) (t : TableId) : Prop where
  signatures : ∀ f, c'.callSignatures f = c.callSignatures f
  table : c'.store.table t = c.store.table t
  schema : ∀ x, c.store.table t = .ok x →
    c'.store.schema t x.head.schemaVersion = c.store.schema t x.head.schemaVersion
  inherited : ∀ x, c.store.table t = .ok x → ∀ head : TableHead, head.view = x.head.view →
    c'.store.inheritedColumns head = c.store.inheritedColumns head

namespace Catalog.MutatesAs

variable {c c' : Catalog} {t : TableId} (h : c.MutatesAs c' t)
include h

theorem mutableTable_eq (expected : Version) :
    c'.mutableTable t expected = c.mutableTable t expected := by
  unfold mutableTable
  rw [h.table]

section Drafts

variable {x : Table} (hx : c.store.table t = .ok x) {d : Draft} (hd : d.head.view = x.head.view)
include hx hd

theorem visibleColumns_eq : c'.visibleColumns d = c.visibleColumns d := by
  unfold visibleColumns
  rw [h.inherited x hx d.head hd]

theorem addColumn_eq (spec : ColumnSpec) : c'.addColumn t spec d = c.addColumn t spec d := by
  unfold addColumn
  rw [h.visibleColumns_eq hx hd]
  simp only [appendColumns_congr h.signatures]

theorem renameColumn_eq (source target : String) :
    c'.renameColumn t source target d = c.renameColumn t source target d := by
  unfold renameColumn
  rw [h.visibleColumns_eq hx hd]

end Drafts

theorem schemaMutation_alike {α : Type} (now now' : Float) (expected : Version)
    {change change' : Draft → Except Error (Draft × α)}
    (hchange : ∀ x k, c.store.table t = .ok x →
      change' (nextDraft x.head k) = change (nextDraft x.head k)) :
    Plan.Alike now now' (c.schemaMutation now t expected change)
      (c'.schemaMutation now' t expected change') := by
  unfold schemaMutation
  rw [h.mutableTable_eq]
  refine .bind fun x hx => ?_
  obtain ⟨htable, _, _⟩ := mutableTable_eq_ok hx
  rw [h.schema x htable]
  refine .bind fun k _ => ?_
  rw [hchange x k htable]
  refine .bind fun ⟨d, a⟩ _ => ?_
  exact .version t x.dir d.head _ _ _

theorem dataMutation_alike {α : Type} (now now' : Float) (expected : Version)
    (change : TableHead → Except Error (TableHead × α)) :
    Plan.Alike now now' (c.dataMutation now t expected change)
      (c'.dataMutation now' t expected change) := by
  unfold dataMutation
  rw [h.mutableTable_eq]
  refine .bind fun x _ => .bind fun ⟨head, a⟩ _ => ?_
  exact .version t x.dir head none _ _

/-- A mutation of the table is planned alike, at whatever time. -/
theorem plan_alike (now now' : Float) {op : Operation} (hop : op.table? = some t)
    (hexpected : op.expected?.isSome = true) :
    Plan.Alike now now' (op.plan c now) (op.plan c' now') := by
  cases op with
  | addColumn u v spec =>
    cases hop
    exact (h.schemaMutation_alike now now' v fun x k hx => h.addColumn_eq hx rfl spec).map _
  | renameColumn u v source target =>
    cases hop
    rw [Operation.plan, Operation.plan]
    refine Plan.Alike.guard (Plan.Alike.map ?_ _) _ _
    exact h.schemaMutation_alike now now' v fun x k hx => h.renameColumn_eq hx rfl source target
  | alterColumn u v name type =>
    cases hop
    rw [Operation.plan, Operation.plan]
    exact ((h.schemaMutation_alike now now' v fun _ _ _ => rfl).map _).guard _ _
  | dropColumn u v name =>
    cases hop
    exact (h.schemaMutation_alike now now' v fun _ _ _ => rfl).map _
  | setRetention u v retained =>
    cases hop
    rw [Operation.plan, Operation.plan, setRetention, setRetention]
    exact ((h.schemaMutation_alike now now' v fun _ _ _ => rfl).guard _ _).map _
  | insertRows u v count =>
    cases hop
    exact (h.dataMutation_alike now now' v _).map _
  | updateRows u v rows =>
    cases hop
    exact (h.dataMutation_alike now now' v _).map _
  | deleteRows u v rows =>
    cases hop
    exact (h.dataMutation_alike now now' v _).map _
  | _ => cases hexpected

end Catalog.MutatesAs

/-! ### All operations -/

namespace Catalog.ReadsAs

variable {c c' : Catalog} (h : c.ReadsAs c') (now now' : Float)
include h

theorem mutatesAs (t : TableId) : c.MutatesAs c' t where
  signatures := h.callSignatures_eq
  table := h.store.table_eq t
  schema := h.store.schema t
  inherited _ _ head _ := h.store.inheritedColumns_eq head

theorem createTable_alike (id : TableId) (spec : TableSpec) :
    Plan.Alike now now' (c.createTable now id spec) (c'.createTable now' id spec) := by
  unfold createTable
  rw [h.store.directory_eq, h.newDraft_eq]
  refine .bind fun _ _ => .bind fun start _ => ?_
  rw [appendColumns_congr h.callSignatures_eq]
  refine .bind fun ⟨d, _⟩ _ => ?_
  exact .version id (some spec.dir) d.head (some d.schema) _ _

theorem createView_alike (id : TableId) (spec : ViewSpec) :
    Plan.Alike now now' (c.createView now id spec) (c'.createView now' id spec) := by
  unfold createView
  rw [h.store.directory_eq, h.store.table_eq]
  refine .bind fun _ _ => .bind fun base _ => ?_
  rw [h.store.resolveBases_eq]
  refine .bind fun bases _ => ?_
  dsimp only
  rw [h.newDraft_eq]
  refine .bind fun start _ => ?_
  rw [h.visibleColumns_eq]
  refine .bind fun visible _ => ?_
  rw [appendColumns_congr h.callSignatures_eq]
  refine .bind fun ⟨d, _⟩ _ => ?_
  exact .version id (some spec.dir) d.head (some d.schema) _ _

/-- An operation that is about no table is planned the same at any time. -/
theorem plan_eq_of_foreign {op : Operation} (hop : op.table? = none) :
    op.plan c' now' = op.plan c now := by
  have hcreate : ∀ id parent name, c'.createDirectory id parent name =
      c.createDirectory id parent name := by
    intro id parent name
    unfold createDirectory
    simp only [h.store.directory_eq]
  cases op with
  | init =>
    show c'.init.map _ = c.init.map _
    unfold init
    rw [h.store.read?_eq rfl]
  | createDirectory id parent name =>
    show (c'.createDirectory id parent name).map _ = (c.createDirectory id parent name).map _
    rw [hcreate]
  | ensureDirectory id name =>
    show (c'.ensureDirectory id name).map _ = (c.ensureDirectory id name).map _
    unfold ensureDirectory
    rw [h.store.findDirectory_eq, hcreate]
  | storeFunction dir f =>
    show (c'.storeFunction dir f).map _ = (c.storeFunction dir f).map _
    unfold storeFunction
    simp only [h.store.directory_eq, h.config]
  | _ => cases hop

/-- Every operation is planned alike, at whatever time. -/
theorem plan_alike (op : Operation) : Plan.Alike now now' (op.plan c now) (op.plan c' now') := by
  cases hop : op.table? with
  | none =>
    rw [h.plan_eq_of_foreign now now' hop]
    cases hp : op.plan c now with
    | error e => exact .error e
    | ok p => exact .foreign (foreignEffect_of_plan hop hp).isForeign
  | some t =>
    cases op with
    | createTable id spec => exact (h.createTable_alike now now' id spec).map _
    | createView id spec => exact (h.createView_alike now now' id spec).map _
    | init => cases hop
    | createDirectory => cases hop
    | ensureDirectory => cases hop
    | storeFunction => cases hop
    | _ => exact (h.mutatesAs t).plan_alike now now' hop rfl

end Catalog.ReadsAs
end Cadastre
