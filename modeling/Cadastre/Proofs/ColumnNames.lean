/-
# The names of columns

What an operation does to the names of a table: an edit gives at most one new
name, which no visible column has (`Edit.mem_columnNames`, `Edit.fresh`), and
the declared columns of a new view have names of no column of its bases
(`Birth.disjoint`). A change of rows leaves the columns as they are.

Key definitions: `EffectiveColumn.name`, `Operation.columnName?`.
Key theorems: `Ledger.Sound.nodup_names`, `Edit.mem_columnNames`, `Edit.fresh`,
`Edit.names_eq`, `Edit.notMem_inherited`, `Birth.disjoint`,
`RowChange.columnsAt_eq`.
-/
import Cadastre.Proofs.EffectiveSchema
import Mathlib.Data.List.Nodup

namespace Cadastre

/-- The name of a column that can be read through a table. -/
def EffectiveColumn.name (e : EffectiveColumn) : String := e.column.name

/-! ### Names of own columns -/

/-- The names that a table has, as of a version that it lists, are those of the
schema version. -/
theorem Ledger.names_columnsAt {l : Ledger} {v : Version} {d : DataVersion} {k : Schema}
    (hat : l.at? v = some (d, k)) (t : TableId) :
    (l.columnsAt t v).map (·.name) = k.columnNames := by
  rw [columnsAt, hat]
  exact List.map_map

/-- The own columns of a table have different names. -/
theorem Ledger.Sound.nodup_names {l : Ledger} (hs : l.Sound) {v : Version}
    (hv : v ≤ l.head.version) (t : TableId) : ((l.columnsAt t v).map (·.name)).Nodup := by
  obtain ⟨d, k, hat⟩ := hs.exists_at hv
  rw [Ledger.names_columnsAt hat]
  exact (hs.schemas k (List.mem_of_getElem? (Ledger.at?_eq_some_iff.1 hat).2)).1.nodup_columnNames

namespace Schema

@[simp] theorem columnNames_compact (s : Schema) : s.compact.columnNames = s.columnNames := by
  have hlisted (k : Schema) : k.columnNames = k.listed.map fun e => e.2.name := by
    rw [columnNames, listed, List.map_map]
    rfl
  rw [hlisted, hlisted, listed_compact]

end Schema

/-- The name that an operation gives to a column of a table that exists. -/
def Operation.columnName? : Operation → Option String
  | addColumn _ _ column => some column.name
  | renameColumn _ _ _ target => some target
  | _ => none

namespace Edit

variable {c : Catalog} {t : TableId} {d d' : Draft} {op : Operation} {name : String}

/-- A name after an edit was there before, or the operation gives it. -/
theorem mem_columnNames (he : Edit c t d op d') (hname : name ∈ d'.schema.columnNames) :
    name ∈ d.schema.columnNames ∨ op.columnName? = some name := by
  obtain ⟨id, column, hget, rfl⟩ := Schema.mem_columnNames_iff.1 hname
  -- a column of the draft before
  have hold : ∀ {i k}, d.schema.columns.get? i = some k → k.name ∈ d.schema.columnNames :=
    fun hk => Schema.mem_columnNames_iff.2 ⟨_, _, hk, rfl⟩
  cases he with
  | add =>
    simp only [Draft.push, SortedMap.get?_insert] at hget
    split at hget
    · cases hget
      exact .inr rfl
    · exact .inl (hold hget)
  | rename _ hfind =>
    simp only [Draft.update, SortedMap.get?_insert] at hget
    split at hget
    · cases hget
      exact .inr rfl
    · exact .inl (hold hget)
  | alter _ hfind =>
    simp only [Draft.adopt, Draft.retired, SortedMap.get?_insert, SortedMap.get?_erase] at hget
    split at hget
    · cases hget
      have hname := hold (Schema.get?_of_find? hfind)
      exact .inl hname
    · split at hget
      · cases hget
      · exact .inl (hold hget)
  | drop =>
    simp only [Draft.retired, SortedMap.get?_erase] at hget
    split at hget
    · cases hget
    · exact .inl (hold hget)
  | retain => exact .inl (hold hget)

/-- The name that an edit gives is that of no visible column. -/
theorem fresh (he : Edit c t d op d') (hname : op.columnName? = some name) :
    ∃ visible, c.visibleColumns d = .ok visible ∧ ∀ x ∈ visible, x.name ≠ name := by
  cases he with
  | add hvisible hnew =>
    cases hname
    exact ⟨_, hvisible, hnew⟩
  | rename _ _ hvisible hnew =>
    cases hname
    exact ⟨_, hvisible, hnew⟩
  | alter => cases hname
  | drop => cases hname
  | retain => cases hname

end Edit

/-- A declared column has the name of no column that is visible before. -/
theorem Growth.fresh {c : Catalog} {visible : List VisibleColumn} {d d' : Draft}
    {specs : List ColumnSpec} (hg : Growth c visible d specs d') :
    ∀ s ∈ specs, ∀ x ∈ visible, x.name ≠ s.name := by
  induction hg with
  | nil => exact fun s hs => absurd hs List.not_mem_nil
  | cons hnew _ _ ih =>
    refine List.forall_mem_cons.2 ⟨hnew, fun s hs x hx => ?_⟩
    exact ih s hs x (List.mem_append_left _ hx)

/-- The name that an edit gives is there afterwards. -/
theorem Edit.columnName_mem {c : Catalog} {t : TableId} {d d' : Draft} {op : Operation}
    (he : Edit c t d op d') {name : String} (hname : op.columnName? = some name) :
    name ∈ d'.schema.columnNames := by
  have hinsert : ∀ (id : ColumnId) (column : Column),
      (d.schema.columns.insert id column).get? id = some column := fun id column => by
    rw [SortedMap.get?_insert, if_pos rfl]
  cases he with
  | add =>
    cases hname
    exact Schema.mem_columnNames_iff.2 ⟨_, _, hinsert _ _, rfl⟩
  | rename =>
    cases hname
    exact Schema.mem_columnNames_iff.2 ⟨_, _, hinsert _ _, rfl⟩
  | alter => cases hname
  | drop => cases hname
  | retain => cases hname

/-! ### The version after a step -/

namespace Ledger.Sound

variable {l : Ledger}

theorem at?_current (hs : l.Sound) {k : Schema} (hk : l.schemas[l.head.schemaVersion]? = some k) :
    ∃ d, l.at? l.head.version = some (d, k) := by
  obtain ⟨d, hd⟩ := hs.exists_version (Nat.le_refl _)
  refine ⟨d, at?_eq_some_iff.2 ⟨hd, ?_⟩⟩
  rw [hs.paired.last d hd, hk]

/-- The version that is pushed is read with the schema version of its head. -/
theorem at?_push (hs : l.Sound) {h : TableHead} (hversion : h.version = l.head.version + 1)
    {schema : Option Schema} {k : Schema}
    (hk : (l.schemas ++ schema.toList)[h.schemaVersion]? = some k) (now : Float) :
    (l.push now h schema).at? h.version = some (⟨now, h.version, h.schemaVersion⟩, k) := by
  refine at?_eq_some_iff.2 ⟨getElem?_concat_eq_some_iff.2 (.inr ⟨?_, rfl⟩), hk⟩
  rw [hs.paired.length, hversion]

end Ledger.Sound

section Steps

variable {c : Catalog} {σ : Ledgers} {t : TableId}

/-- The version that an edit makes is read with the schema version of its draft. -/
theorem Edit.at?_push {l : Ledger} (hs : l.Sound) {op : Operation} {k : Schema} {d : Draft}
    (he : Edit c t (Catalog.nextDraft l.head k) op d) (now : Float) :
    (l.push now d.head (some d.schema.compact)).at? d.head.version =
      some (⟨now, d.head.version, d.head.schemaVersion⟩, d.schema.compact) := by
  obtain ⟨n, history, hhead⟩ := he.head_eq
  have hversion : d.head.version = l.head.version + 1 := by rw [hhead]; rfl
  refine hs.at?_push hversion (getElem?_concat_eq_some_iff.2 (.inr ⟨?_, rfl⟩)) now
  rw [hs.chronicle.length, hhead]
  rfl

/-- The version that an edit makes has the names of its draft. -/
theorem Edit.names_eq {l : Ledger} (hs : l.Sound) {op : Operation} {k : Schema} {d : Draft}
    (he : Edit c t (Catalog.nextDraft l.head k) op d) (now : Float) :
    ((l.push now d.head (some d.schema.compact)).columnsAt t d.head.version).map (·.name) =
      d.schema.columnNames := by
  rw [Ledger.names_columnsAt (he.at?_push hs now), Schema.columnNames_compact]

/-- A new version of the rows has the columns of the version before. -/
theorem RowChange.columnsAt_eq {l : Ledger} (hs : l.Sound) {op : Operation} {h : TableHead}
    (hr : RowChange t { l.head with version := l.head.version + 1 } op h) (now : Float) :
    (l.push now h none).columnsAt t h.version = l.columnsAt t l.head.version := by
  obtain ⟨n, rfl⟩ := hr.head_eq
  obtain ⟨k, hk⟩ := hs.exists_schema (Nat.le_refl _)
  obtain ⟨d, hcurrent⟩ := hs.at?_current hk
  have hsame : (l.schemas ++ (none : Option Schema).toList)[l.head.schemaVersion]? = some k := by
    simpa using hk
  have hpush := hs.at?_push (h := { l.head with version := l.head.version + 1, nextRow := n })
    rfl hsame now
  rw [Ledger.columnsAt, hpush, Ledger.columnsAt, hcurrent]

/-- The columns that a draft inherits are visible in it. -/
theorem Catalog.Keeps.mem_visible (hc : c.Keeps σ) {d : Draft}
    (hb : ∀ b ∈ d.head.chain, σ.Provides b) {visible : List VisibleColumn}
    (h : c.visibleColumns d = .ok visible) :
    ∀ e ∈ σ.inherited d.head, ⟨e.column.name, e.column.type⟩ ∈ visible := by
  intro e he
  obtain ⟨inherited, hinherited, h⟩ := bind_eq_ok_iff.1 h
  rw [hc.inheritedColumns_eq hb] at hinherited
  cases hinherited
  cases h
  exact List.mem_append_left _ (List.mem_map.2 ⟨e, he, rfl⟩)

/-- The name that an edit gives is that of no inherited column. -/
theorem Edit.notMem_inherited (hc : c.Keeps σ) (hσ : σ.Based) {l : Ledger} (hl : σ t = some l)
    {op : Operation} {k : Schema} {d : Draft} (he : Edit c t (Catalog.nextDraft l.head k) op d)
    {name : String} (hname : op.columnName? = some name) :
    name ∉ (σ.inherited l.head).map (·.name) := by
  obtain ⟨visible, hvisible, hfresh⟩ := he.fresh hname
  intro hmem
  obtain ⟨e, he, rfl⟩ := List.mem_map.1 hmem
  have hprovides : ∀ b ∈ (Catalog.nextDraft l.head k).head.chain, σ.Provides b :=
    fun b hb => hσ.provides hl hb
  exact hfresh _ (hc.mem_visible hprovides hvisible e he) rfl

variable {op : Operation} {dir : Option DirId} {d : Draft}

/-- The bases of a new view can be read. -/
theorem Birth.provides (hb : Birth c op t dir d) (hc : c.Keeps σ) (hσ : σ.Based) :
    ∀ b ∈ d.head.chain, σ.Provides b := by
  intro b hmem
  cases hview : d.head.view with
  | none =>
    rw [TableHead.chain_of_table hview] at hmem
    cases hmem
  | some source =>
    rw [TableHead.chain_of_view hview] at hmem
    obtain ⟨base, version, hbase, hbases⟩ := hb.bases_eq hview
    exact hc.based_of_resolveBases hσ hbase hbases b hmem

theorem names_declaredColumns (t : TableId) (specs : List ColumnSpec) :
    (declaredColumns t specs).map (·.name) = specs.map (·.name) := by
  refine List.ext_getElem (by simp [declaredColumns]) fun i hi hj => ?_
  simp [declaredColumns, EffectiveColumn.name, ColumnSpec.place]

/-- The declared columns of a new view have names of no inherited column. -/
theorem Birth.disjoint (hb : Birth c op t dir d) (hc : c.Keeps σ) (hσ : σ.Based) :
    ((σ.inherited d.head).map (·.name)).Disjoint ((declaredColumns t op.columns).map (·.name)) := by
  have hprovides := hb.provides hc hσ
  rw [List.disjoint_left]
  intro name hname hdeclared
  obtain ⟨e, he, rfl⟩ := List.mem_map.1 hname
  cases hb with
  | table _ hstart hgrow =>
    obtain ⟨n, _, rfl⟩ := newDraft_eq_ok hstart
    obtain ⟨m, history, hhead⟩ := hgrow.head_eq
    rw [Ledgers.inherited_of_table (by rw [hhead])] at he
    cases he
  | @view _ spec _ base bases visible start _ _ hbase hbases hstart hvisible hgrow =>
    obtain ⟨m, history, hhead⟩ := hgrow.head_eq
    have hchain : d.head.chain = start.head.chain := by
      rw [TableHead.chain, hhead]
      rfl
    rw [hchain] at hprovides
    rw [Ledgers.inherited, hchain] at he
    have hseen := hc.mem_visible hprovides hvisible e he
    rw [names_declaredColumns, List.mem_map] at hdeclared
    obtain ⟨s, hs, hsame⟩ := hdeclared
    exact hgrow.fresh s hs _ hseen hsame.symm

end Steps

end Cadastre
