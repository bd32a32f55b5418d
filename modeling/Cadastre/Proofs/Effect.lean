/-
# What a successful operation does

The plan of an operation on tables writes one version of one table: the first
one of a new table or view, the next one after an edit of the schema, or the
next one after a change of the rows. Every other operation leaves the records
of tables alone. `Effect` lists the four with their conditions, so that what
holds along runs is shown from it and from no definition of an operation.

Key definitions: `Birth`, `RowChange`, `Effect`.
Key theorems: `effect_of_plan`, `writes_of_plan`, `Birth.spec`,
`Store.resolveBases_sound`.
-/
import Cadastre.Proofs.Foreign

namespace Cadastre

/-! ### New tables and views -/

/-- The source of a view with the given bases. -/
def ViewSpec.source (spec : ViewSpec) (bases : List (TableId × Option Version)) : ViewSource where
  isSnapshot := spec.isSnapshot
  bases := bases
  predicate := spec.predicate
  iterator := spec.iterator.map (·.className)
  iteratorArgs := spec.iterator.map (·.args)

/-- How a table or view comes to be, with its directory and its first version. -/
inductive Birth (c : Catalog) : Operation → TableId → Option DirId → Draft → Prop
  | table {id : TableId} {spec : TableSpec} {dir : Directory} {start d : Draft}
      (hdir : c.store.directory spec.dir = .ok dir)
      (hstart : c.newDraft id spec.name spec.retained spec.comment none = .ok start)
      (hgrow : Growth c [] start spec.columns d) :
      Birth c (.createTable id spec) id (some spec.dir) d
  | view {id : TableId} {spec : ViewSpec} {dir : Directory} {base : Table}
      {bases : List (TableId × Option Version)} {visible : List VisibleColumn} {start d : Draft}
      (hdir : c.store.directory spec.dir = .ok dir) (hbase : c.store.table spec.base = .ok base)
      (hbases : c.store.resolveBases base spec.isSnapshot spec.baseVersion = .ok bases)
      (hstart : c.newDraft id spec.name spec.retained spec.comment (some (spec.source bases)) =
        .ok start)
      (hvisible : c.visibleColumns start = .ok visible)
      (hgrow : Growth c visible start spec.columns d) :
      Birth c (.createView id spec) id (some spec.dir) d

/-- The columns that a new table or view is declared with. -/
def Operation.columns : Operation → List ColumnSpec
  | createTable _ spec => spec.columns
  | createView _ spec => spec.columns
  | _ => []

theorem newDraft_eq_ok {c : Catalog} {id : TableId} {name : String} {retained : Option UInt32}
    {comment : String} {view : Option ViewSource} {d : Draft}
    (h : c.newDraft id name retained comment view = .ok d) :
    ∃ n : UInt32, n ≠ 0 ∧
      d = ⟨⟨name, 0, 0, 0, 0, .empty, view⟩, ⟨0, none, .empty, n, comment⟩⟩ := by
  unfold Catalog.newDraft at h
  split at h
  · cases h
  · simp only at h
    split at h
    · cases h
    · rename_i hn
      cases h
      exact ⟨_, hn, rfl⟩

/-- The versions of all bases are fixed. -/
theorem Store.isSome_of_pinAll {s : Store} {bases pinned : List (TableId × Option Version)}
    (h : s.pinAll bases = .ok pinned) : ∀ b ∈ pinned, b.2.isSome = true := by
  induction bases generalizing pinned with
  | nil =>
    cases h
    exact nofun
  | cons b bases ih =>
    obtain ⟨t, v⟩ := b
    cases v with
    | some v =>
      obtain ⟨more, hmore, h⟩ := bind_eq_ok_iff.1 h
      cases h
      exact List.forall_mem_cons.2 ⟨rfl, ih hmore⟩
    | none =>
      obtain ⟨table, _, h⟩ := bind_eq_ok_iff.1 h
      obtain ⟨more, hmore, h⟩ := bind_eq_ok_iff.1 h
      cases h
      exact List.forall_mem_cons.2 ⟨rfl, ih hmore⟩

/-- The resolved bases are all fixed for a snapshot, and all live for a live view. -/
theorem Store.resolveBases_sound {s : Store} {base : Table} (hbase : base.head.Sound)
    {isSnapshot : Bool} {version : Option Version} {bases : List (TableId × Option Version)}
    (h : s.resolveBases base isSnapshot version = .ok bases) :
    bases ≠ [] ∧ ∀ b ∈ bases, b.2.isSome = isSnapshot := by
  unfold Store.resolveBases at h
  cases isSnapshot with
  | true =>
    obtain ⟨_, _, h⟩ := bind_eq_ok_iff.1 h
    obtain ⟨pinned, hpinned, h⟩ := bind_eq_ok_iff.1 h
    cases h
    exact ⟨nofun, List.forall_mem_cons.2 ⟨rfl, isSome_of_pinAll hpinned⟩⟩
  | false =>
    simp only [Bool.false_eq_true, if_false] at h
    split at h
    · cases h
    · rename_i hlive
      cases version with
      | some v => cases h
      | none =>
        cases h
        refine ⟨nofun, List.forall_mem_cons.2 ⟨rfl, fun b hb => ?_⟩⟩
        -- the base is a live view, so its own bases are live
        cases hview : base.head.view with
        | none => simp [hview] at hb
        | some view =>
          rw [hview] at hb
          rw [(hbase.view view hview).fixed b hb]
          simpa [TableHead.isSnapshot, hview] using hlive

namespace Birth

variable {c : Catalog} {op : Operation} {t : TableId} {dir : Option DirId} {d : Draft}

/-- A table or view grows from a draft without columns at version 0. -/
theorem spec (hb : Birth c op t dir d) :
    ∃ name n comment view visible, n ≠ 0 ∧ (∀ v ∈ view, v.Sound) ∧
      Growth c visible ⟨⟨name, 0, 0, 0, 0, .empty, view⟩, ⟨0, none, .empty, n, comment⟩⟩
        op.columns d := by
  cases hb with
  | table _ hstart hgrow =>
    obtain ⟨n, hn, rfl⟩ := newDraft_eq_ok hstart
    exact ⟨_, n, _, none, _, hn, nofun, hgrow⟩
  | view _ hbase hbases hstart _ hgrow =>
    obtain ⟨n, hn, rfl⟩ := newDraft_eq_ok hstart
    refine ⟨_, n, _, _, _, hn, fun v hv => ?_, hgrow⟩
    cases hv
    have hsound := Store.resolveBases_sound (Store.sound_of_table hbase) hbases
    exact ⟨hsound.1, hsound.2⟩

theorem table?_eq (hb : Birth c op t dir d) : op.table? = some t := by
  cases hb <;> rfl

theorem continues (hb : Birth c op t dir d) : d.Continues [] := by
  obtain ⟨_, _, _, _, _, _, _, hgrow⟩ := hb.spec
  exact hgrow.continues .start

theorem view_sound (hb : Birth c op t dir d) : ∀ v ∈ d.head.view, v.Sound := by
  obtain ⟨_, _, _, view, _, _, hview, hgrow⟩ := hb.spec
  obtain ⟨n, h, he⟩ := hgrow.head_eq
  rw [he]
  exact hview

theorem head_version (hb : Birth c op t dir d) : d.head.version = 0 := by
  obtain ⟨_, _, _, view, _, _, _, hgrow⟩ := hb.spec
  obtain ⟨n, h, he⟩ := hgrow.head_eq
  rw [he]

theorem head_nextRow (hb : Birth c op t dir d) : d.head.nextRow = 0 := by
  obtain ⟨_, _, _, view, _, _, _, hgrow⟩ := hb.spec
  obtain ⟨n, h, he⟩ := hgrow.head_eq
  rw [he]

/-- What comes under a fresh identifier was not there. -/
theorem get?_eq_none (hb : Birth c op t dir d) {s : Store} (hfresh : op.isFresh s = true) :
    s.get? (.table t) = none := by
  cases hb <;> exact Option.isNone_iff_eq_none.1 hfresh

theorem preceding (hb : Birth c op t dir d) : d.schema.preceding = none := by
  obtain ⟨_, _, _, _, _, _, _, hgrow⟩ := hb.spec
  obtain ⟨m, he⟩ := hgrow.schema_eq
  rw [he]

theorem sound (hb : Birth c op t dir d) : d.schema.Sound := by
  obtain ⟨_, n, comment, _, _, hn, _, hgrow⟩ := hb.spec
  have hempty : Schema.Sound ⟨0, none, .empty, n, comment⟩ := ⟨by simp, by simp, by simp, hn⟩
  exact hgrow.sound hempty (by simp)

theorem finite (hb : Birth c op t dir d) (hop : op.isFinite = true) : d.schema.Finite := by
  obtain ⟨_, _, _, _, _, _, _, hgrow⟩ := hb.spec
  refine hgrow.finite ?_ fun id k hk => by simp at hk
  cases hb <;> exact hop

end Birth

/-! ### Changes of rows -/

/-- What a change of the rows of table `t` makes of its head, and when. -/
inductive RowChange (t : TableId) (h : TableHead) : Operation → TableHead → Prop
  | insert {expected : Version} {count : Nat} (htable : h.isView = false)
      (hcount : h.nextRow + count < 2 ^ 64) :
      RowChange t h (.insertRows t expected count) { h with nextRow := h.nextRow + count }
  | update {expected : Version} {rows : List RowId} (hrows : ∀ r ∈ rows, r < h.nextRow) :
      RowChange t h (.updateRows t expected rows) h
  | delete {expected : Version} {rows : List RowId} (htable : h.isView = false)
      (hrows : ∀ r ∈ rows, r < h.nextRow) : RowChange t h (.deleteRows t expected rows) h

/-- A change of rows gives out row numbers, and changes nothing else in the head. -/
theorem RowChange.head_eq {t : TableId} {h h' : TableHead} {op : Operation}
    (hr : RowChange t h op h') : ∃ n, h' = { h with nextRow := n } := by
  cases hr with
  | insert => exact ⟨_, rfl⟩
  | update => exact ⟨_, rfl⟩
  | delete => exact ⟨_, rfl⟩

namespace TableHead

variable {t : TableId} {h : TableHead} {rows : List RowId} {a : Unit}

theorem isView_of_requireRows (hr : h.requireRows t = .ok a) : h.isView = false := by
  unfold requireRows at hr
  split at hr
  · cases hr
  · rename_i hv
    simpa using hv

theorem lt_of_requireAllocated (hr : h.requireAllocated t rows = .ok a) :
    ∀ r ∈ rows, r < h.nextRow := by
  unfold requireAllocated at hr
  split at hr
  · cases hr
  · rename_i hnone
    simpa using hnone

end TableHead

/-! ### Effects -/

/-- The data version that a mutation expects. -/
def Operation.expected? : Operation → Option Version
  | addColumn _ v _ => some v
  | renameColumn _ v .. => some v
  | alterColumn _ v .. => some v
  | dropColumn _ v _ => some v
  | setRetention _ v _ => some v
  | insertRows _ v _ => some v
  | updateRows _ v _ => some v
  | deleteRows _ v _ => some v
  | _ => none

/-- A record that belongs to no table. -/
def Key.isForeign : Key → Bool
  | table _ => false
  | tableVersion .. => false
  | schemaVersion .. => false
  | _ => true

/-- What an operation that succeeds writes and answers. -/
inductive Effect (c : Catalog) (now : Float) (op : Operation) : Plan Outcome → Prop
  | foreign {p : Plan Outcome} (hop : op.table? = none)
      (hkeys : ∀ w ∈ p.writes, w.1.isForeign = true) : Effect c now op p
  | birth {t : TableId} {dir : Option DirId} {d : Draft} {log : List Event}
      (hbirth : Birth c op t dir d) :
      Effect c now op ⟨commitWrites t dir now d.head (some d.schema), .table ⟨t, dir, d.head⟩, log⟩
  | edit {t : TableId} {x : Table} {k : Schema} {d : Draft} {answer : Outcome} {log : List Event}
      (hop : op.table? = some t) (htable : c.store.table t = .ok x)
      (hlive : x.head.isSnapshot = false) (hexpected : op.expected? = some x.head.version)
      (hschema : c.store.schema t x.head.schemaVersion = .ok k)
      (hedit : Edit c t (Catalog.nextDraft x.head k) op d)
      (hanswer : answer = .version d.head.version ∧ d.head.nextColumn = x.head.nextColumn ∨
        answer = .column d.head.version x.head.nextColumn ∧
          d.head.nextColumn = x.head.nextColumn + 1) :
      Effect c now op ⟨commitWrites t x.dir now d.head (some d.schema.compact), answer, log⟩
  | rows {t : TableId} {x : Table} {h : TableHead} {answer : Outcome} {log : List Event}
      (hop : op.table? = some t) (htable : c.store.table t = .ok x)
      (hlive : x.head.isSnapshot = false) (hexpected : op.expected? = some x.head.version)
      (hchange : RowChange t { x.head with version := x.head.version + 1 } op h)
      (hanswer : answer = .version h.version ∨ ∃ rows, answer = .rows h.version rows) :
      Effect c now op ⟨commitWrites t x.dir now h none, answer, log⟩

section Mutations

variable {c : Catalog} {now : Float} {t : TableId} {expected : Version}

theorem mutableTable_eq_ok {x : Table} (h : c.mutableTable t expected = .ok x) :
    c.store.table t = .ok x ∧ x.head.isSnapshot = false ∧ x.head.version = expected := by
  obtain ⟨y, hy, h⟩ := bind_eq_ok_iff.1 h
  split at h
  · cases h
  · rename_i hlive
    split at h
    · cases h
    · rename_i hversion
      cases h
      exact ⟨hy, by simpa using hlive, not_not.1 hversion⟩

/-- A schema mutation writes what its change makes of the next draft. -/
theorem effect_of_schemaMutation {α : Type} {op : Operation} (hop : op.table? = some t)
    (hexp : op.expected? = some expected) {change : Draft → Except Error (Draft × α)}
    {f : Version × α → Outcome}
    (hchange : ∀ d d' a, change d = .ok (d', a) → Edit c t d op d' ∧
      (f (d'.head.version, a) = .version d'.head.version ∧ d'.head.nextColumn = d.head.nextColumn ∨
        f (d'.head.version, a) = .column d'.head.version d.head.nextColumn ∧
          d'.head.nextColumn = d.head.nextColumn + 1)) {p : Plan Outcome}
    (h : (c.schemaMutation now t expected change).map (·.map f) = .ok p) : Effect c now op p := by
  obtain ⟨q, hq, rfl⟩ := map_eq_ok_iff.1 h
  obtain ⟨x, hx, hq⟩ := bind_eq_ok_iff.1 hq
  obtain ⟨k, hk, hq⟩ := bind_eq_ok_iff.1 hq
  obtain ⟨⟨d, a⟩, hd, hq⟩ := bind_eq_ok_iff.1 hq
  cases hq
  obtain ⟨hx, hlive, hversion⟩ := mutableTable_eq_ok hx
  obtain ⟨hedit, hanswer⟩ := hchange _ _ _ hd
  exact .edit hop hx hlive (hversion ▸ hexp) hk hedit hanswer

/-- A data mutation writes what its change makes of the head. -/
theorem effect_of_dataMutation {α : Type} {op : Operation} (hop : op.table? = some t)
    (hexp : op.expected? = some expected) {change : TableHead → Except Error (TableHead × α)}
    {f : Version × α → Outcome}
    (hchange : ∀ h h' a, change h = .ok (h', a) → RowChange t h op h' ∧
      (f (h'.version, a) = .version h'.version ∨ ∃ rows, f (h'.version, a) = .rows h'.version rows))
    {p : Plan Outcome} (h : (c.dataMutation now t expected change).map (·.map f) = .ok p) :
    Effect c now op p := by
  obtain ⟨q, hq, rfl⟩ := map_eq_ok_iff.1 h
  obtain ⟨x, hx, hq⟩ := bind_eq_ok_iff.1 hq
  obtain ⟨⟨h', a⟩, hh, hq⟩ := bind_eq_ok_iff.1 hq
  cases hq
  obtain ⟨hx, hlive, hversion⟩ := mutableTable_eq_ok hx
  obtain ⟨hrows, hanswer⟩ := hchange _ _ _ hh
  exact .rows hop hx hlive (hversion ▸ hexp) hrows hanswer

end Mutations

/-! ### The operations -/

section Edits

variable {c : Catalog} {t : TableId} {expected : Version} {d d' : Draft}

theorem find?_of_column {name : String} {e : ColumnId × Column} (h : d.column t name = .ok e) :
    d.schema.find? name = some e := by
  unfold Draft.column at h
  split at h
  · cases h
    assumption
  · cases h

theorem edit_of_addColumn {s : ColumnSpec} {id : ColumnId}
    (h : c.addColumn t s d = .ok (d', id)) :
    Edit c t d (.addColumn t expected s) d' ∧ id = d.head.nextColumn ∧
      d'.head.nextColumn = d.head.nextColumn + 1 := by
  obtain ⟨visible, hvisible, h⟩ := bind_eq_ok_iff.1 h
  obtain ⟨⟨d'', ids⟩, hd, h⟩ := bind_eq_ok_iff.1 h
  cases h
  cases growth_of_appendColumns hd with
  | cons hnew hcheck hrest =>
    cases hrest
    exact ⟨.add hvisible hnew hcheck, rfl, rfl⟩

theorem edit_of_renameColumn {source target : String} {a : Unit}
    (hname : isIdentifier target = true) (h : c.renameColumn t source target d = .ok (d', a)) :
    Edit c t d (.renameColumn t expected source target) d' ∧
      d'.head.nextColumn = d.head.nextColumn := by
  obtain ⟨⟨id, column⟩, hfind, h⟩ := bind_eq_ok_iff.1 h
  obtain ⟨visible, hvisible, h⟩ := bind_eq_ok_iff.1 h
  split at h
  · cases h
  · rename_i hany
    obtain ⟨_, hfree, h⟩ := bind_eq_ok_iff.1 h
    cases h
    exact ⟨.rename hname (find?_of_column hfind) hvisible (by simpa using hany) hfree, rfl⟩

theorem edit_of_alterColumn {name : String} {type : ColumnType} {id : ColumnId}
    (htype : type.isInvalid = false) (h : Catalog.alterColumn t name type d = .ok (d', id)) :
    Edit c t d (.alterColumn t expected name type) d' ∧ id = d.head.nextColumn ∧
      d'.head.nextColumn = d.head.nextColumn + 1 := by
  obtain ⟨⟨i, column⟩, hfind, h⟩ := bind_eq_ok_iff.1 h
  obtain ⟨_, hfree, h⟩ := bind_eq_ok_iff.1 h
  obtain ⟨_, hcheck, h⟩ := bind_eq_ok_iff.1 h
  obtain ⟨retired, hretired, h⟩ := bind_eq_ok_iff.1 h
  obtain ⟨l, hl, rfl⟩ := Draft.retire_eq_ok_iff.1 hretired
  cases h
  exact ⟨.alter htype (find?_of_column hfind) hfree hcheck hl, rfl, rfl⟩

theorem edit_of_dropColumn {name : String} {a : Unit}
    (h : Catalog.dropColumn t name d = .ok (d', a)) :
    Edit c t d (.dropColumn t expected name) d' ∧
      d'.head.nextColumn = d.head.nextColumn := by
  obtain ⟨⟨id, column⟩, hfind, h⟩ := bind_eq_ok_iff.1 h
  simp only at h
  split at h
  · cases h
  · rename_i hkey
    obtain ⟨_, hfree, h⟩ := bind_eq_ok_iff.1 h
    obtain ⟨retired, hretired, h⟩ := bind_eq_ok_iff.1 h
    obtain ⟨l, hl, rfl⟩ := Draft.retire_eq_ok_iff.1 hretired
    cases h
    exact ⟨.drop (find?_of_column hfind) (by simpa using hkey) hfree hl, rfl⟩

end Edits

/-- The records of a version are those of a table. -/
theorem isForeign_of_mem_commitWrites {t : TableId} {dir : Option DirId} {now : Float}
    {h : TableHead} {schema : Option Schema} {w : Key × Record}
    (hw : w ∈ commitWrites t dir now h schema) : w.1.isForeign = false := by
  rcases Store.mem_commitWrites_iff.1 hw with ⟨k, _, rfl⟩ | rfl | rfl <;> rfl

/-- What is about no table belongs to none. -/
theorem ForeignEffect.isForeign {c : Catalog} {op : Operation} {ws : List (Key × Record)}
    (h : ForeignEffect c op ws) : ∀ w ∈ ws, w.1.isForeign = true := by
  cases h with
  | nothing => exact nofun
  | system => exact List.forall_mem_singleton.2 rfl
  | directory => exact List.forall_mem_singleton.2 rfl
  | function => exact List.forall_mem_singleton.2 rfl

/-- The plan of every operation has one of the effects. -/
theorem effect_of_plan {c : Catalog} {now : Float} {op : Operation} {p : Plan Outcome}
    (h : op.plan c now = .ok p) : Effect c now op p := by
  have hforeign : op.table? = none → Effect c now op p := fun hop =>
    .foreign hop (foreignEffect_of_plan hop h).isForeign
  cases op with
  | init => exact hforeign rfl
  | createDirectory => exact hforeign rfl
  | ensureDirectory => exact hforeign rfl
  | storeFunction => exact hforeign rfl
  | createTable id spec =>
    obtain ⟨q, hq, rfl⟩ := map_eq_ok_iff.1 h
    obtain ⟨dir, hdir, hq⟩ := bind_eq_ok_iff.1 hq
    obtain ⟨start, hstart, hq⟩ := bind_eq_ok_iff.1 hq
    obtain ⟨⟨d, ids⟩, hd, hq⟩ := bind_eq_ok_iff.1 hq
    cases hq
    exact .birth (.table hdir hstart (growth_of_appendColumns hd))
  | createView id spec =>
    obtain ⟨q, hq, rfl⟩ := map_eq_ok_iff.1 h
    obtain ⟨dir, hdir, hq⟩ := bind_eq_ok_iff.1 hq
    obtain ⟨base, hbase, hq⟩ := bind_eq_ok_iff.1 hq
    obtain ⟨bases, hbases, hq⟩ := bind_eq_ok_iff.1 hq
    obtain ⟨start, hstart, hq⟩ := bind_eq_ok_iff.1 hq
    obtain ⟨visible, hvisible, hq⟩ := bind_eq_ok_iff.1 hq
    obtain ⟨⟨d, ids⟩, hd, hq⟩ := bind_eq_ok_iff.1 hq
    cases hq
    exact .birth (.view hdir hbase hbases hstart hvisible (growth_of_appendColumns hd))
  | addColumn t v s =>
    refine effect_of_schemaMutation rfl rfl (fun d d' id hd => ?_) h
    obtain ⟨hedit, rfl, hnext⟩ := edit_of_addColumn hd
    exact ⟨hedit, .inr ⟨rfl, hnext⟩⟩
  | renameColumn t v source target =>
    rw [Operation.plan] at h
    split at h
    · cases h
    · rename_i hname
      refine effect_of_schemaMutation rfl rfl (fun d d' a hd => ?_) h
      obtain ⟨hedit, hnext⟩ := edit_of_renameColumn (by simpa using hname) hd
      exact ⟨hedit, .inl ⟨rfl, hnext⟩⟩
  | alterColumn t v name type =>
    rw [Operation.plan] at h
    split at h
    · cases h
    · rename_i htype
      refine effect_of_schemaMutation rfl rfl (fun d d' id hd => ?_) h
      obtain ⟨hedit, rfl, hnext⟩ := edit_of_alterColumn (by simpa using htype) hd
      exact ⟨hedit, .inr ⟨rfl, hnext⟩⟩
  | dropColumn t v name =>
    refine effect_of_schemaMutation rfl rfl (fun d d' a hd => ?_) h
    obtain ⟨hedit, hnext⟩ := edit_of_dropColumn hd
    exact ⟨hedit, .inl ⟨rfl, hnext⟩⟩
  | setRetention t v retained =>
    rw [Operation.plan, Catalog.setRetention] at h
    split at h
    · cases h
    · rename_i hpos
      refine effect_of_schemaMutation rfl rfl (fun d d' a hd => ?_) h
      cases hd
      exact ⟨.retain hpos, .inl ⟨rfl, rfl⟩⟩
  | insertRows t v count =>
    refine effect_of_dataMutation rfl rfl (fun h h' a hh => ?_) h
    obtain ⟨_, htable, hh⟩ := bind_eq_ok_iff.1 hh
    split at hh
    · cases hh
    · rename_i hcount
      obtain ⟨_, _, hh⟩ := bind_eq_ok_iff.1 hh
      cases hh
      exact ⟨.insert (TableHead.isView_of_requireRows htable) (Nat.lt_of_not_le hcount),
        .inr ⟨_, rfl⟩⟩
  | updateRows t v rows =>
    refine effect_of_dataMutation rfl rfl (fun h h' a hh => ?_) h
    obtain ⟨_, hrows, hh⟩ := bind_eq_ok_iff.1 hh
    cases hh
    exact ⟨.update (TableHead.lt_of_requireAllocated hrows), .inl rfl⟩
  | deleteRows t v rows =>
    refine effect_of_dataMutation rfl rfl (fun h h' a hh => ?_) h
    obtain ⟨_, htable, hh⟩ := bind_eq_ok_iff.1 hh
    obtain ⟨_, hrows, hh⟩ := bind_eq_ok_iff.1 hh
    cases hh
    exact ⟨.delete (TableHead.isView_of_requireRows htable)
      (TableHead.lt_of_requireAllocated hrows), .inl rfl⟩

/-- An operation writes nothing of a table, or one version of its own. -/
theorem writes_of_plan {c : Catalog} {now : Float} {op : Operation} {p : Plan Outcome}
    (hp : op.plan c now = .ok p) :
    (op.table? = none ∧ ∀ w ∈ p.writes, w.1.isForeign = true) ∨
      ∃ t dir h schema, op.table? = some t ∧ p.writes = commitWrites t dir now h schema := by
  cases effect_of_plan hp with
  | foreign hop hkeys => exact .inl ⟨hop, hkeys⟩
  | @birth t dir d _ hbirth =>
    exact .inr ⟨t, dir, d.head, some d.schema, hbirth.table?_eq, rfl⟩
  | @edit t x _ d _ _ htable =>
    exact .inr ⟨t, x.dir, d.head, some d.schema.compact, htable, rfl⟩
  | @rows t x h _ _ htable => exact .inr ⟨t, x.dir, h, none, htable, rfl⟩

/-- Only an operation that is about no table writes a record that belongs to none. -/
theorem table?_eq_none_of_isForeign {c : Catalog} {now : Float} {op : Operation} {p : Plan Outcome}
    (hp : op.plan c now = .ok p) {w : Key × Record} (hw : w ∈ p.writes)
    (hkey : w.1.isForeign = true) : op.table? = none := by
  rcases writes_of_plan hp with ⟨hop, _⟩ | ⟨t, dir, h, schema, _, hwrites⟩
  · exact hop
  · rw [hwrites] at hw
    rw [isForeign_of_mem_commitWrites hw] at hkey
    cases hkey

end Cadastre
