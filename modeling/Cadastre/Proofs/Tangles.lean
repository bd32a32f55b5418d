/-
# Views without cycles

A table knows nothing of the views over it, and a view keeps a reference to a
column of its base when that column is gone. So a column can be given a name to
which its own references lead, through columns of a view that the check of the
table does not see. Such an operation tangles the view; and so does one that
creates a view over a base that has a reference left over, or had one at the
version that a snapshot fixes.

As long as nothing tangles, the columns that are read through a view are acyclic
(`Advance.untangled`): a new name or a new column adds the references of one
column only, and every other change of a table adds none.

Key definitions: `Operation.tangles`, `Catalog.TangleFree`, `Ledgers.specs`,
`Ledgers.Untangled`.
Key theorems: `Edit.refersTo`, `Ledgers.refersTo_put`, `Birth.acyclic`,
`Advance.untangled`, `Catalog.Keeps.after_untangled`.
-/
import Cadastre.Proofs.NamesApart
import Cadastre.Proofs.References

namespace Cadastre

/-- A column that can be read through a table, without its number and position. -/
def EffectiveColumn.spec (e : EffectiveColumn) : ColumnSpec := e.column.spec

/-! ### Operations that tangle -/

namespace Store

/-- A table, and the live views over it. -/
def readers (s : Store) (t : TableId) : List TableId := t :: (s.liveViews t).map (·.id)

/-- Whether references lead from one of the names to `target` in what is read now
through a table or through a live view over it. -/
def leadsBack (s : Store) (t : TableId) (names : List String) (target : String) : Bool :=
  (s.readers t).any fun w =>
    match s.effectiveSchema w none with
    | .ok columns => ColumnSpec.leads (columns.map (·.spec)) names target
    | .error _ => false

/-- The names that an own column of a table refers to now. -/
def refsOf (s : Store) (t : TableId) (name : String) : List String :=
  match s.snapshot t none with
  | .ok sn => (sn.columns.filter fun e => e.name == name).flatMap (·.spec.refs)
  | .error _ => []

/-- Whether one of the own columns of a base as of a version, or of the declared
columns behind them, refers to its own name, behind what the base inherits now. -/
def tanglesOver (s : Store) (base : TableId) (version : Option Version)
    (declared : List ColumnSpec) : Bool :=
  match s.table base with
  | .ok x =>
    match s.inheritedColumns x.head, s.snapshot base version with
    | .ok inherited, .ok sn => ColumnSpec.tangles (inherited.map (·.spec))
        (sn.columns.map (·.spec) ++ declared)
    | _, _ => false
  | .error _ => false

end Store

/-- Whether an operation lets a column be read that refers to its own name: it
gives the name to a column whose references lead to it, or it creates a view that
puts such columns behind one another. -/
def Operation.tangles (s : Store) : Operation → Bool
  | addColumn t _ column => s.leadsBack t column.refs column.name
  | renameColumn t _ source target => s.leadsBack t (s.refsOf t source) target
  | createView _ spec => s.tanglesOver spec.base spec.baseVersion spec.columns
  | _ => false

namespace Catalog

/-- An action does not tangle: it is no operation, or one that fails, or one that
does not tangle. -/
def ActsTangleFree (c : Catalog) : Action → Prop
  | .perform now op =>
    (c.perform now op).1.result.toOption.isSome = true → op.tangles c.store = false
  | .register _ => True

/-- No action of a run tangles when it happens. -/
def TangleFree (c : Catalog) : List Action → Prop
  | [] => True
  | a :: as => c.ActsTangleFree a ∧ (c.act a).TangleFree as

instance (c : Catalog) : (a : Action) → Decidable (c.ActsTangleFree a)
  | .perform _ _ => inferInstanceAs (Decidable (_ → _))
  | .register _ => inferInstanceAs (Decidable True)

instance decidableTangleFree (c : Catalog) : (as : List Action) → Decidable (c.TangleFree as)
  | [] => inferInstanceAs (Decidable True)
  | a :: as =>
    have := decidableTangleFree (c.act a) as
    inferInstanceAs (Decidable (_ ∧ _))

end Catalog

/-! ### The references that an edit makes -/

/-- What the column refers to that gets a name by an operation. -/
def Operation.newRefs (specs : List ColumnSpec) : Operation → List String
  | addColumn _ _ column => column.refs
  | renameColumn _ _ source _ => (specs.filter fun s => s.name == source).flatMap ColumnSpec.refs
  | _ => []

namespace Edit

variable {c : Catalog} {t : TableId} {d d' : Draft} {op : Operation} {n m : String}

/-- The column that is renamed is the only one of its name. -/
theorem mem_newRefs_rename {expected : Version} {source target : String} {id : ColumnId}
    {column : Column} (hs : d.schema.Sound) (hfind : d.schema.find? source = some (id, column)) :
    m ∈ (Operation.renameColumn t expected source target).newRefs d.schema.specs ↔
      m ∈ column.spec.refs := by
  have hname : column.spec.name = source := Schema.name_of_find? hfind
  have hmem : column.spec ∈ d.schema.specs :=
    Schema.mem_specs_iff.2 ⟨id, column, Schema.get?_of_find? hfind, rfl⟩
  rw [Operation.newRefs, List.mem_flatMap]
  constructor
  · rintro ⟨s, hs', hm⟩
    obtain ⟨hs', hsource⟩ := List.mem_filter.1 hs'
    rwa [Schema.spec_eq_of_find? hs hfind hs' (eq_of_beq hsource)] at hm
  · intro hm
    exact ⟨column.spec, List.mem_filter.2 ⟨hmem, by simp [hname]⟩, hm⟩

/-- A reference after an edit was there before, or it is one of the column that
got the name. -/
theorem refersTo (he : Edit c t d op d') (hs : d.schema.Sound)
    (hr : ColumnSpec.RefersTo d'.schema.specs n m) : ColumnSpec.RefersTo d.schema.specs n m ∨
      op.columnName? = some n ∧ m ∈ op.newRefs d.schema.specs := by
  obtain ⟨s, hmem, rfl, hm⟩ := hr
  obtain ⟨id, column, hget, rfl⟩ := Schema.mem_specs_iff.1 hmem
  have hold : ∀ {i k}, d.schema.columns.get? i = some k → m ∈ k.spec.refs →
      ColumnSpec.RefersTo d.schema.specs k.spec.name m :=
    fun hk hm => ⟨_, Schema.mem_specs_iff.2 ⟨_, _, hk, rfl⟩, rfl, hm⟩
  cases he with
  | add =>
    simp only [Draft.push, SortedMap.get?_insert] at hget
    split at hget
    · cases hget
      exact .inr ⟨rfl, hm⟩
    · exact .inl (hold hget hm)
  | rename _ hfind =>
    simp only [Draft.update, SortedMap.get?_insert] at hget
    split at hget
    · cases hget
      exact .inr ⟨rfl, (mem_newRefs_rename hs hfind).2 hm⟩
    · exact .inl (hold hget hm)
  | @alter _ _ _ _ column _ _ hfind =>
    simp only [Draft.adopt, Draft.retired, SortedMap.get?_insert, SortedMap.get?_erase] at hget
    split at hget
    · cases hget
      have hbefore : ColumnSpec.RefersTo d.schema.specs column.spec.name m :=
        hold (Schema.get?_of_find? hfind) hm
      exact .inl hbefore
    · split at hget
      · cases hget
      · exact .inl (hold hget hm)
  | drop =>
    simp only [Draft.retired, SortedMap.get?_erase] at hget
    split at hget
    · cases hget
    · exact .inl (hold hget hm)
  | retain => exact .inl (hold hget hm)

end Edit

/-! ### What is read through a table -/

/-- The own columns of a table now. -/
def Ledger.specs (l : Ledger) (t : TableId) : List ColumnSpec :=
  (l.columnsAt t l.head.version).map (·.spec)

/-- A table is read through itself, and through the live views over it. -/
def Ledger.Reads (m : Ledger) (w t : TableId) : Prop :=
  w = t ∨ m.head.isSnapshot = false ∧ (t, none) ∈ m.head.chain

theorem Ledger.specs_eq {l : Ledger} {v : Version} (hv : l.head.version = v) {d : DataVersion}
    {k : Schema} (hat : l.at? v = some (d, k)) (t : TableId) : l.specs t = k.specs := by
  rw [specs, columnsAt, hv, hat, Schema.specs, Schema.listed, List.map_map, List.map_map]
  rfl

namespace Ledgers

variable {σ : Ledgers}

/-- The columns that are read through a table now. -/
def specs (σ : Ledgers) (w : TableId) (m : Ledger) : List ColumnSpec :=
  (σ.inherited m.head).map (·.spec) ++ m.specs w

/-- The columns that are read through any table are acyclic. -/
def Untangled (σ : Ledgers) : Prop := ∀ w m, σ w = some m → ColumnSpec.Acyclic (σ.specs w m)

theorem untangled_empty : Ledgers.Untangled fun _ => none := by
  intro w m hm
  cases hm

/-- References that are read through a table are those of its bases and its own. -/
theorem refersTo_specs_iff {w : TableId} {m : Ledger} {a b : String} :
    ColumnSpec.RefersTo (σ.specs w m) a b ↔
      (∃ base ∈ m.head.chain, ColumnSpec.RefersTo ((σ.columns base).map (·.spec)) a b) ∨
        ColumnSpec.RefersTo (m.specs w) a b := by
  rw [specs, ColumnSpec.refersTo_append_iff]
  refine or_congr_left ?_
  constructor
  · rintro ⟨s, hs, href⟩
    obtain ⟨e, he, rfl⟩ := List.mem_map.1 hs
    obtain ⟨base, hbase, he⟩ := mem_inherited_iff.1 he
    exact ⟨base, hbase, e.spec, List.mem_map_of_mem he, href⟩
  · rintro ⟨base, hbase, s, hs, href⟩
    obtain ⟨e, he, rfl⟩ := List.mem_map.1 hs
    exact ⟨e.spec, List.mem_map_of_mem (mem_inherited_iff.2 ⟨base, hbase, he⟩), href⟩

section Put

variable {t : TableId} {l l' : Ledger}

/-- After a table changed, a base of a table is read as before, or it is the one
that changed and is read as it is now. -/
theorem columns_put_cases (hbased : σ.Based) (hchained : σ.Chained)
    (hs : ∀ t l, σ t = some l → l.Sound) (hl : σ t = some l) (hlive : l.head.isSnapshot = false)
    (hext : l.Extends l') {w : TableId} {m : Ledger} (hm : σ w = some m)
    {base : TableId × Option Version} (hb : base ∈ m.head.chain) :
    (σ.put t l').columns base = σ.columns base ∨
      base = (t, none) ∧ w ≠ t ∧ m.head.isSnapshot = false := by
  obtain ⟨u, v⟩ := base
  by_cases hu : u = t
  · subst hu
    have hne : w ≠ u := by
      rintro rfl
      rw [hl] at hm
      cases hm
      exact hchained.ne_of_mem_chain hl hlive hb rfl
    cases hsnap : m.head.isSnapshot with
    | false =>
      obtain rfl := (hs w m hm).eq_none_of_mem_chain hsnap hb
      exact .inr ⟨rfl, hne, rfl⟩
    | true =>
      -- the base is fixed, so its columns are those of a version that stays
      have hgrow : σ.Extends (σ.put u l') := .put fun k hk => by
        rw [hl] at hk
        cases hk
        exact hext
      refine .inl (hgrow.columns_eq hs (hbased.provides hm hb) ?_)
      rw [(hs w m hm).isSome_of_mem_chain hb, hsnap]
  · exact .inl (columns_put_of_ne hu)

/-- A reference that is read through a table after another one changed was read
before, or it is one that is new in the table that changed. -/
theorem refersTo_put (hbased : σ.Based) (hchained : σ.Chained)
    (hs : ∀ t l, σ t = some l → l.Sound) (hl : σ t = some l) (hlive : l.head.isSnapshot = false)
    (hext : l.Extends l') {New : String → String → Prop}
    (hown : ∀ a b, ColumnSpec.RefersTo (l'.specs t) a b →
      ColumnSpec.RefersTo (l.specs t) a b ∨ New a b)
    {w : TableId} {m' : Ledger} (hm' : σ.put t l' w = some m') :
    ∃ m, σ w = some m ∧ ∀ a b, ColumnSpec.RefersTo ((σ.put t l').specs w m') a b →
      ColumnSpec.RefersTo (σ.specs w m) a b ∨ m.Reads w t ∧ New a b := by
  have hchain : l'.head.chain = l.head.chain := by
    rw [TableHead.chain, hext.view, TableHead.chain]
  rcases put_cases hm' with ⟨rfl, rfl⟩ | ⟨hw, hm⟩
  · refine ⟨l, hl, fun a b hr => ?_⟩
    rw [refersTo_specs_iff, hchain] at hr
    rw [refersTo_specs_iff]
    rcases hr with ⟨base, hb, hr⟩ | hr
    · have hsame := columns_put_cases hbased hchained hs hl hlive hext hl hb
      rw [hsame.resolve_right fun h => h.2.1 rfl] at hr
      exact .inl (.inl ⟨base, hb, hr⟩)
    · exact (hown a b hr).imp .inr fun hnew => ⟨.inl rfl, hnew⟩
  · refine ⟨m', hm, fun a b hr => ?_⟩
    rw [refersTo_specs_iff] at hr ⊢
    rcases hr with ⟨base, hb, hr⟩ | hr
    · rcases columns_put_cases hbased hchained hs hl hlive hext hm hb with hsame | ⟨rfl, -, hmlive⟩
      · rw [hsame] at hr
        exact .inl (.inl ⟨base, hb, hr⟩)
      · rw [columns_of_ledger (put_self _ _ _)] at hr
        refine (hown a b hr).imp (fun hold => .inl ⟨_, hb, ?_⟩) fun hnew =>
          ⟨.inr ⟨hmlive, hb⟩, hnew⟩
        rw [columns_of_ledger hl]
        exact hold
    · exact .inl (.inr hr)

/-- A table that changes stays untangled with all that read it, if the references
that are new are those of one name, and do not lead to it. -/
theorem Untangled.put (hσ : σ.Untangled) (hbased : σ.Based) (hchained : σ.Chained)
    (hs : ∀ t l, σ t = some l → l.Sound) (hl : σ t = some l) (hlive : l.head.isSnapshot = false)
    (hext : l.Extends l') {n : String} {names : List String}
    (hown : ∀ a b, ColumnSpec.RefersTo (l'.specs t) a b →
      ColumnSpec.RefersTo (l.specs t) a b ∨ a = n ∧ b ∈ names)
    (hfree : ∀ w m, σ w = some m → m.Reads w t → ¬ ColumnSpec.Leads (σ.specs w m) names n) :
    (σ.put t l').Untangled := by
  intro w m' hm'
  obtain ⟨m, hm, hr⟩ := refersTo_put hbased hchained hs hl hlive hext hown hm'
  by_cases hreads : m.Reads w t
  · refine ColumnSpec.acyclic_of_refersTo (hσ w m hm) (fun a b hab => ?_) (hfree w m hm hreads)
    exact (hr a b hab).imp_right (·.2)
  · exact (hσ w m hm).mono fun a b hab => (hr a b hab).resolve_right fun h => hreads h.1

/-- A table that changes without new references stays untangled with all that read
it. -/
theorem Untangled.put_same (hσ : σ.Untangled) (hbased : σ.Based) (hchained : σ.Chained)
    (hs : ∀ t l, σ t = some l → l.Sound) (hl : σ t = some l) (hlive : l.head.isSnapshot = false)
    (hext : l.Extends l')
    (hown : ∀ a b, ColumnSpec.RefersTo (l'.specs t) a b → ColumnSpec.RefersTo (l.specs t) a b) :
    (σ.put t l').Untangled := by
  intro w m' hm'
  obtain ⟨m, hm, hr⟩ := refersTo_put hbased hchained hs hl hlive hext
    (fun a b hab => Or.inl (b := False) (hown a b hab)) hm'
  exact (hσ w m hm).mono fun a b hab => (hr a b hab).resolve_right And.right

/-- A new table or view leaves the others untangled. -/
theorem Untangled.put_new (hσ : σ.Untangled) (hbased : σ.Based) (hnew : σ t = none) {m : Ledger}
    (hac : ColumnSpec.Acyclic ((σ.put t m).specs t m)) : (σ.put t m).Untangled := by
  intro w m' hm'
  rcases put_cases hm' with ⟨rfl, rfl⟩ | ⟨_, hw⟩
  · exact hac
  · rw [specs, hbased.inherited_put hw hnew]
    exact hσ w m' hw

end Put
end Ledgers

/-! ### What it means that nothing tangles -/

namespace Catalog.Keeps

variable {c : Catalog} {σ : Ledgers} {t : TableId}

theorem effectiveSpecs_eq (hc : c.Keeps σ) (hσ : σ.Based) {w : TableId} {m : Ledger}
    (hm : σ w = some m) : ∃ columns, c.store.effectiveSchema w none = .ok columns ∧
      columns.map (·.spec) = σ.specs w m := by
  have hread := hc.effectiveSchema_eq hσ hm none (hc.sound w m hm).exists_current
  exact ⟨_, hread, List.map_append⟩

/-- The tables through which a table is read are its readers. -/
theorem mem_readers_iff (hc : c.Keeps σ) {w : TableId} {m : Ledger} (hm : σ w = some m) :
    w ∈ c.store.readers t ↔ m.Reads w t := by
  rw [Store.readers, List.mem_cons, Ledger.Reads]
  refine or_congr_right ?_
  rw [List.mem_map]
  constructor
  · rintro ⟨x, hx, rfl⟩
    obtain ⟨m', hm', -, hlive, hb⟩ := hc.mem_liveViews_iff.1 hx
    rw [hm] at hm'
    cases hm'
    exact ⟨hlive, hb⟩
  · rintro ⟨hlive, hb⟩
    exact ⟨⟨w, m.dir, m.head⟩, hc.mem_liveViews_iff.2 ⟨m, hm, rfl, hlive, hb⟩, rfl⟩

theorem leadsBack_iff (hc : c.Keeps σ) (hσ : σ.Based) {l : Ledger} (hl : σ t = some l)
    {names : List String} {target : String} : c.store.leadsBack t names target = true ↔
      ∃ w m, σ w = some m ∧ m.Reads w t ∧ ColumnSpec.Leads (σ.specs w m) names target := by
  rw [Store.leadsBack, List.any_eq_true]
  constructor
  · rintro ⟨w, hw, hleads⟩
    obtain ⟨m, hm⟩ : ∃ m, σ w = some m := by
      rcases List.mem_cons.1 hw with rfl | hw
      · exact ⟨l, hl⟩
      · obtain ⟨x, hx, rfl⟩ := List.mem_map.1 hw
        obtain ⟨m, hm, -⟩ := hc.mem_liveViews_iff.1 hx
        exact ⟨m, hm⟩
    obtain ⟨columns, hread, hspecs⟩ := hc.effectiveSpecs_eq hσ hm
    rw [hread] at hleads
    dsimp only at hleads
    rw [hspecs, ColumnSpec.leads_iff] at hleads
    exact ⟨w, m, hm, (hc.mem_readers_iff hm).1 hw, hleads⟩
  · rintro ⟨w, m, hm, hreads, hleads⟩
    obtain ⟨columns, hread, hspecs⟩ := hc.effectiveSpecs_eq hσ hm
    refine ⟨w, (hc.mem_readers_iff hm).2 hreads, ?_⟩
    rw [hread]
    dsimp only
    rw [hspecs, ColumnSpec.leads_iff]
    exact hleads

/-- The current columns of a table refer to what its current schema version says. -/
theorem refsOf_eq (hc : c.Keeps σ) {l : Ledger} (hl : σ t = some l) (name : String) :
    c.store.refsOf t name =
      ((l.specs t).filter fun s => s.name == name).flatMap ColumnSpec.refs := by
  obtain ⟨sn, hsn, hcolumns⟩ := hc.snapshot_columns hl none (hc.sound t l hl).exists_current
  rw [Store.refsOf, hsn, Ledger.specs, List.filter_map, List.flatMap_map]
  dsimp only
  rw [hcolumns]
  rfl

theorem tanglesOver_eq (hc : c.Keeps σ) (hσ : σ.Based) {l : Ledger} (hl : σ t = some l)
    {version : Option Version} (hr : ∃ d ∈ l.retained, d.version = version.getD l.head.version)
    (declared : List ColumnSpec) : c.store.tanglesOver t version declared =
      ColumnSpec.tangles ((σ.inherited l.head).map (·.spec))
        ((l.columnsAt t (version.getD l.head.version)).map (·.spec) ++ declared) := by
  obtain ⟨sn, hsn, hcolumns⟩ := hc.snapshot_columns hl version hr
  have hinherited := hc.inheritedColumns_eq fun b hb => hσ.provides hl hb
  rw [Store.tanglesOver, hc.store.head t l hl]
  dsimp only
  rw [hinherited, hsn]
  dsimp only
  rw [hcolumns]

end Catalog.Keeps

/-! ### Steps and runs -/

section Steps

variable {c : Catalog} {σ : Ledgers} {t : TableId} {op : Operation}

/-- The bases of a new view provide what its direct base inherits now, and the
columns of the base as of the version. -/
theorem Catalog.Keeps.columns_of_bases (hc : c.Keeps σ) {l : Ledger} (hl : σ t = some l)
    {isSnapshot : Bool} {version : Option Version} {bases : List (TableId × Option Version)}
    (hbases : c.store.resolveBases ⟨t, l.dir, l.head⟩ isSnapshot version = .ok bases) :
    (∃ d ∈ l.retained, d.version = version.getD l.head.version) ∧
      bases.reverse.flatMap σ.columns =
        σ.inherited l.head ++ l.columnsAt t (version.getD l.head.version) := by
  cases isSnapshot with
  | true => exact hc.columns_of_resolveBases hl hbases
  | false =>
    obtain rfl : version = none := by
      unfold Store.resolveBases at hbases
      simp only [Bool.false_eq_true, if_false] at hbases
      split at hbases
      · cases hbases
      · cases version with
        | none => rfl
        | some v => cases hbases
    obtain ⟨-, rfl⟩ := Store.resolveBases_live hbases
    refine ⟨(hc.sound t l hl).exists_current, ?_⟩
    rw [List.reverse_cons, List.flatMap_append, List.flatMap_singleton,
      Ledgers.columns_of_ledger hl]
    rfl

theorem specs_declaredColumns (t : TableId) (specs : List ColumnSpec) :
    (declaredColumns t specs).map (·.spec) = specs := by
  refine List.ext_getElem (by simp [declaredColumns]) fun i hi hj => ?_
  simp [declaredColumns, EffectiveColumn.spec]

/-- A new table or view that does not tangle is untangled. -/
theorem Birth.acyclic {dir : Option DirId} {d : Draft} (hb : Birth c op t dir d) (hc : c.Keeps σ)
    (hbased : σ.Based) (hσ : σ.Untangled) (hfree : op.tangles c.store = false) :
    ColumnSpec.Acyclic ((σ.inherited d.head).map (·.spec) ++ op.columns) := by
  have hnames : (op.columns.map ColumnSpec.name).Nodup := by
    rw [← hb.specs_eq, Schema.map_name_specs]
    exact hb.sound.nodup_columnNames
  cases hb with
  | @table _ spec _ start _ _ hstart hgrow =>
    obtain ⟨n, hn, rfl⟩ := newDraft_eq_ok hstart
    obtain ⟨m, history, hhead⟩ := hgrow.head_eq
    rw [Ledgers.inherited_of_table (by rw [hhead]), List.map_nil, List.nil_append]
    -- the columns of a new table are checked one after the other
    have hlayered : c.Layered ([] ++ spec.columns) := hgrow.layered rfl .nil
    exact hlayered.acyclic hnames
  | @view _ spec _ base bases visible start _ _ hbase hbases hstart _ hgrow =>
    obtain ⟨n, _, rfl⟩ := newDraft_eq_ok hstart
    obtain ⟨m, history, hhead⟩ := hgrow.head_eq
    have hview : d.head.view = some (spec.source bases) := by rw [hhead]
    obtain ⟨l, hl, rfl⟩ := hc.store.exists_ledger hbase
    obtain ⟨hreadable, hprovided⟩ := hc.columns_of_bases hl hbases
    have htangles : c.store.tanglesOver spec.base spec.baseVersion spec.columns = false := hfree
    rw [hc.tanglesOver_eq hbased hl hreadable] at htangles
    have hinherited : σ.inherited d.head = bases.reverse.flatMap σ.columns := by
      rw [Ledgers.inherited, TableHead.chain_of_view hview]
      rfl
    rw [hinherited, hprovided, List.map_append, List.append_assoc]
    have hbase : ColumnSpec.Acyclic ((σ.inherited l.head).map (·.spec)) :=
      (hσ _ l hl).of_subset fun _ hs => List.mem_append_left _ hs
    exact (ColumnSpec.acyclic_append_iff hbase).2 htangles

/-- The own columns of a table before and after an edit are those of its draft. -/
theorem Edit.specs_eq {l : Ledger} (hs : l.Sound) {k : Schema}
    (hk : l.schemas[l.head.schemaVersion]? = some k) {d : Draft}
    (he : Edit c t (Catalog.nextDraft l.head k) op d) (now : Float) :
    l.specs t = (Catalog.nextDraft l.head k).schema.specs ∧
      (l.push now d.head (some d.schema.compact)).specs t = d.schema.specs := by
  obtain ⟨v, hcurrent⟩ := hs.at?_current hk
  refine ⟨Ledger.specs_eq rfl hcurrent t, ?_⟩
  rw [Ledger.specs_eq rfl (he.at?_push hs now), Schema.specs_compact]

/-- The name that a column gets is not led back to, through any reader of the
table, if the operation does not tangle. -/
theorem Catalog.Keeps.not_leads_of_edit (hc : c.Keeps σ) (hσ : σ.Based) {l : Ledger}
    (hl : σ t = some l) (hop : op.table? = some t) (hfree : op.tangles c.store = false)
    {n : String} (hn : op.columnName? = some n) {w : TableId} {m : Ledger} (hm : σ w = some m)
    (hreads : m.Reads w t) : ¬ ColumnSpec.Leads (σ.specs w m) (op.newRefs (l.specs t)) n := by
  have hback : c.store.leadsBack t (op.newRefs (l.specs t)) n = false := by
    cases op with
    | addColumn u v column =>
      cases hop
      cases hn
      exact hfree
    | renameColumn u v source target =>
      cases hop
      cases hn
      rw [Operation.newRefs, ← hc.refsOf_eq hl]
      exact hfree
    | _ => cases hn
  intro hleads
  rw [(hc.leadsBack_iff hσ hl).2 ⟨w, m, hm, hreads, hleads⟩] at hback
  cases hback

/-- A step that does not tangle keeps all tables and views untangled. -/
theorem Advance.untangled {σ' : Ledgers} {a : Action} (h : Advance c σ a σ') (hc : c.Keeps σ)
    (hbased : σ.Based) (hchained : σ.Chained) (hσ : σ.Untangled) (hfree : c.ActsTangleFree a) :
    σ'.Untangled := by
  have hextends := h.extends hc
  cases h with
  | idle => exact hσ
  | @birth now op u dir d hchange hnew hbirth =>
    refine hσ.put_new hbased hnew ?_
    have hinherited : (σ.put u ((Ledger.blank dir d.head).push now d.head
        (some d.schema))).inherited d.head.settled = σ.inherited d.head := by
      rw [Ledgers.inherited_settled]
      exact Ledgers.inherited_congr fun b hb => (hbirth.provides hc hbased b hb).columns_put hnew _
    have hown : ((Ledger.blank dir d.head).push now d.head (some d.schema)).specs u =
        op.columns := by
      refine (congrArg _ (hbirth.columnsAt_eq now)).trans ?_
      exact specs_declaredColumns u op.columns
    rw [Ledgers.specs, hown]
    show ColumnSpec.Acyclic (((Ledgers.put σ u _).inherited d.head.settled).map _ ++ _)
    rw [hinherited]
    exact hbirth.acyclic hc hbased hσ (hfree (Catalog.isSome_of_change? hchange))
  | @edit now op u l k d hchange hl hlive _ hschema hedit =>
    obtain ⟨l', hl', hext⟩ := hextends u l hl
    rw [Ledgers.put_self] at hl'
    cases hl'
    have hs := hc.sound u l hl
    obtain ⟨hbefore, hafter⟩ := hedit.specs_eq hs hschema now
    have hrefs : ∀ a b, ColumnSpec.RefersTo
        ((l.push now d.head (some d.schema.compact)).specs u) a b →
          ColumnSpec.RefersTo (l.specs u) a b ∨
            op.columnName? = some a ∧ b ∈ op.newRefs (l.specs u) := by
      intro a b hab
      rw [hafter] at hab
      rw [hbefore]
      exact hedit.refersTo (hs.nextDraft hschema) hab
    have hop := Catalog.table?_of_change? hchange
    have htangles := hfree (Catalog.isSome_of_change? hchange)
    cases hname : op.columnName? with
    | some n =>
      refine hσ.put hbased hchained hc.sound hl hlive hext (fun a b hab => ?_)
        fun w m => hc.not_leads_of_edit hbased hl hop htangles hname
      refine (hrefs a b hab).imp_right fun hnew => ⟨?_, hnew.2⟩
      rw [hname] at hnew
      exact (Option.some.inj hnew.1).symm
    | none =>
      -- no column gets a name, so there is no new reference
      refine hσ.put_same hbased hchained hc.sound hl hlive hext fun a b hab =>
        (hrefs a b hab).resolve_right fun hnew => ?_
      rw [hname] at hnew
      cases hnew.1
  | @rows now op u l h hchange hl hlive _ hrows =>
    obtain ⟨l', hl', hext⟩ := hextends u l hl
    rw [Ledgers.put_self] at hl'
    cases hl'
    have hsame : (l.push now h none).specs u = l.specs u :=
      congrArg _ (hrows.columnsAt_eq (hc.sound u l hl) now)
    exact hσ.put_same hbased hchained hc.sound hl hlive hext fun a b hab => hsame ▸ hab

end Steps

/-- A run in which nothing tangles keeps all tables and views untangled. -/
theorem Catalog.Keeps.after_untangled {c : Catalog} {σ : Ledgers} (hc : c.Keeps σ)
    (hbased : σ.Based) (hchained : σ.Chained) (hσ : σ.Untangled) {as : List Action}
    (ha : c.Admits as) (hfree : c.TangleFree as) :
    ∃ σ', (c.after as).Keeps σ' ∧ σ'.Based ∧ σ'.Chained ∧ σ'.Untangled := by
  induction as generalizing c σ with
  | nil => exact ⟨σ, hc, hbased, hchained, hσ⟩
  | cons a as ih =>
    obtain ⟨σ', hc', hadvance⟩ := hc.act ha.1
    have hbased' := hadvance.based hc hc' hbased
    have hchained' := hadvance.chained hc hchained
    exact ih hc' hbased' hchained' (hadvance.untangled hc hbased hchained hσ hfree.1) ha.2 hfree.2

end Cadastre
