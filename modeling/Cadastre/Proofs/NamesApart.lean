/-
# Views apart from their bases

A table knows nothing of the views over it, so it can get a column under a name
that a view has already. A snapshot of a live view as of an earlier version can
have two columns of one name as well, as the bases may by now have a column of
a name that the view had then. Such an operation clashes.

As long as nothing clashes, no own column of a live view has the name of an
inherited one (`Advance.apart`), so by induction along the chain of bases all
columns that are read through a view have different names
(`Ledgers.Apart.nodup_at`).

Key definitions: `Operation.clashes`, `Catalog.ClashFree`, `Ledgers.Apart`.
Key theorems: `Ledgers.Apart.nodup_at`, `Ledgers.Apart.put`, `Birth.apart`,
`Advance.apart`, `Catalog.Keeps.after_apart`.
-/
import Cadastre.Proofs.ColumnNames
import Cadastre.Proofs.FrozenSnapshot
import Cadastre.Proofs.LiveView

namespace Cadastre

/-! ### Names that clash -/

namespace Store

/-- The live views over a table, directly or over other live views. -/
def liveViews (s : Store) (t : TableId) : List Table :=
  s.tables.filter fun x => x.head.view.any fun source =>
    !source.isSnapshot && source.bases.any fun b => b.1 == t

/-- Whether a table has, as of a version, an own column of the given name. -/
def hasColumn (s : Store) (t : TableId) (version : Option Version) (name : String) : Bool :=
  match s.snapshot t version with
  | .ok sn => sn.columns.any fun e => e.name == name
  | .error _ => false

/-- Whether a live view over a table has an own column of the given name. -/
def namesInViews (s : Store) (t : TableId) (name : String) : Bool :=
  (s.liveViews t).any fun x => s.hasColumn x.id none name

/-- Whether a live view has, as of a version, an own column of the name that a
column of one of its bases has now. -/
def repeatsBase (s : Store) (t : TableId) (version : Option Version) : Bool :=
  match s.table t with
  | .ok x =>
    match s.inheritedColumns x.head with
    | .ok inherited => !x.head.isSnapshot && inherited.any fun e => s.hasColumn t version e.name
    | .error _ => false
  | .error _ => false

end Store

/-- Whether an operation lets a view be read with two columns of one name: it
gives a column of a table a name that a live view over the table has, or it
takes a snapshot of a live view as of a version that has a column of the name
that a base of the view has now. -/
def Operation.clashes (s : Store) : Operation → Bool
  | addColumn t _ column => s.namesInViews t column.name
  | renameColumn t _ _ target => s.namesInViews t target
  | createView _ spec => spec.isSnapshot && s.repeatsBase spec.base spec.baseVersion
  | _ => false

namespace Catalog

/-- An action does not clash: it is no operation, or one that fails, or one that
does not clash. -/
def ActsClashFree (c : Catalog) : Action → Prop
  | .perform now op =>
    (c.perform now op).1.result.toOption.isSome = true → op.clashes c.store = false
  | .register _ => True

/-- No action of a run clashes when it happens. -/
def ClashFree (c : Catalog) : List Action → Prop
  | [] => True
  | a :: as => c.ActsClashFree a ∧ (c.act a).ClashFree as

instance (c : Catalog) : (a : Action) → Decidable (c.ActsClashFree a)
  | .perform _ _ => inferInstanceAs (Decidable (_ → _))
  | .register _ => inferInstanceAs (Decidable True)

instance decidableClashFree (c : Catalog) : (as : List Action) → Decidable (c.ClashFree as)
  | [] => inferInstanceAs (Decidable True)
  | a :: as =>
    have := decidableClashFree (c.act a) as
    inferInstanceAs (Decidable (_ ∧ _))

end Catalog

/-! ### Chains without clashes -/

/-- No own column of a live view has the name of an inherited one, and no two
columns that are read through a snapshot have the same name. -/
structure Ledgers.Apart (σ : Ledgers) : Prop where
  live : ∀ w m, σ w = some m → m.head.isSnapshot = false →
    ((σ.inherited m.head).map (·.name)).Disjoint
      ((m.columnsAt w m.head.version).map (·.name))
  frozen : ∀ w m, σ w = some m → m.head.isSnapshot = true → ∀ v ≤ m.head.version,
    ((σ.inherited m.head ++ m.columnsAt w v).map (·.name)).Nodup

namespace Ledgers

theorem apart_empty : Ledgers.Apart fun _ => none where
  live w m hm := by cases hm
  frozen w m hm := by cases hm

variable {σ : Ledgers}

/-- The columns that a live view inherits have different names. -/
theorem Apart.nodup_inherited (hσ : σ.Apart) (hchained : σ.Chained)
    (hs : ∀ t l, σ t = some l → l.Sound) {t : TableId} {l : Ledger} (hl : σ t = some l)
    (hlive : l.head.isSnapshot = false) : ((σ.inherited l.head).map (·.name)).Nodup := by
  refine hchained.induct (P := fun _ m => ((σ.inherited m.head).map (·.name)).Nodup)
    (fun u m _ hview => ?_) (fun u m source b n _ _ _ hn hnlive hchain ih => ?_) hl hlive
  · rw [inherited_of_table hview]
    exact List.nodup_nil
  · rw [inherited_of_base hn hchain, List.map_append]
    have hown := (hs b n hn).nodup_names (Nat.le_refl _) b
    exact List.nodup_append'.2 ⟨ih, hown, hσ.live b n hn hnlive⟩

/-- The columns that are read through a table have different names, as of every
version at which a live view is apart from its bases. -/
theorem Apart.nodup_at (hσ : σ.Apart) (hchained : σ.Chained)
    (hs : ∀ t l, σ t = some l → l.Sound) {t : TableId} {l : Ledger} (hl : σ t = some l)
    {v : Version} (hv : v ≤ l.head.version)
    (hapart : l.head.isSnapshot = false → ((σ.inherited l.head).map (·.name)).Disjoint
      ((l.columnsAt t v).map (·.name))) :
    ((σ.inherited l.head ++ l.columnsAt t v).map (·.name)).Nodup := by
  cases hsnap : l.head.isSnapshot with
  | true => exact hσ.frozen t l hl hsnap v hv
  | false =>
    rw [List.map_append]
    exact List.nodup_append'.2
      ⟨hσ.nodup_inherited hchained hs hl hsnap, (hs t l hl).nodup_names hv t, hapart hsnap⟩

/-- A live view inherits the names of a table that it is over. -/
theorem mem_names_inherited {h : TableHead} {t : TableId} {l : Ledger} (hl : σ t = some l)
    (hb : (t, none) ∈ h.chain) {n : String}
    (hn : n ∈ (l.columnsAt t l.head.version).map (·.name)) :
    n ∈ (σ.inherited h).map (·.name) := by
  obtain ⟨e, he, rfl⟩ := List.mem_map.1 hn
  have hread : e ∈ σ.columns (t, none) := by
    rw [columns_of_ledger hl]
    exact he
  exact List.mem_map_of_mem (mem_inherited_iff.2 ⟨_, hb, hread⟩)

/-- What a live view inherits after a table changed, it inherited before, or it is
over the table and the table has it now. -/
theorem mem_names_inherited_put {t : TableId} {l' m : Ledger} (hs : m.Sound)
    (hlive : m.head.isSnapshot = false) {n : String}
    (hn : n ∈ ((σ.put t l').inherited m.head).map (·.name)) :
    n ∈ (σ.inherited m.head).map (·.name) ∨
      (t, none) ∈ m.head.chain ∧ n ∈ (l'.columnsAt t l'.head.version).map (·.name) := by
  obtain ⟨e, he, rfl⟩ := List.mem_map.1 hn
  obtain ⟨⟨u, v⟩, hb, he⟩ := mem_inherited_iff.1 he
  by_cases hu : u = t
  · subst hu
    obtain rfl := hs.eq_none_of_mem_chain hlive hb
    rw [columns_of_ledger (put_self _ _ _)] at he
    exact .inr ⟨hb, List.mem_map_of_mem he⟩
  · rw [columns_put_of_ne hu] at he
    exact .inl (List.mem_map_of_mem (mem_inherited_iff.2 ⟨_, hb, he⟩))

/-- A table that changes stays apart from its bases and its views, if the names
that are new are those of no inherited column and of no live view over it. -/
theorem Apart.put (hσ : σ.Apart) (hbased : σ.Based) (hchained : σ.Chained)
    (hs : ∀ t l, σ t = some l → l.Sound) {t : TableId} {l l' : Ledger} (hl : σ t = some l)
    (hlive : l.head.isSnapshot = false) (hext : l.Extends l') (New : String → Prop)
    (hown : ∀ n ∈ (l'.columnsAt t l'.head.version).map (·.name),
      n ∈ (l.columnsAt t l.head.version).map (·.name) ∨ New n)
    (hfresh : ∀ n, New n → n ∉ (σ.inherited l.head).map (·.name))
    (hviews : ∀ n, New n → ∀ w m, σ w = some m → m.head.isSnapshot = false →
      (t, none) ∈ m.head.chain → n ∉ (m.columnsAt w m.head.version).map (·.name)) :
    (σ.put t l').Apart := by
  have hchain : l'.head.chain = l.head.chain := by
    rw [TableHead.chain, hext.view, TableHead.chain]
  have hinherited : (σ.put t l').inherited l'.head = σ.inherited l.head := by
    rw [inherited, hchain]
    refine flatMap_reverse_congr (List.map_congr_left fun b hb => ?_)
    exact columns_put_of_ne (hchained.ne_of_mem_chain hl hlive hb)
  have hgrow : σ.Extends (σ.put t l') := .put fun k hk => by
    rw [hl] at hk
    cases hk
    exact hext
  constructor
  · intro w m hm hmlive
    rw [List.disjoint_left]
    intro n hn hnown
    rcases put_cases hm with ⟨rfl, rfl⟩ | ⟨_, hw⟩
    · rw [hinherited] at hn
      rcases hown n hnown with hold | hnew
      · exact List.disjoint_left.1 (hσ.live w l hl hlive) hn hold
      · exact hfresh n hnew hn
    · have hapart := List.disjoint_left.1 (hσ.live w m hw hmlive)
      rcases mem_names_inherited_put (hs w m hw) hmlive hn with hn | ⟨hb, hn⟩
      · exact hapart hn hnown
      · rcases hown n hn with hold | hnew
        · exact hapart (mem_names_inherited hl hb hold) hnown
        · exact hviews n hnew w m hw hmlive hb hnown
  · intro w m hm hsnap v hv
    rcases put_cases hm with ⟨_, rfl⟩ | ⟨_, hw⟩
    · rw [TableHead.isSnapshot, hext.view, ← TableHead.isSnapshot, hlive] at hsnap
      cases hsnap
    · have hsame : (σ.put t l').inherited m.head = σ.inherited m.head := by
        refine inherited_congr fun b hb => hgrow.columns_eq hs (hbased.provides hw hb) ?_
        rw [(hs w m hw).isSome_of_mem_chain hb, hsnap]
      rw [hsame]
      exact hσ.frozen w m hw hsnap v hv

/-- A new table or view is apart from its bases, if it is so on its own. -/
theorem Apart.put_new (hσ : σ.Apart) (hbased : σ.Based) {t : TableId} (hnew : σ t = none)
    {m : Ledger} (hbases : ∀ b ∈ m.head.chain, σ.Provides b)
    (hlive : m.head.isSnapshot = false → ((σ.inherited m.head).map (·.name)).Disjoint
      ((m.columnsAt t m.head.version).map (·.name)))
    (hfrozen : m.head.isSnapshot = true → ∀ v ≤ m.head.version,
      ((σ.inherited m.head ++ m.columnsAt t v).map (·.name)).Nodup) : (σ.put t m).Apart := by
  have hself : (σ.put t m).inherited m.head = σ.inherited m.head :=
    inherited_congr fun b hb => (hbases b hb).columns_put hnew m
  constructor
  · intro w l hl hllive
    rcases put_cases hl with ⟨rfl, rfl⟩ | ⟨_, hl⟩
    · rw [hself]
      exact hlive hllive
    · rw [hbased.inherited_put hl hnew]
      exact hσ.live w l hl hllive
  · intro w l hl hsnap
    rcases put_cases hl with ⟨rfl, rfl⟩ | ⟨_, hl⟩
    · rw [hself]
      exact hfrozen hsnap
    · rw [hbased.inherited_put hl hnew]
      exact hσ.frozen w l hl hsnap

end Ledgers

/-! ### What it means that nothing clashes -/

namespace Catalog.Keeps

variable {c : Catalog} {σ : Ledgers} {t : TableId} {l : Ledger}

theorem hasColumn_iff (hc : c.Keeps σ) (hl : σ t = some l) (version : Option Version)
    (hr : ∃ d ∈ l.retained, d.version = version.getD l.head.version) {name : String} :
    c.store.hasColumn t version name = true ↔
      name ∈ (l.columnsAt t (version.getD l.head.version)).map (·.name) := by
  obtain ⟨sn, hsn, hcolumns⟩ := hc.snapshot_columns hl version hr
  rw [Store.hasColumn, hsn, ← hcolumns]
  simp only [List.any_eq_true, beq_iff_eq, List.mem_map]

/-- The live views over a table are those that have it among their bases. -/
theorem mem_liveViews_iff (hc : c.Keeps σ) {x : Table} : x ∈ c.store.liveViews t ↔
    ∃ m, σ x.id = some m ∧ x = ⟨x.id, m.dir, m.head⟩ ∧ m.head.isSnapshot = false ∧
      (t, none) ∈ m.head.chain := by
  constructor
  · intro hx
    obtain ⟨htable, hview⟩ := List.mem_filter.1 hx
    obtain ⟨m, hm, hhead⟩ := hc.store.exists_ledger (Store.mem_tables_iff.1 htable)
    have hxm : x.head = m.head := by rw [hhead]
    rw [hxm] at hview
    cases hsource : m.head.view with
    | none =>
      rw [hsource] at hview
      cases hview
    | some source =>
      rw [hsource, Option.any_some, Bool.and_eq_true] at hview
      obtain ⟨⟨u, v⟩, hb, hbt⟩ := List.any_eq_true.1 hview.2
      obtain rfl : u = t := eq_of_beq hbt
      have hlive : m.head.isSnapshot = false := by
        rw [TableHead.isSnapshot, hsource]
        exact Bool.not_eq_true' _ ▸ hview.1
      have hmem : (u, v) ∈ m.head.chain := by
        rw [TableHead.chain_of_view hsource]
        exact hb
      obtain rfl := (hc.sound _ m hm).eq_none_of_mem_chain hlive hmem
      exact ⟨m, hm, hhead, hlive, hmem⟩
  · rintro ⟨m, hm, hx, hlive, hb⟩
    rw [hx]
    refine List.mem_filter.2 ⟨Store.mem_tables_iff.2 (hc.store.head _ m hm), ?_⟩
    cases hsource : m.head.view with
    | none =>
      rw [TableHead.chain_of_table hsource] at hb
      cases hb
    | some source =>
      rw [TableHead.chain_of_view hsource] at hb
      rw [TableHead.isSnapshot, hsource] at hlive
      have hfree : source.isSnapshot = false := hlive
      rw [Option.any_some, hfree, Bool.not_false, Bool.true_and]
      exact List.any_eq_true.2 ⟨_, hb, beq_self_eq_true t⟩

/-- A name that is in no live view over a table is that of no column of such a view. -/
theorem notMem_of_namesInViews (hc : c.Keeps σ) {name : String}
    (h : c.store.namesInViews t name = false) {w : TableId} {m : Ledger} (hm : σ w = some m)
    (hlive : m.head.isSnapshot = false) (hb : (t, none) ∈ m.head.chain) :
    name ∉ (m.columnsAt w m.head.version).map (·.name) := by
  intro hname
  have hhas : c.store.hasColumn w none name = true :=
    (hc.hasColumn_iff hm none (hc.sound w m hm).exists_current).2 hname
  have hview : (⟨w, m.dir, m.head⟩ : Table) ∈ c.store.liveViews t :=
    hc.mem_liveViews_iff.2 ⟨m, hm, rfl, hlive, hb⟩
  have hany : c.store.namesInViews t name = true := List.any_eq_true.2 ⟨_, hview, hhas⟩
  rw [h] at hany
  cases hany

/-- A live view that repeats no name of its bases as of a version is apart from
them. -/
theorem disjoint_of_repeatsBase (hc : c.Keeps σ) (hσ : σ.Based) (hl : σ t = some l)
    {version : Option Version} (h : c.store.repeatsBase t version = false)
    (hr : ∃ d ∈ l.retained, d.version = version.getD l.head.version)
    (hlive : l.head.isSnapshot = false) :
    ((σ.inherited l.head).map (·.name)).Disjoint
      ((l.columnsAt t (version.getD l.head.version)).map (·.name)) := by
  have hinherited := hc.inheritedColumns_eq fun b hb => hσ.provides hl hb
  rw [Store.repeatsBase, hc.store.head t l hl] at h
  simp only [hinherited, hlive, Bool.not_false, Bool.true_and] at h
  rw [List.disjoint_left]
  intro name hname hown
  obtain ⟨e, he, rfl⟩ := List.mem_map.1 hname
  have hhas := List.any_eq_false.1 h e he
  exact hhas ((hc.hasColumn_iff hl version hr).2 hown)

end Catalog.Keeps

/-- An operation that changes a table succeeds. -/
theorem Catalog.isSome_of_change? {c : Catalog} {now : Float} {op : Operation} {t : TableId}
    (h : c.change? t (.perform now op) = some op) :
    (c.perform now op).1.result.toOption.isSome = true := by
  rw [change?] at h
  split at h
  · rename_i o hok
    rw [hok]
    rfl
  · cases h

namespace Catalog.ActsClashFree

variable {c : Catalog} {now : Float} {op : Operation} {t : TableId}

theorem clashes (h : c.ActsClashFree (.perform now op))
    (hchange : c.change? t (.perform now op) = some op) : op.clashes c.store = false :=
  h (isSome_of_change? hchange)

/-- The name that a successful operation gives to a column of a table is in no
live view over the table, if the operation does not clash. -/
theorem namesInViews (h : c.ActsClashFree (.perform now op))
    (hchange : c.change? t (.perform now op) = some op) {name : String}
    (hname : op.columnName? = some name) : c.store.namesInViews t name = false := by
  have hclash := h.clashes hchange
  have htable := table?_of_change? hchange
  cases op <;> cases hname <;> cases htable <;> exact hclash

end Catalog.ActsClashFree

/-! ### Steps and runs -/

section Steps

variable {c : Catalog} {σ : Ledgers} {t : TableId} {op : Operation} {dir : Option DirId} {d : Draft}

/-- The columns that a new snapshot inherits have different names, if taking it
does not clash. -/
theorem Birth.nodup_inherited (hb : Birth c op t dir d) (hc : c.Keeps σ) (hbased : σ.Based)
    (hchained : σ.Chained) (hσ : σ.Apart) (hclash : op.clashes c.store = false)
    (hsnap : d.head.isSnapshot = true) : ((σ.inherited d.head).map (·.name)).Nodup := by
  cases hb with
  | table _ hstart hgrow =>
    obtain ⟨n, _, rfl⟩ := newDraft_eq_ok hstart
    obtain ⟨m, history, hhead⟩ := hgrow.head_eq
    rw [Ledgers.inherited_of_table (by rw [hhead])]
    exact List.nodup_nil
  | @view _ spec _ base bases visible start _ _ hbase hbases hstart _ hgrow =>
    obtain ⟨n, _, rfl⟩ := newDraft_eq_ok hstart
    obtain ⟨m, history, hhead⟩ := hgrow.head_eq
    have hview : d.head.view = some (spec.source bases) := by rw [hhead]
    rw [TableHead.isSnapshot, hview] at hsnap
    have hspec : spec.isSnapshot = true := hsnap
    obtain ⟨l, hl, rfl⟩ := hc.store.exists_ledger hbase
    rw [hspec] at hbases
    obtain ⟨⟨e, he, hversion⟩, hprovided⟩ := hc.columns_of_resolveBases hl hbases
    have hrepeats : c.store.repeatsBase spec.base spec.baseVersion = false := by
      rw [Operation.clashes, hspec, Bool.true_and] at hclash
      exact hclash
    have hle := ((hc.sound _ l hl).le_of_mem_retained he).2
    rw [hversion] at hle
    rw [Ledgers.inherited, TableHead.chain_of_view hview]
    show ((bases.reverse.flatMap σ.columns).map (·.name)).Nodup
    rw [hprovided]
    exact hσ.nodup_at hchained hc.sound hl hle
      (hc.disjoint_of_repeatsBase hbased hl hrepeats ⟨e, he, hversion⟩)

/-- A new table or view is apart from its bases. -/
theorem Birth.apart (hb : Birth c op t dir d) (hc : c.Keeps σ) (hbased : σ.Based)
    (hchained : σ.Chained) (hσ : σ.Apart) (hclash : op.clashes c.store = false)
    (hnew : σ t = none) {now : Float}
    (hs : ((Ledger.blank dir d.head).push now d.head (some d.schema)).Sound) :
    (σ.put t ((Ledger.blank dir d.head).push now d.head (some d.schema))).Apart := by
  have hcolumns := hb.columnsAt_eq now
  have hversion : d.head.version = 0 := hb.head_version
  have hdisjoint := hb.disjoint hc hbased
  have hnames := hs.nodup_names (Nat.le_refl _) t
  rw [← hcolumns] at hdisjoint
  refine hσ.put_new hbased hnew ?_ ?_ ?_
  · show ∀ b ∈ d.head.settled.chain, σ.Provides b
    rw [TableHead.chain_settled]
    exact hb.provides hc hbased
  · intro _
    show ((σ.inherited d.head.settled).map (·.name)).Disjoint _
    rw [Ledgers.inherited_settled]
    exact hdisjoint
  · intro hsnap v hv
    have hv : v ≤ d.head.version := hv
    have hzero : v = d.head.version := by
      rw [hversion] at hv ⊢
      exact Nat.le_zero.1 hv
    have hsnap : d.head.isSnapshot = true := by
      rw [← TableHead.isSnapshot_settled]
      exact hsnap
    show ((σ.inherited d.head.settled ++ _).map (·.name)).Nodup
    rw [Ledgers.inherited_settled, hzero, List.map_append]
    exact List.nodup_append'.2
      ⟨hb.nodup_inherited hc hbased hchained hσ hclash hsnap, hnames, hdisjoint⟩

/-- A step that does not clash keeps views apart from their bases. -/
theorem Advance.apart {σ' : Ledgers} {a : Action} (h : Advance c σ a σ') (hc : c.Keeps σ)
    (hc' : (c.act a).Keeps σ') (hbased : σ.Based) (hchained : σ.Chained) (hσ : σ.Apart)
    (hfree : c.ActsClashFree a) : σ'.Apart := by
  have hextends := h.extends hc
  cases h with
  | idle => exact hσ
  | @birth now op u dir d hchange hnew hbirth =>
    exact hbirth.apart hc hbased hchained hσ (hfree.clashes hchange) hnew
      (hc'.sound u _ (Ledgers.put_self _ _ _))
  | @edit now op u l k d hchange hl hlive _ hschema hedit =>
    obtain ⟨l', hl', hext⟩ := hextends u l hl
    rw [Ledgers.put_self] at hl'
    cases hl'
    refine hσ.put hbased hchained hc.sound hl hlive hext (fun name => op.columnName? = some name)
      (fun name hname => ?_) (fun name hname => ?_) fun name hname w m hm hmlive hb => ?_
    · have hs := hc.sound u l hl
      obtain ⟨e, hcurrent⟩ := hs.at?_current hschema
      rw [Ledger.names_columnsAt hcurrent]
      have hnames : ((l.push now d.head (some d.schema.compact)).columnsAt u
          d.head.version).map (·.name) = d.schema.columnNames := hedit.names_eq hs now
      exact hedit.mem_columnNames (hnames ▸ hname)
    · exact hedit.notMem_inherited hc hbased hl hname
    · exact hc.notMem_of_namesInViews (hfree.namesInViews hchange hname) hm hmlive hb
  | @rows now op u l h hchange hl hlive _ hrows =>
    obtain ⟨l', hl', hext⟩ := hextends u l hl
    rw [Ledgers.put_self] at hl'
    cases hl'
    refine hσ.put hbased hchained hc.sound hl hlive hext (fun _ => False) (fun name hname => ?_)
      nofun nofun
    have hsame : (l.push now h none).columnsAt u h.version = l.columnsAt u l.head.version :=
      hrows.columnsAt_eq (hc.sound u l hl) now
    left
    rw [← hsame]
    exact hname

end Steps

/-- A run in which nothing clashes keeps views apart from their bases. -/
theorem Catalog.Keeps.after_apart {c : Catalog} {σ : Ledgers} (hc : c.Keeps σ) (hbased : σ.Based)
    (hchained : σ.Chained) (hσ : σ.Apart) {as : List Action} (ha : c.Admits as)
    (hfree : c.ClashFree as) :
    ∃ σ', (c.after as).Keeps σ' ∧ σ'.Based ∧ σ'.Chained ∧ σ'.Apart := by
  induction as generalizing c σ with
  | nil => exact ⟨σ, hc, hbased, hchained, hσ⟩
  | cons a as ih =>
    obtain ⟨σ', hc', hadvance⟩ := hc.act ha.1
    have hbased' := hadvance.based hc hc' hbased
    have hchained' := hadvance.chained hc hchained
    exact ih hc' hbased' hchained' (hadvance.apart hc hc' hbased hchained hσ hfree.1) ha.2 hfree.2

end Cadastre
