/-
# What is read through a table

What is read through a table, and through the bases of a view, is told by the
ledgers alone: a base is read at the version that is fixed, or at its current
one, and it makes no difference whether that version is still retained
(`Catalog.Keeps.inheritedColumns_eq`, `Catalog.Keeps.effectiveSchema_eq`).
Fixing the live bases of a chain at their current versions changes nothing of
what is read through the chain (`Store.map_columns_of_pinAll`), and a base that
is fixed is read the same from then on (`Ledgers.Extends.columns_eq`).

Key definitions: `TableHead.chain`, `Ledger.columnsAt`, `Ledgers.Provides`,
`Ledgers.columns`, `Ledgers.inherited`, `declaredColumns`.
Key theorems: `Ledger.Sound.exists_current`, `Catalog.Keeps.inheritedColumns_eq`,
`Catalog.Keeps.effectiveSchema_eq`, `Store.map_columns_of_pinAll`,
`Ledgers.Extends.columns_eq`, `Advance.exists_view`.
-/
import Cadastre.Proofs.Bases
import Cadastre.Proofs.Roster

namespace Cadastre

/-- The bases of a table; only a view has any. -/
def TableHead.chain (h : TableHead) : List (TableId × Option Version) :=
  (h.view.map (·.bases)).getD []

theorem TableHead.chain_of_view {h : TableHead} {source : ViewSource}
    (hview : h.view = some source) : h.chain = source.bases := by
  rw [chain, hview]
  rfl

theorem TableHead.chain_of_table {h : TableHead} (hview : h.view = none) : h.chain = [] := by
  rw [chain, hview]
  rfl

/-- A head that is read back has the bases that were written. -/
@[simp] theorem TableHead.chain_settled (h : TableHead) : h.settled.chain = h.chain := by
  rw [chain, chain, settled]
  cases h.view <;> rfl

@[simp] theorem TableHead.isSnapshot_settled (h : TableHead) :
    h.settled.isSnapshot = h.isSnapshot := by
  rw [isSnapshot, isSnapshot, settled]
  cases h.view <;> rfl

/-- The bases of a snapshot are fixed, and those of a live view are not. -/
theorem Ledger.Sound.isSome_of_mem_chain {l : Ledger} (hs : l.Sound)
    {b : TableId × Option Version} (hb : b ∈ l.head.chain) : b.2.isSome = l.head.isSnapshot := by
  cases hview : l.head.view with
  | none =>
    rw [TableHead.chain_of_table hview] at hb
    cases hb
  | some source =>
    rw [TableHead.chain_of_view hview] at hb
    rw [(hs.view source hview).fixed b hb, TableHead.isSnapshot, hview]
    rfl

/-- A live view reads its bases as they are now. -/
theorem Ledger.Sound.eq_none_of_mem_chain {l : Ledger} (hs : l.Sound)
    (hlive : l.head.isSnapshot = false) {t : TableId} {v : Option Version}
    (hb : (t, v) ∈ l.head.chain) : v = none := by
  have hfixed := hs.isSome_of_mem_chain hb
  rw [hlive] at hfixed
  exact Option.isNone_iff_eq_none.1 (by simpa using hfixed)

/-! ### Columns that the ledgers list -/

/-- The columns of table `t` as of a version. -/
def Ledger.columnsAt (l : Ledger) (t : TableId) (v : Version) : List EffectiveColumn :=
  match l.at? v with
  | some (_, k) => k.ordered.map fun e => ⟨t, e.1, e.2⟩
  | none => []

namespace Ledgers

/-- A base can be read: it has a ledger, which a fixed version is not past. -/
def Provides (σ : Ledgers) (b : TableId × Option Version) : Prop :=
  ∃ l, σ b.1 = some l ∧ ∀ v ∈ b.2, v ≤ l.head.version

/-- The columns of a base at its fixed version, or at its current one. -/
def columns (σ : Ledgers) (b : TableId × Option Version) : List EffectiveColumn :=
  match σ b.1 with
  | some l => l.columnsAt b.1 (b.2.getD l.head.version)
  | none => []

/-- The columns of the bases of a view, the root's first. -/
def inherited (σ : Ledgers) (h : TableHead) : List EffectiveColumn :=
  h.chain.reverse.flatMap σ.columns

theorem columns_of_ledger {σ : Ledgers} {t : TableId} {l : Ledger} (hl : σ t = some l)
    (v : Option Version) : σ.columns (t, v) = l.columnsAt t (v.getD l.head.version) := by
  rw [columns, hl]

theorem columns_put_of_ne {σ : Ledgers} {t : TableId} {l : Ledger} {b : TableId × Option Version}
    (hb : b.1 ≠ t) : (σ.put t l).columns b = σ.columns b := by
  rw [columns, columns, put_of_ne hb]

theorem mem_inherited_iff {σ : Ledgers} {h : TableHead} {e : EffectiveColumn} :
    e ∈ σ.inherited h ↔ ∃ b ∈ h.chain, e ∈ σ.columns b := by
  rw [inherited, List.mem_flatMap]
  exact exists_congr fun b => and_congr_left fun _ => List.mem_reverse

theorem inherited_of_table {σ : Ledgers} {h : TableHead} (hview : h.view = none) :
    σ.inherited h = [] := by
  rw [inherited, TableHead.chain_of_table hview]
  rfl

@[simp] theorem inherited_settled (σ : Ledgers) (h : TableHead) :
    σ.inherited h.settled = σ.inherited h := by
  rw [inherited, inherited, TableHead.chain_settled]

/-- A chain that provides the same columns base by base is read the same. -/
theorem flatMap_reverse_congr {σ σ' : Ledgers} {bases bases' : List (TableId × Option Version)}
    (h : bases'.map σ'.columns = bases.map σ.columns) :
    bases'.reverse.flatMap σ'.columns = bases.reverse.flatMap σ.columns := by
  rw [List.flatMap_def, List.flatMap_def, List.map_reverse, List.map_reverse, h]

/-- What a table inherits depends on what its bases provide only. -/
theorem inherited_congr {σ σ' : Ledgers} {h : TableHead}
    (heq : ∀ b ∈ h.chain, σ'.columns b = σ.columns b) : σ'.inherited h = σ.inherited h :=
  flatMap_reverse_congr (List.map_congr_left heq)

/-- The bases of a view can be read. -/
theorem Based.provides {σ : Ledgers} (hσ : σ.Based) {t : TableId} {l : Ledger} (hl : σ t = some l)
    {b : TableId × Option Version} (hb : b ∈ l.head.chain) : σ.Provides b := by
  cases hview : l.head.view with
  | none =>
    rw [TableHead.chain_of_table hview] at hb
    cases hb
  | some source =>
    rw [TableHead.chain_of_view hview] at hb
    exact hσ t l source hl hview b hb

end Ledgers

namespace Ledger

variable {l : Ledger}

/-- The current version stays readable. -/
theorem Sound.exists_current (hs : l.Sound) : ∃ d ∈ l.retained, d.version = l.head.version := by
  obtain ⟨k, hk⟩ := hs.exists_schema (Nat.le_refl _)
  obtain ⟨d, hd⟩ := hs.exists_version (Nat.le_refl _)
  have hversion : d.version = l.head.version := hs.paired.numbered _ d hd
  refine ⟨d, (hs.mem_retained_iff hk).2 ⟨List.mem_of_getElem? hd, ?_⟩, hversion⟩
  rw [hversion]
  exact hs.first_retained_le hk

theorem Sound.le_of_mem_retained (hs : l.Sound) {d : DataVersion} (hd : d ∈ l.retained) :
    l.versions[d.version]? = some d ∧ d.version ≤ l.head.version := by
  obtain ⟨k, hk⟩ := hs.exists_schema (Nat.le_refl _)
  obtain ⟨i, hi⟩ := List.mem_iff_getElem?.1 ((hs.mem_retained_iff hk).1 hd).1
  have hlt : i < l.versions.length := (List.getElem?_eq_some_iff.1 hi).1
  rw [hs.paired.length] at hlt
  rw [hs.paired.numbered i d hi]
  exact ⟨hi, Nat.le_of_lt_succ hlt⟩

/-- A version that was listed is listed in every ledger that extends this one. -/
theorem Extends.at?_eq {l' : Ledger} (h : l.Extends l') {v : Version} {x : DataVersion × Schema}
    (hx : l.at? v = some x) : l'.at? v = some x := by
  obtain ⟨d, k⟩ := x
  obtain ⟨hd, hk⟩ := at?_eq_some_iff.1 hx
  exact at?_eq_some_iff.2
    ⟨getElem?_of_isPrefix h.versions hd, getElem?_of_isPrefix h.schemas hk⟩

theorem Extends.columnsAt_eq {l' : Ledger} (h : l.Extends l') (hs : l.Sound) {v : Version}
    (hv : v ≤ l.head.version) (t : TableId) : l'.columnsAt t v = l.columnsAt t v := by
  obtain ⟨d, k, hat⟩ := hs.exists_at hv
  rw [columnsAt, columnsAt, hat, h.at?_eq hat]

end Ledger

/-- A base that is fixed is read the same in all ledgers that come after. -/
theorem Ledgers.Extends.columns_eq {σ σ' : Ledgers} (h : σ.Extends σ')
    (hs : ∀ t l, σ t = some l → l.Sound) {b : TableId × Option Version} (hb : σ.Provides b)
    (hfixed : b.2.isSome = true) : σ'.columns b = σ.columns b := by
  obtain ⟨t, v⟩ := b
  obtain ⟨v, rfl⟩ := Option.isSome_iff_exists.1 hfixed
  obtain ⟨l, hl, hle⟩ := hb
  obtain ⟨l', hl', hext⟩ := h t l hl
  rw [columns_of_ledger hl, columns_of_ledger hl']
  exact hext.columnsAt_eq (hs t l hl) (hle v rfl) t

/-- A base that can be read is read the same after a ledger is opened. -/
theorem Ledgers.Provides.columns_put {σ : Ledgers} {b : TableId × Option Version}
    (hb : σ.Provides b) {t : TableId} (hnew : σ t = none) (m : Ledger) :
    (σ.put t m).columns b = σ.columns b := by
  apply Ledgers.columns_put_of_ne
  rintro rfl
  obtain ⟨l, hl, _⟩ := hb
  rw [hnew] at hl
  cases hl

/-- A table inherits the same after a ledger is opened. -/
theorem Ledgers.Based.inherited_put {σ : Ledgers} (hσ : σ.Based) {t u : TableId} {l : Ledger}
    (hl : σ u = some l) (hnew : σ t = none) (m : Ledger) :
    (σ.put t m).inherited l.head = σ.inherited l.head :=
  Ledgers.inherited_congr fun _ hb => (hσ.provides hl hb).columns_put hnew m

/-- A new view inherits what its bases provide before it is there. -/
theorem Ledgers.inherited_of_new {σ : Ledgers} {h : TableHead}
    {bases : List (TableId × Option Version)} (hchain : h.chain = bases)
    (hb : ∀ b ∈ bases, σ.Provides b) {w : TableId} (hnew : σ w = none) (m : Ledger) :
    (σ.put w m).inherited h = bases.reverse.flatMap σ.columns := by
  rw [inherited, hchain]
  exact flatMap_reverse_congr (List.map_congr_left fun b hmem => (hb b hmem).columns_put hnew m)

/-! ### Reads through the store -/

namespace Catalog.Keeps

variable {c : Catalog} {σ : Ledgers} {t : TableId} {l : Ledger}

/-- A version of a table is read with the columns that its ledger lists. -/
theorem snapshotAt_columns (hc : c.Keeps σ) (hl : σ t = some l) {v : Version}
    (hv : v ≤ l.head.version) : ∃ sn, c.store.snapshotAt ⟨t, l.dir, l.head⟩ v = .ok sn ∧
      sn.columns = l.columnsAt t v := by
  obtain ⟨d, k, hat⟩ := (hc.sound t l hl).exists_at hv
  refine ⟨⟨t, l.head.name, d, k⟩, ?_, ?_⟩
  · rw [hc.store.snapshotAt_eq hl (hc.sound t l hl), hat]
  · rw [Ledger.columnsAt, hat]
    rfl

/-- A version that stays readable is read with the columns that its ledger lists. -/
theorem snapshot_columns (hc : c.Keeps σ) (hl : σ t = some l) (version : Option Version)
    (hr : ∃ d ∈ l.retained, d.version = version.getD l.head.version) :
    ∃ sn, c.store.snapshot t version = .ok sn ∧
      sn.columns = l.columnsAt t (version.getD l.head.version) := by
  obtain ⟨d, hd, hversion⟩ := hr
  have hany : (l.retained.any fun r => r.version == version.getD l.head.version) = true :=
    List.any_eq_true.2 ⟨d, hd, by rw [hversion, beq_self_eq_true]⟩
  have hle := ((hc.sound t l hl).le_of_mem_retained hd).2
  rw [hversion] at hle
  rw [hc.store.snapshot_eq hl (hc.sound t l hl), if_pos hany]
  exact hc.snapshotAt_columns hl hle

/-- Bases that can be read are read as the ledgers list them. -/
theorem columnsOf_eq (hc : c.Keeps σ) {bases : List (TableId × Option Version)}
    (hb : ∀ b ∈ bases, σ.Provides b) : c.store.columnsOf bases = .ok (bases.flatMap σ.columns) := by
  induction bases with
  | nil => rfl
  | cons b bases ih =>
    obtain ⟨t, v⟩ := b
    obtain ⟨l, hl, hle⟩ := hb (t, v) List.mem_cons_self
    have hv : v.getD l.head.version ≤ l.head.version := by
      cases v with
      | none => exact Nat.le_refl _
      | some v => exact hle v rfl
    obtain ⟨sn, hsn, hcolumns⟩ := hc.snapshotAt_columns hl hv
    have hrest := ih fun b hmem => hb b (List.mem_cons_of_mem _ hmem)
    refine bind_eq_ok_iff.2 ⟨_, hc.store.head t l hl, bind_eq_ok_iff.2 ⟨sn, hsn, ?_⟩⟩
    refine bind_eq_ok_iff.2 ⟨_, hrest, ?_⟩
    rw [List.flatMap_cons, Ledgers.columns_of_ledger hl, hcolumns]

/-- The columns that a table inherits are those that its bases provide. -/
theorem inheritedColumns_eq (hc : c.Keeps σ) {h : TableHead} (hb : ∀ b ∈ h.chain, σ.Provides b) :
    c.store.inheritedColumns h = .ok (σ.inherited h) := by
  unfold Store.inheritedColumns
  cases hview : h.view with
  | none =>
    rw [Ledgers.inherited_of_table hview]
  | some source =>
    rw [TableHead.chain_of_view hview] at hb
    rw [Ledgers.inherited, TableHead.chain_of_view hview]
    exact hc.columnsOf_eq fun b hmem => hb b (List.mem_reverse.1 hmem)

/-- The inherited columns and then the own ones are read through a table, as of
every version that stays readable. -/
theorem effectiveSchema_eq (hc : c.Keeps σ) (hσ : σ.Based) (hl : σ t = some l)
    (version : Option Version)
    (hr : ∃ d ∈ l.retained, d.version = version.getD l.head.version) :
    c.store.effectiveSchema t version =
      .ok (σ.inherited l.head ++ l.columnsAt t (version.getD l.head.version)) := by
  obtain ⟨sn, hsn, hcolumns⟩ := hc.snapshot_columns hl version hr
  have hinherited : c.store.inheritedColumns l.head = .ok (σ.inherited l.head) :=
    hc.inheritedColumns_eq fun b hb => hσ.provides hl hb
  refine bind_eq_ok_iff.2 ⟨_, hc.store.head t l hl, bind_eq_ok_iff.2 ⟨sn, hsn, ?_⟩⟩
  refine bind_eq_ok_iff.2 ⟨_, hinherited, ?_⟩
  rw [hcolumns]

end Catalog.Keeps

/-! ### Bases that are fixed -/

/-- A chain whose live bases are fixed at their current versions provides what
it provided. -/
theorem Store.map_columns_of_pinAll {s : Store} {σ : Ledgers} (hk : s.Keeps σ)
    {bases pinned : List (TableId × Option Version)} (h : s.pinAll bases = .ok pinned) :
    pinned.map σ.columns = bases.map σ.columns := by
  induction bases generalizing pinned with
  | nil =>
    cases h
    rfl
  | cons b bases ih =>
    obtain ⟨t, v⟩ := b
    cases v with
    | some v =>
      obtain ⟨more, hmore, h⟩ := bind_eq_ok_iff.1 h
      cases h
      rw [List.map_cons, List.map_cons, ih hmore]
    | none =>
      obtain ⟨x, hx, h⟩ := bind_eq_ok_iff.1 h
      obtain ⟨more, hmore, h⟩ := bind_eq_ok_iff.1 h
      cases h
      obtain ⟨l, hl, rfl⟩ := hk.exists_ledger hx
      have hsame : σ.columns (t, some l.head.version) = σ.columns (t, none) := by
        rw [Ledgers.columns_of_ledger hl, Ledgers.columns_of_ledger hl]
        rfl
      rw [List.map_cons, List.map_cons, hsame, ih hmore]

/-! ### New views -/

/-- The declared columns of a table or view, in their order under the numbers
`0`, `1`, … -/
def declaredColumns (t : TableId) (specs : List ColumnSpec) : List EffectiveColumn :=
  specs.mapIdx fun i s => ⟨t, i, s.place i⟩

/-- The ledger that a table or view is created with has one version, with the
declared columns. -/
theorem Birth.columnsAt_eq {c : Catalog} {op : Operation} {t : TableId} {dir : Option DirId}
    {d : Draft} (hb : Birth c op t dir d) (now : Float) :
    ((Ledger.blank dir d.head).push now d.head (some d.schema)).columnsAt t d.head.version =
      declaredColumns t op.columns := by
  obtain ⟨r, hr, hdense, hlists⟩ := hb.lists
  have hdeclared : r = Roster.declared op.columns := by
    cases hb <;> cases hr <;> rfl
  have hat : ((Ledger.blank dir d.head).push now d.head (some d.schema)).at? d.head.version =
      some (⟨now, d.head.version, d.head.schemaVersion⟩, d.schema) := by
    have hschema : d.head.schemaVersion = 0 := hb.continues.schemaVersion
    rw [Ledger.at?_eq_some_iff, hschema]
    refine ⟨getElem?_concat_eq_some_iff.2 (.inr ⟨hb.head_version, ?_⟩), rfl⟩
    rw [hschema]
  rw [Ledger.columnsAt, hat]
  show d.schema.ordered.map (fun e => EffectiveColumn.mk t e.1 e.2) = _
  rw [hdense, hlists.columns, hdeclared, Roster.declared_eq]
  refine List.ext_getElem (by simp [placed, declaredColumns]) fun i hi hj => ?_
  simp [placed, declaredColumns]

/-- A view that is created is one more ledger, with the declared columns and with
the bases that are resolved from its base. -/
theorem Advance.exists_view {c : Catalog} {σ σ' : Ledgers} {now : Float} {w : TableId}
    {spec : ViewSpec} (h : Advance c σ (.perform now (.createView w spec)) σ') {o : Outcome}
    (hok : (c.perform now (.createView w spec)).1.result = .ok o) :
    ∃ base bases m, c.store.table spec.base = .ok base ∧
      c.store.resolveBases base spec.isSnapshot spec.baseVersion = .ok bases ∧
      σ w = none ∧ σ' = σ.put w m ∧ m.head.view = some (spec.source bases).settled ∧
      m.columnsAt w m.head.version = declaredColumns w spec.columns := by
  cases h with
  | idle hidle =>
    have hchange := hidle w
    rw [Catalog.change?_of_ok hok rfl] at hchange
    cases hchange
  | birth hchange hnew hbirth =>
    obtain rfl : w = _ := Option.some.inj (Catalog.table?_of_change? hchange)
    have hcolumns := hbirth.columnsAt_eq now
    cases hbirth with
    | @view _ _ _ base bases _ _ _ _ hbase hbases hstart _ hgrow =>
      obtain ⟨n, _, rfl⟩ := newDraft_eq_ok hstart
      obtain ⟨m, history, hhead⟩ := hgrow.head_eq
      refine ⟨base, bases, _, hbase, hbases, hnew, rfl, ?_, hcolumns⟩
      show _ = _
      rw [Ledger.push, hhead]
      rfl
  | edit _ _ _ hexpected => cases hexpected
  | rows _ _ _ hexpected => cases hexpected

/-! ### A small run with a view -/

namespace Sample

def voices : TableId := .ofNat 4

/-- A table of people, and a live view of it with a column of its own. -/
def viewing : List Action := creation ++ [
  .perform 2 (.createView voices {
    dir := home
    name := "voices"
    base := people
    columns := [{ name := "pitch", type := .float }]
    retained := some 1 })]

end Sample
end Cadastre
