/-
# Live views compose

The bases of a live view are a copy of its base's bases, taken when the view is
created, with the base in front. A live view keeps its bases and so does every
table behind it, so the copy stays true (`Course.chained`). Reading the bases
in reverse is therefore the same as walking from base to base: first what is
read through the direct base now, then the view's own columns
(`Ledgers.inherited_of_base`, `Catalog.Keeps.walk`).

Key definitions: `Store.Walk`, `Ledgers.Chained`.
Key theorems: `Store.resolveBases_live`, `Advance.chained`, `Course.chained`,
`Ledgers.Chained.induct`, `Catalog.Keeps.walk`, `Catalog.liveView`.
-/
import Cadastre.Proofs.EffectiveSchema

namespace Cadastre

/-- What is read by a walk through the direct bases: of a table its own columns,
of a live view what is read of its base and then its own. -/
inductive Store.Walk (s : Store) : TableId → List EffectiveColumn → Prop
  | table {t : TableId} {x : Table} {sn : Snapshot} (hx : s.table t = .ok x)
      (hview : x.head.view = none) (hown : s.snapshot t none = .ok sn) : Walk s t sn.columns
  | view {t base : TableId} {x : Table} {source : ViewSource} {columns : List EffectiveColumn}
      {sn : Snapshot} (hx : s.table t = .ok x) (hview : x.head.view = some source)
      (hlive : source.isSnapshot = false) (hbase : source.base = some base)
      (hwalk : Walk s base columns) (hown : s.snapshot t none = .ok sn) :
      Walk s t (columns ++ sn.columns)

/-! ### Chains of bases -/

/-- A live view is over a table or another live view as it is now, with the bases
of that one behind. -/
theorem Store.resolveBases_live {s : Store} {base : Table} {version : Option Version}
    {bases : List (TableId × Option Version)}
    (h : s.resolveBases base false version = .ok bases) :
    base.head.isSnapshot = false ∧ bases = (base.id, none) :: base.head.chain := by
  unfold Store.resolveBases at h
  simp only [Bool.false_eq_true, if_false] at h
  split at h
  · cases h
  · rename_i hlive
    cases version with
    | some v => cases h
    | none =>
      cases h
      exact ⟨by simpa using hlive, rfl⟩

/-- The bases of every live view are its direct base and then the bases of that
one, which is no snapshot. -/
def Ledgers.Chained (σ : Ledgers) : Prop :=
  ∀ (w : TableId) (m : Ledger) (source : ViewSource), σ w = some m → m.head.view = some source →
    source.isSnapshot = false → ∃ b l, σ b = some l ∧ l.head.isSnapshot = false ∧
      m.head.chain = (b, none) :: l.head.chain

theorem Ledgers.chained_empty : Ledgers.Chained fun _ => none := by
  intro w m source hm
  cases hm

/-- A step keeps the chains. -/
theorem Advance.chained {c : Catalog} {σ σ' : Ledgers} {a : Action} (h : Advance c σ a σ')
    (hc : c.Keeps σ) (hσ : σ.Chained) : σ'.Chained := by
  -- the direct base of a view has the same view after the step
  have hgrow : ∀ {b l bases}, σ b = some l → l.head.isSnapshot = false →
      bases = (b, none) :: l.head.chain → ∃ b' l', σ' b' = some l' ∧
        l'.head.isSnapshot = false ∧ bases = (b', none) :: l'.head.chain := by
    intro b l bases hl hlive hbases
    obtain ⟨l', hl', hext⟩ := h.extends hc b l hl
    refine ⟨b, l', hl', ?_, ?_⟩
    · rw [TableHead.isSnapshot, hext.view]
      exact hlive
    · rw [TableHead.chain, hext.view]
      exact hbases
  intro w m' source hm' hview hsource
  rw [TableHead.chain_of_view hview]
  rcases h.origin hc hm' hview with ⟨m, hm, hview'⟩ | ⟨base, version, hbase, hbases⟩
  · obtain ⟨b, l, hl, hlive, hchain⟩ := hσ w m source hm hview' hsource
    rw [TableHead.chain_of_view hview'] at hchain
    exact hgrow hl hlive hchain
  · rw [hsource] at hbases
    obtain ⟨hlive, hchain⟩ := Store.resolveBases_live hbases
    obtain ⟨l, hl, hx⟩ := hc.store.exists_ledger hbase
    rw [hx] at hlive hchain
    exact hgrow hl hlive hchain

/-- A run keeps the chains. -/
theorem Course.chained {c : Catalog} {σ σ' : Ledgers} {as : List Action} (h : Course c σ as σ')
    (hσ : σ.Chained) : σ'.Chained := by
  induction h with
  | nil => exact hσ
  | cons hc hadvance _ ih => exact ih (hadvance.chained hc hσ)

/-- What holds of the tables, and of a live view if it holds of its direct base,
holds of everything that is no snapshot. The chain of bases gets shorter from
base to base. -/
theorem Ledgers.Chained.induct {σ : Ledgers} (hσ : σ.Chained) {P : TableId → Ledger → Prop}
    (htable : ∀ t l, σ t = some l → l.head.view = none → P t l)
    (hview : ∀ t l source b m, σ t = some l → l.head.view = some source →
      source.isSnapshot = false → σ b = some m → m.head.isSnapshot = false →
      l.head.chain = (b, none) :: m.head.chain → P b m → P t l)
    {t : TableId} {l : Ledger} (hl : σ t = some l) (hlive : l.head.isSnapshot = false) :
    P t l := by
  generalize hbases : l.head.chain = bases
  induction bases generalizing t l with
  | nil =>
    cases hsource : l.head.view with
    | none => exact htable t l hl hsource
    | some source =>
      rw [TableHead.isSnapshot, hsource] at hlive
      obtain ⟨b, m, _, _, hchain⟩ := hσ t l source hl hsource hlive
      rw [hbases] at hchain
      cases hchain
  | cons b bases ih =>
    cases hsource : l.head.view with
    | none => exact htable t l hl hsource
    | some source =>
      rw [TableHead.isSnapshot, hsource] at hlive
      obtain ⟨b, m, hm, hmlive, hchain⟩ := hσ t l source hl hsource hlive
      have hrest : m.head.chain = bases := (List.cons.inj (hchain.symm.trans hbases)).2
      exact hview t l source b m hl hsource hlive hm hmlive hchain (ih hm hmlive hrest)

/-- The chain of a base of a live view is shorter than the view's own. -/
theorem Ledgers.Chained.length_chain_lt {σ : Ledgers} (hσ : σ.Chained) {t : TableId}
    {l : Ledger} (hl : σ t = some l) (hlive : l.head.isSnapshot = false) :
    ∀ b ∈ l.head.chain, ∃ m, σ b.1 = some m ∧
      m.head.chain.length < l.head.chain.length := by
  refine hσ.induct (P := fun _ l => ∀ b ∈ l.head.chain, ∃ m, σ b.1 = some m ∧
    m.head.chain.length < l.head.chain.length) (fun u m _ hview => ?_)
    (fun u m source b n _ _ _ hn _ hchain ih => ?_) hl hlive
  · rw [TableHead.chain_of_table hview]
    exact nofun
  · rw [hchain]
    refine List.forall_mem_cons.2 ⟨⟨n, hn, Nat.lt_succ_self _⟩, fun a ha => ?_⟩
    obtain ⟨k, hk, hlt⟩ := ih a ha
    exact ⟨k, hk, Nat.lt_succ_of_lt hlt⟩

/-- No live view is its own base. -/
theorem Ledgers.Chained.ne_of_mem_chain {σ : Ledgers} (hσ : σ.Chained) {t : TableId}
    {l : Ledger} (hl : σ t = some l) (hlive : l.head.isSnapshot = false)
    {b : TableId × Option Version} (hb : b ∈ l.head.chain) : b.1 ≠ t := by
  rintro rfl
  obtain ⟨m, hm, hlt⟩ := hσ.length_chain_lt hl hlive b hb
  rw [hl] at hm
  cases hm
  exact Nat.lt_irrefl _ hlt

/-! ### The flattened chain and the walk -/

/-- A live view inherits what is read through its direct base. -/
theorem Ledgers.inherited_of_base {σ : Ledgers} {h : TableHead} {b : TableId} {l : Ledger}
    (hl : σ b = some l) (hchain : h.chain = (b, none) :: l.head.chain) :
    σ.inherited h = σ.inherited l.head ++ l.columnsAt b l.head.version := by
  have hbase : σ.columns (b, none) = l.columnsAt b l.head.version := columns_of_ledger hl none
  rw [inherited, hchain, List.reverse_cons, List.flatMap_append, List.flatMap_singleton, hbase]
  rfl

/-- The walk from a table or a live view reads what its chain of bases provides
and then its own columns. -/
theorem Catalog.Keeps.walk {c : Catalog} {σ : Ledgers} (hc : c.Keeps σ) (hσ : σ.Chained)
    {t : TableId} {l : Ledger} (hl : σ t = some l) (hlive : l.head.isSnapshot = false) :
    c.store.Walk t (σ.inherited l.head ++ l.columnsAt t l.head.version) := by
  have hown : ∀ {u m}, σ u = some m → ∃ sn, c.store.snapshot u none = .ok sn ∧
      sn.columns = m.columnsAt u m.head.version := fun hm =>
    hc.snapshot_columns hm none (hc.sound _ _ hm).exists_current
  refine hσ.induct (P := fun u m => c.store.Walk u (σ.inherited m.head ++
    m.columnsAt u m.head.version)) (fun u m hm hview => ?_)
    (fun u m source b n hm hview hsource hn _ hchain ih => ?_) hl hlive
  · obtain ⟨sn, hsn, hcolumns⟩ := hown hm
    rw [Ledgers.inherited_of_table hview, List.nil_append, ← hcolumns]
    exact .table (hc.store.head u m hm) hview hsn
  · obtain ⟨sn, hsn, hcolumns⟩ := hown hm
    have hdirect : source.base = some b := by
      rw [ViewSource.base, ← TableHead.chain_of_view hview, hchain]
      rfl
    rw [Ledgers.inherited_of_base hn hchain, ← hcolumns]
    exact .view (hc.store.head u m hm) hview hsource hdirect ih hsn

/-! ### Runs -/

/-- When a live view was created over a base, a table or another live view, then
after whatever happened since, every retained version of the view is read with
the columns that are read through the base now, which are those that a walk
from base to base reads, and then with the view's own columns of that version. -/
theorem Catalog.liveView {config : Config} {registry : Registry} {as bs : List Action}
    {now : Float} {w : TableId} {spec : ViewSpec} {o : Outcome}
    (ha : (fresh config registry).Admits (as ++ .perform now (.createView w spec) :: bs))
    (hlive : spec.isSnapshot = false)
    (hok : (((fresh config registry).after as).perform now (.createView w spec)).1.result =
      .ok o) :
    ∃ columns versions,
      ((fresh config registry).after
          (as ++ .perform now (.createView w spec) :: bs)).store.effectiveSchema spec.base none =
        .ok columns ∧
      ((fresh config registry).after
          (as ++ .perform now (.createView w spec) :: bs)).store.Walk spec.base columns ∧
      ((fresh config registry).after
          (as ++ .perform now (.createView w spec) :: bs)).store.retainedVersions w =
        .ok versions ∧
      ∀ v ∈ versions, ∃ sn,
        ((fresh config registry).after
            (as ++ .perform now (.createView w spec) :: bs)).store.snapshot w (some v.version) =
          .ok sn ∧
        ((fresh config registry).after
            (as ++ .perform now (.createView w spec) :: bs)).store.effectiveSchema w
              (some v.version) =
          .ok (columns ++ sn.columns) := by
  obtain ⟨hbefore, hallows, hafter⟩ := admits_append.1 ha
  obtain ⟨σ, hc, hcourse, hσ⟩ :=
    (keeps_fresh config registry).after_based Ledgers.based_empty hbefore
  obtain ⟨σ₁, hc₁, hadvance⟩ := hc.act hallows
  have hσ₁ : σ₁.Based := hadvance.based hc hc₁ hσ
  obtain ⟨σ₂, hc₂, hcourse₂, hσ₂⟩ := hc₁.after_based hσ₁ hafter
  have hchained : σ₂.Chained :=
    hcourse₂.chained (hadvance.chained hc (hcourse.chained Ledgers.chained_empty))
  -- the view is over the base that it was created over
  obtain ⟨base, bases, m, hbase, hbases, _, rfl, hview, _⟩ := hadvance.exists_view hok
  rw [hlive] at hbases
  obtain ⟨_, hdirect⟩ := Store.resolveBases_live hbases
  rw [Store.id_of_table hbase] at hdirect
  obtain ⟨m₂, hm₂, hext⟩ := hcourse₂.extends w m (Ledgers.put_self _ _ _)
  rw [← hext.view] at hview
  obtain ⟨b, l, hl, hllive, hchain⟩ := hchained w m₂ _ hm₂ hview hlive
  obtain rfl : b = spec.base := by
    have hbases : m₂.head.chain = bases := TableHead.chain_of_view hview
    rw [hbases, hdirect] at hchain
    exact (Prod.mk.inj (List.cons.inj hchain).1).1.symm
  have hread := hc₂.effectiveSchema_eq hσ₂ hl none (hc₂.sound _ l hl).exists_current
  have hretained := hc₂.store.retainedVersions_eq hm₂ (hc₂.sound w m₂ hm₂)
  rw [after_append]
  refine ⟨_, _, hread, hc₂.walk hchained hl hllive, hretained, fun v hv => ?_⟩
  obtain ⟨sn, hsn, hown⟩ := hc₂.snapshot_columns hm₂ (some v.version) ⟨v, hv, rfl⟩
  have hthrough := hc₂.effectiveSchema_eq hσ₂ hm₂ (some v.version) ⟨v, hv, rfl⟩
  rw [Ledgers.inherited_of_base hl hchain, ← hown] at hthrough
  exact ⟨sn, hsn, hthrough⟩

/-! ### A view of a view

A second view is created over a live view of people. Then columns go and come in
all three of them. -/

namespace Sample

def echoes : TableId := .ofNat 5

def echoing : ViewSpec where
  dir := home
  name := "echoes"
  base := voices
  columns := [{ name := "delay", type := .float }]
  retained := some 2

/-- Changes of the table and of both views. -/
def tuning : List Action := [
  .perform 4 (.dropColumn people 0 "nick"),
  .perform 5 (.addColumn echoes 0 { name := "room", type := .string }),
  .perform 6 (.addColumn voices 0 { name := "tone", type := .string }),
  .perform 7 (.renameColumn echoes 1 "delay" "lag"),
  .perform 8 (.renameColumn voices 1 "pitch" "height"),
  .perform 9 (.addColumn people 1 { name := "age", type := .int })]

end Sample

theorem Sample.liveView_echoes :
    Sample.start.Admits
        (Sample.viewing ++ .perform 3 (.createView Sample.echoes Sample.echoing) ::
          Sample.tuning) ∧
      Sample.echoing.isSnapshot = false ∧
      ∃ o, ((Sample.start.after Sample.viewing).perform 3
          (.createView Sample.echoes Sample.echoing)).1.result = .ok o ∧
        ∃ columns versions,
          (Sample.start.after (Sample.viewing ++
            .perform 3 (.createView Sample.echoes Sample.echoing) ::
              Sample.tuning)).store.effectiveSchema Sample.voices none = .ok columns ∧
          (Sample.start.after (Sample.viewing ++
            .perform 3 (.createView Sample.echoes Sample.echoing) ::
              Sample.tuning)).store.Walk Sample.voices columns ∧
          (Sample.start.after (Sample.viewing ++
            .perform 3 (.createView Sample.echoes Sample.echoing) ::
              Sample.tuning)).store.retainedVersions Sample.echoes = .ok versions ∧
          ∀ v ∈ versions, ∃ sn,
            (Sample.start.after (Sample.viewing ++
              .perform 3 (.createView Sample.echoes Sample.echoing) ::
                Sample.tuning)).store.snapshot Sample.echoes (some v.version) = .ok sn ∧
            (Sample.start.after (Sample.viewing ++
              .perform 3 (.createView Sample.echoes Sample.echoing) ::
                Sample.tuning)).store.effectiveSchema Sample.echoes (some v.version) =
              .ok (columns ++ sn.columns) := by
  have ha : Sample.start.Admits
      (Sample.viewing ++ .perform 3 (.createView Sample.echoes Sample.echoing) ::
        Sample.tuning) := by
    decide +kernel
  have hsome : ((Sample.start.after Sample.viewing).perform 3
      (.createView Sample.echoes Sample.echoing)).1.result.toOption.isSome = true := by
    decide +kernel
  obtain ⟨o, ho⟩ := Option.isSome_iff_exists.1 hsome
  exact ⟨ha, rfl, o, eq_ok_of_toOption ho, Catalog.liveView ha rfl (eq_ok_of_toOption ho)⟩

end Cadastre
