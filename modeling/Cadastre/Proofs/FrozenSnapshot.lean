/-
# A snapshot stays as it was taken

A snapshot is read, from its creation on, as its base is read at the version
that it fixes, with the snapshot's own columns behind. Nothing that happens to
any table later changes that: no mutation makes another version of a snapshot
(`Course.frozen`), all its bases are fixed, and a fixed base is read at its
version whether that version is still retained or not.

Key theorems: `Catalog.Keeps.columns_of_resolveBases`, `Course.frozen`,
`Course.inherited_frozen`, `Catalog.frozenSnapshot`.
-/
import Cadastre.Proofs.EffectiveSchema

namespace Cadastre

/-! ### When the snapshot is taken -/

/-- The bases of a snapshot provide what is read through its base at the version
that it fixes. That version stays readable when the snapshot is taken. -/
theorem Catalog.Keeps.columns_of_resolveBases {c : Catalog} {σ : Ledgers} (hc : c.Keeps σ)
    {t : TableId} {l : Ledger} (hl : σ t = some l) {version : Option Version}
    {bases : List (TableId × Option Version)}
    (hbases : c.store.resolveBases ⟨t, l.dir, l.head⟩ true version = .ok bases) :
    (∃ d ∈ l.retained, d.version = version.getD l.head.version) ∧
      bases.reverse.flatMap σ.columns =
        σ.inherited l.head ++ l.columnsAt t (version.getD l.head.version) := by
  obtain ⟨sn, hsn, hbases⟩ := bind_eq_ok_iff.1 hbases
  obtain ⟨pinned, hpinned, hbases⟩ := bind_eq_ok_iff.1 hbases
  cases hbases
  constructor
  · obtain ⟨d, _, hd, hat, _⟩ := hc.store.exists_of_snapshot hl (hc.sound t l hl) hsn
    exact ⟨d, hd, (hc.sound t l hl).paired.numbered _ d hat⟩
  · have hchain : pinned.reverse.flatMap σ.columns = σ.inherited l.head :=
      Ledgers.flatMap_reverse_congr (Store.map_columns_of_pinAll hc.store hpinned)
    rw [List.reverse_cons, List.flatMap_append, hchain, List.flatMap_singleton,
      Ledgers.columns_of_ledger hl]
    rfl

/-- What is read through the base of a snapshot, before and after the snapshot is
taken of it, is what the snapshot inherits. -/
theorem Advance.snapshot {c : Catalog} {σ σ' : Ledgers} {now : Float} {w : TableId}
    {spec : ViewSpec} (h : Advance c σ (.perform now (.createView w spec)) σ') {o : Outcome}
    (hok : (c.perform now (.createView w spec)).1.result = .ok o) (hsnap : spec.isSnapshot = true)
    (hc : c.Keeps σ) (hσ : σ.Based) (hc' : (c.act (.perform now (.createView w spec))).Keeps σ')
    (hσ' : σ'.Based) :
    ∃ base m, c.store.table spec.base = .ok base ∧ σ' w = some m ∧ m.head.isSnapshot = true ∧
      m.columnsAt w m.head.version = declaredColumns w spec.columns ∧
      c.store.effectiveSchema spec.base (some (spec.baseVersion.getD base.head.version)) =
        .ok (σ'.inherited m.head) ∧
      (c.act (.perform now (.createView w spec))).store.effectiveSchema spec.base
        (some (spec.baseVersion.getD base.head.version)) = .ok (σ'.inherited m.head) := by
  obtain ⟨base, bases, m, hbase, hbases, hnew, rfl, hview, hcolumns⟩ := h.exists_view hok
  obtain ⟨l, hl, rfl⟩ := hc.store.exists_ledger hbase
  rw [hsnap] at hbases
  obtain ⟨hreadable, hprovided⟩ := hc.columns_of_resolveBases hl hbases
  have hinherited : (σ.put w m).inherited m.head = bases.reverse.flatMap σ.columns :=
    Ledgers.inherited_of_new (TableHead.chain_of_view hview)
      (hc.based_of_resolveBases hσ hbase hbases) hnew m
  have hne : spec.base ≠ w := by
    rintro rfl
    rw [hnew] at hl
    cases hl
  have hl' : σ.put w m spec.base = some l := by rw [Ledgers.put_of_ne hne, hl]
  have hsnapshot : m.head.isSnapshot = true := by
    rw [TableHead.isSnapshot, hview]
    exact hsnap
  let fixed : Option Version := some (spec.baseVersion.getD l.head.version)
  have hread := hc.effectiveSchema_eq hσ hl fixed hreadable
  have hread' := hc'.effectiveSchema_eq hσ' hl' fixed hreadable
  rw [hσ.inherited_put hl hnew] at hread'
  refine ⟨_, m, hbase, Ledgers.put_self _ _ _, hsnapshot, hcolumns, ?_, ?_⟩
  · rw [hinherited, hprovided]
    exact hread
  · rw [hinherited, hprovided]
    exact hread'

/-! ### What happens afterwards -/

/-- No step changes the ledger of a snapshot. -/
theorem Advance.frozen {c : Catalog} {σ σ' : Ledgers} {a : Action} (h : Advance c σ a σ')
    {w : TableId} {m : Ledger} (hm : σ w = some m) (hsnap : m.head.isSnapshot = true) :
    σ' w = some m := by
  have hne : ∀ {u : TableId} {l : Ledger}, σ u = some l → l.head.isSnapshot = false → w ≠ u := by
    rintro u l hl hlive rfl
    rw [hm] at hl
    cases hl
    rw [hsnap] at hlive
    cases hlive
  cases h with
  | idle => exact hm
  | @birth now op u dir d hchange hnew hbirth =>
    have hwu : w ≠ u := by
      rintro rfl
      rw [hm] at hnew
      cases hnew
    rw [Ledgers.put_of_ne hwu, hm]
  | edit _ hl hlive => rw [Ledgers.put_of_ne (hne hl hlive), hm]
  | rows _ hl hlive => rw [Ledgers.put_of_ne (hne hl hlive), hm]

/-- No run changes the ledger of a snapshot. -/
theorem Course.frozen {c : Catalog} {σ σ' : Ledgers} {as : List Action} (h : Course c σ as σ')
    {w : TableId} {m : Ledger} (hm : σ w = some m) (hsnap : m.head.isSnapshot = true) :
    σ' w = some m := by
  induction h with
  | nil => exact hm
  | cons _ hadvance _ ih => exact ih (hadvance.frozen hm hsnap)

/-- A snapshot inherits the same after every run. -/
theorem Course.inherited_frozen {c : Catalog} {σ σ' : Ledgers} {as : List Action}
    (h : Course c σ as σ') (hσ : σ.Based) (hs : ∀ t l, σ t = some l → l.Sound) {w : TableId}
    {m : Ledger} (hm : σ w = some m) (hsnap : m.head.isSnapshot = true) :
    σ'.inherited m.head = σ.inherited m.head := by
  apply Ledgers.inherited_congr
  intro b hb
  have hfixed : b.2.isSome = true := by rw [(hs w m hm).isSome_of_mem_chain hb, hsnap]
  exact h.extends.columns_eq hs (hσ.provides hm hb) hfixed

/-! ### From the creation on -/

/-- When a snapshot is taken of a base, at a version `p` that is given or the
base's current one, the columns that are read through the snapshot are those
that are read through the base at `p` and then the declared ones. They are the
same after whatever happens next. -/
theorem Catalog.frozenSnapshot {config : Config} {registry : Registry} {as bs : List Action}
    {now : Float} {w : TableId} {spec : ViewSpec} {o : Outcome}
    (ha : (fresh config registry).Admits (as ++ .perform now (.createView w spec) :: bs))
    (hsnap : spec.isSnapshot = true)
    (hok : (((fresh config registry).after as).perform now (.createView w spec)).1.result =
      .ok o) :
    ∃ base columns,
      ((fresh config registry).after as).store.table spec.base = .ok base ∧
      ((fresh config registry).after as).store.effectiveSchema spec.base
        (some (spec.baseVersion.getD base.head.version)) = .ok columns ∧
      ((fresh config registry).after
          (as ++ [.perform now (.createView w spec)])).store.effectiveSchema spec.base
        (some (spec.baseVersion.getD base.head.version)) = .ok columns ∧
      ((fresh config registry).after
          (as ++ [.perform now (.createView w spec)])).store.effectiveSchema w none =
        .ok (columns ++ declaredColumns w spec.columns) ∧
      ((fresh config registry).after
          (as ++ .perform now (.createView w spec) :: bs)).store.effectiveSchema w none =
        .ok (columns ++ declaredColumns w spec.columns) := by
  obtain ⟨hbefore, hallows, hafter⟩ := admits_append.1 ha
  obtain ⟨σ, hc, _, hσ⟩ := (keeps_fresh config registry).after_based Ledgers.based_empty hbefore
  obtain ⟨σ₁, hc₁, hadvance⟩ := hc.act hallows
  have hσ₁ : σ₁.Based := hadvance.based hc hc₁ hσ
  obtain ⟨σ₂, hc₂, hcourse, hσ₂⟩ := hc₁.after_based hσ₁ hafter
  obtain ⟨base, m, hbase, hm, hsnapshot, hown, hread, hread₁⟩ :=
    hadvance.snapshot hok hsnap hc hσ hc₁ hσ₁
  -- the snapshot has one version, which stays readable
  have hcurrent := (hc₁.sound w m hm).exists_current
  have hm₂ : σ₂ w = some m := hcourse.frozen hm hsnapshot
  have hthen := hc₁.effectiveSchema_eq hσ₁ hm none hcurrent
  have hlater := hc₂.effectiveSchema_eq hσ₂ hm₂ none hcurrent
  rw [hcourse.inherited_frozen hσ₁ hc₁.sound hm hsnapshot] at hlater
  rw [Option.getD_none, hown] at hthen hlater
  rw [after_append, after_append]
  exact ⟨base, _, hbase, hread, hread₁, hthen, hlater⟩

/-! ### A snapshot of a view

A snapshot is taken of a view of people. Then a column goes from the table, one
comes to the view and another one is renamed, and the versions that were fixed
are no longer retained. -/

namespace Sample

/-- A snapshot of the view at its current version, with columns of its own. -/
def still : ViewSpec where
  dir := home
  name := "still"
  base := voices
  isSnapshot := true
  columns := [{ name := "rank", type := .int }, { name := "note", type := .string }]

/-- Changes of the table and of the view. -/
def drift : List Action := [
  .perform 4 (.dropColumn people 0 "nick"),
  .perform 5 (.addColumn voices 0 { name := "tone", type := .string }),
  .perform 6 (.renameColumn voices 1 "pitch" "height"),
  .perform 7 (.addColumn frozen 0 { name := "late", type := .int })]

end Sample

theorem Sample.frozenSnapshot_still :
    Sample.start.Admits
        (Sample.viewing ++ .perform 3 (.createView Sample.frozen Sample.still) :: Sample.drift) ∧
      Sample.still.isSnapshot = true ∧
      ∃ o, ((Sample.start.after Sample.viewing).perform 3
          (.createView Sample.frozen Sample.still)).1.result = .ok o ∧
        ∃ base columns,
          (Sample.start.after Sample.viewing).store.table Sample.voices = .ok base ∧
          (Sample.start.after Sample.viewing).store.effectiveSchema Sample.voices
            (some base.head.version) = .ok columns ∧
          (Sample.start.after (Sample.viewing ++
              [.perform 3 (.createView Sample.frozen Sample.still)])).store.effectiveSchema
            Sample.voices (some base.head.version) = .ok columns ∧
          (Sample.start.after (Sample.viewing ++
              [.perform 3 (.createView Sample.frozen Sample.still)])).store.effectiveSchema
            Sample.frozen none =
              .ok (columns ++ declaredColumns Sample.frozen Sample.still.columns) ∧
          (Sample.start.after (Sample.viewing ++
              .perform 3 (.createView Sample.frozen Sample.still) ::
                Sample.drift)).store.effectiveSchema Sample.frozen none =
              .ok (columns ++ declaredColumns Sample.frozen Sample.still.columns) := by
  have ha : Sample.start.Admits
      (Sample.viewing ++ .perform 3 (.createView Sample.frozen Sample.still) :: Sample.drift) := by
    decide +kernel
  have hsome : ((Sample.start.after Sample.viewing).perform 3
      (.createView Sample.frozen Sample.still)).1.result.toOption.isSome = true := by
    decide +kernel
  obtain ⟨o, ho⟩ := Option.isSome_iff_exists.1 hsome
  exact ⟨ha, rfl, o, eq_ok_of_toOption ho, Catalog.frozenSnapshot ha rfl (eq_ok_of_toOption ho)⟩

end Cadastre
