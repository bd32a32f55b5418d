/-
# Which views are unambiguous

All columns that are read through a view have different names after every run
in which nothing clashes (`Catalog.viewNames`). Nothing weaker would do: after
an operation that succeeds and clashes, some view is read with two columns of
one name (`Catalog.repeated_of_clashes`).

Key theorems: `Catalog.repeated_of_clashes`, `Catalog.viewNames`.
-/
import Cadastre.Proofs.NamesApart

namespace Cadastre

/-! ### Clashes show -/

section Repeated

variable {c : Catalog} {σ σ' : Ledgers} {now : Float} {op : Operation} {o : Outcome}

/-- A live view with a column of the given name is found among those over a table. -/
theorem Catalog.Keeps.exists_of_namesInViews (hc : c.Keeps σ) {t : TableId} {name : String}
    (h : c.store.namesInViews t name = true) :
    ∃ w m, σ w = some m ∧ m.head.isSnapshot = false ∧ (t, none) ∈ m.head.chain ∧
      name ∈ (m.columnsAt w m.head.version).map (·.name) := by
  obtain ⟨x, hx, hname⟩ := List.any_eq_true.1 h
  obtain ⟨m, hm, -, hlive, hb⟩ := hc.mem_liveViews_iff.1 hx
  exact ⟨x.id, m, hm, hlive, hb, (hc.hasColumn_iff hm none (hc.sound _ m hm).exists_current).1 hname⟩

/-- After an operation gave a column a name that is in a live view over the
table, the view is read with two columns of that name. -/
theorem Advance.repeated_of_namesInViews (h : Advance c σ (.perform now op) σ') (hc : c.Keeps σ)
    (hchained : σ.Chained) {t : TableId} {name : String} (htable : op.table? = some t)
    (hname : op.columnName? = some name) (hok : (c.perform now op).1.result = .ok o)
    (hclash : c.store.namesInViews t name = true) :
    ∃ w m, σ' w = some m ∧
      ¬ ((σ'.inherited m.head ++ m.columnsAt w m.head.version).map (·.name)).Nodup := by
  obtain ⟨w, m, hm, hlive, hb, hown⟩ := hc.exists_of_namesInViews hclash
  cases h with
  | idle hidle =>
    have hchange := hidle t
    rw [Catalog.change?_of_ok hok htable] at hchange
    cases hchange
  | birth _ _ hbirth => cases hbirth <;> cases hname
  | rows _ _ _ _ hrows => cases hrows <;> cases hname
  | @edit now op u l k d hchange hl _ _ _ hedit =>
    have hu := Catalog.table?_of_change? hchange
    rw [htable, Option.some.injEq] at hu
    subst hu
    have hne := hchained.ne_of_mem_chain hm hlive hb
    refine ⟨w, m, by rw [Ledgers.put_of_ne hne.symm, hm], fun hnodup => ?_⟩
    rw [List.map_append] at hnodup
    refine (List.nodup_append'.1 hnodup).2.2 ?_ hown
    -- the table is read at its new version, which has the name
    have hnew := hedit.columnName_mem hname
    rw [← hedit.names_eq (hc.sound _ l hl) now] at hnew
    exact Ledgers.mem_names_inherited (Ledgers.put_self _ _ _) hb hnew

/-- After a snapshot was taken of a live view that repeats a name of its bases,
the snapshot is read with two columns of that name. -/
theorem Advance.repeated_of_repeatsBase {w : TableId} {spec : ViewSpec}
    (h : Advance c σ (.perform now (.createView w spec)) σ') (hc : c.Keeps σ) (hbased : σ.Based)
    (hok : (c.perform now (.createView w spec)).1.result = .ok o)
    (hsnap : spec.isSnapshot = true)
    (hclash : c.store.repeatsBase spec.base spec.baseVersion = true) :
    ∃ w m, σ' w = some m ∧
      ¬ ((σ'.inherited m.head ++ m.columnsAt w m.head.version).map (·.name)).Nodup := by
  obtain ⟨base, bases, m, hbase, hbases, hnew, rfl, hview, hcolumns⟩ := h.exists_view hok
  have hprovides := hc.based_of_resolveBases hbased (Store.id_of_table hbase ▸ hbase) hbases
  obtain ⟨l, hl, rfl⟩ := hc.store.exists_ledger hbase
  rw [hsnap] at hbases
  obtain ⟨hreadable, hprovided⟩ := hc.columns_of_resolveBases hl hbases
  have hinherited : (σ.put w m).inherited m.head = bases.reverse.flatMap σ.columns :=
    Ledgers.inherited_of_new (TableHead.chain_of_view hview) hprovides hnew m
  refine ⟨w, m, Ledgers.put_self _ _ _, fun hnodup => ?_⟩
  rw [hinherited, hprovided, List.map_append, List.map_append] at hnodup
  have hdisjoint := (List.nodup_append'.1 (List.nodup_append'.1 hnodup).1).2.2
  -- the name that is repeated
  have hread := hc.inheritedColumns_eq fun b hb => hbased.provides hl hb
  rw [Store.repeatsBase, hc.store.head _ l hl] at hclash
  simp only [hread, Bool.and_eq_true] at hclash
  obtain ⟨e, he, hhas⟩ := List.any_eq_true.1 hclash.2
  exact hdisjoint (List.mem_map_of_mem he) ((hc.hasColumn_iff hl _ hreadable).1 hhas)

end Repeated

/-- After an operation that succeeds and clashes, some view is read with two
columns of one name. -/
theorem Catalog.repeated_of_clashes {config : Config} {registry : Registry} {as : List Action}
    {now : Float} {op : Operation} {o : Outcome}
    (ha : (fresh config registry).Admits (as ++ [.perform now op]))
    (hok : (((fresh config registry).after as).perform now op).1.result = .ok o)
    (hclash : op.clashes ((fresh config registry).after as).store = true) :
    ∃ w columns, ((fresh config registry).after
        (as ++ [.perform now op])).store.effectiveSchema w none = .ok columns ∧
      ¬ (columns.map fun e => e.column.name).Nodup := by
  obtain ⟨hbefore, hallows, _⟩ := admits_append.1 ha
  obtain ⟨σ, hc, hcourse, hσ⟩ :=
    (keeps_fresh config registry).after_based Ledgers.based_empty hbefore
  obtain ⟨σ', hc', hadvance⟩ := hc.act hallows
  have hchained : σ.Chained := hcourse.chained Ledgers.chained_empty
  have hrepeated : ∃ w m, σ' w = some m ∧
      ¬ ((σ'.inherited m.head ++ m.columnsAt w m.head.version).map (·.name)).Nodup := by
    cases op with
    | addColumn t v column =>
      exact hadvance.repeated_of_namesInViews hc hchained rfl rfl hok hclash
    | renameColumn t v source target =>
      exact hadvance.repeated_of_namesInViews hc hchained rfl rfl hok hclash
    | createView w spec =>
      rw [Operation.clashes, Bool.and_eq_true] at hclash
      exact hadvance.repeated_of_repeatsBase hc hσ hok hclash.1 hclash.2
    | _ => cases hclash
  obtain ⟨w, m, hm, hnodup⟩ := hrepeated
  have hread := hc'.effectiveSchema_eq (hadvance.based hc hc' hσ) hm none
    (hc'.sound w m hm).exists_current
  rw [after_append]
  exact ⟨w, _, hread, hnodup⟩

/-! ### Runs -/

/-- After a run in which nothing clashes, all columns that are read through a
table or view have different names. -/
theorem Catalog.viewNames {config : Config} {registry : Registry} {as : List Action}
    (ha : (fresh config registry).Admits as) (hfree : (fresh config registry).ClashFree as)
    {w : TableId} {x : Table} (hx : ((fresh config registry).after as).store.table w = .ok x) :
    ∃ columns, ((fresh config registry).after as).store.effectiveSchema w none = .ok columns ∧
      (columns.map fun e => e.column.name).Nodup := by
  obtain ⟨σ, hc, hbased, hchained, hσ⟩ := (keeps_fresh config registry).after_apart
    Ledgers.based_empty Ledgers.chained_empty Ledgers.apart_empty ha hfree
  obtain ⟨l, hl, rfl⟩ := hc.store.exists_ledger hx
  have hread := hc.effectiveSchema_eq hbased hl none (hc.sound w l hl).exists_current
  exact ⟨_, hread, hσ.nodup_at hchained hc.sound hl (Nat.le_refl _) (hσ.live w l hl)⟩

namespace Sample

/-- A live view renames its column, and the table gets one under the old name.
The name is free in the view by now, so that does not clash. -/
def handover : List Action := creation ++ [
  .perform 2 (.createView voices {
    dir := home
    name := "voices"
    base := people
    columns := [{ name := "pitch", type := .float }] }),
  .perform 3 (.renameColumn voices 0 "pitch" "height"),
  .perform 4 (.addColumn people 0 { name := "pitch", type := .int })]

/-- A snapshot is taken of the view as it was first, and the table gets a column
under the name that the view has now. -/
def collision : List Action := [
  .perform 5 (.createView frozen {
    dir := home
    name := "frozen"
    base := voices
    isSnapshot := true
    baseVersion := some 0 }),
  .perform 6 (.addColumn people 1 { name := "height", type := .int })]

end Sample

/-- A live view, and a snapshot of it, that are read with two columns of one name. -/
theorem Sample.clash_voices :
    Sample.start.Admits (Sample.handover ++ Sample.collision) ∧
      (∃ columns, (Sample.start.after
          (Sample.handover ++ Sample.collision)).store.effectiveSchema Sample.voices none =
            .ok columns ∧ ¬ (columns.map fun e => e.column.name).Nodup) ∧
      ∃ columns, (Sample.start.after
          (Sample.handover ++ Sample.collision)).store.effectiveSchema Sample.frozen none =
            .ok columns ∧ ¬ (columns.map fun e => e.column.name).Nodup := by
  have ha : Sample.start.Admits (Sample.handover ++ Sample.collision) := by decide +kernel
  have hread : ∀ t names, ((Sample.start.after
      (Sample.handover ++ Sample.collision)).store.effectiveSchema t none).toOption.map
        (·.map fun e => e.column.name) = some names → ∃ columns, (Sample.start.after
          (Sample.handover ++ Sample.collision)).store.effectiveSchema t none = .ok columns ∧
            columns.map (fun e => e.column.name) = names := by
    intro t names h
    obtain ⟨columns, hcolumns, hnames⟩ := Option.map_eq_some_iff.1 h
    exact ⟨columns, eq_ok_of_toOption hcolumns, hnames⟩
  obtain ⟨live, hlive, hnames⟩ := hread Sample.voices ["id", "nick", "pitch", "height", "height"]
    (by decide +kernel)
  obtain ⟨still, hstill, hnames'⟩ := hread Sample.frozen ["id", "nick", "pitch", "pitch"]
    (by decide +kernel)
  refine ⟨ha, ⟨live, hlive, ?_⟩, still, hstill, ?_⟩
  · rw [hnames]
    decide
  · rw [hnames']
    decide

theorem Sample.viewNames_voices :
    Sample.start.Admits Sample.handover ∧ Sample.start.ClashFree Sample.handover ∧
      ∃ x, (Sample.start.after Sample.handover).store.table Sample.voices = .ok x ∧
        ∃ columns, (Sample.start.after Sample.handover).store.effectiveSchema Sample.voices none =
            .ok columns ∧ (columns.map fun e => e.column.name).Nodup := by
  have ha : Sample.start.Admits Sample.handover := by decide +kernel
  have hfree : Sample.start.ClashFree Sample.handover := by decide +kernel
  have hsome : ((Sample.start.after Sample.handover).store.table
      Sample.voices).toOption.isSome = true := by decide +kernel
  obtain ⟨x, hx⟩ := Option.isSome_iff_exists.1 hsome
  have hx := eq_ok_of_toOption hx
  exact ⟨ha, hfree, x, hx, Catalog.viewNames ha hfree hx⟩

end Cadastre
