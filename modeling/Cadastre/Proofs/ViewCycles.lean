/-
# Which views are without cycles

The columns that are read through a view are acyclic after every run in which
nothing tangles (`Catalog.acyclicViews`). Nothing weaker would do: after an
operation that succeeds and tangles, some view is read with a column that refers
to its own name (`Catalog.cyclic_of_tangles`).

Key theorems: `Catalog.cyclic_of_tangles`, `Catalog.acyclicViews`.
-/
import Cadastre.Proofs.Tangles

namespace Cadastre

/-! ### The references that stay -/

namespace Edit

variable {c : Catalog} {t : TableId} {d d' : Draft} {op : Operation} {n b : String}

/-- The column that gets a name by an edit refers to what is new by it. -/
theorem refersTo_of_mem_newRefs (he : Edit c t d op d') (hs : d.schema.Sound)
    (hname : op.columnName? = some n) (hb : b ∈ op.newRefs d.schema.specs) :
    ColumnSpec.RefersTo d'.schema.specs n b := by
  have hinsert : ∀ (id : ColumnId) (column : Column),
      (d.schema.columns.insert id column).get? id = some column := fun id column => by
    rw [SortedMap.get?_insert, if_pos rfl]
  cases he with
  | add =>
    cases hname
    exact ⟨_, Schema.mem_specs_iff.2 ⟨_, _, hinsert _ _, rfl⟩, rfl, hb⟩
  | rename _ hfind =>
    cases hname
    exact ⟨_, Schema.mem_specs_iff.2 ⟨_, _, hinsert _ _, rfl⟩, rfl,
      (mem_newRefs_rename hs hfind).1 hb⟩
  | alter => cases hname
  | drop => cases hname
  | retain => cases hname

/-- A reference stays when a column gets a name, or it is one of the column. -/
theorem refersTo_or_mem_newRefs {a : String} {old : List Schema} (he : Edit c t d op d')
    (hd : d.Continues old) (hs : d.schema.Sound) (hname : op.columnName? = some n)
    (hr : ColumnSpec.RefersTo d.schema.specs a b) :
    ColumnSpec.RefersTo d'.schema.specs a b ∨ b ∈ op.newRefs d.schema.specs := by
  obtain ⟨s, hmem, rfl, hb⟩ := hr
  obtain ⟨id, column, hget, rfl⟩ := Schema.mem_specs_iff.1 hmem
  have hstay : ∀ {j : ColumnId} {k : Column}, id ≠ j →
      (d.schema.columns.insert j k).get? id = some column := fun hne => by
    rw [SortedMap.get?_insert, if_neg hne, hget]
  cases he with
  | add =>
    have hold : id < d.head.nextColumn := hd.lt_nextColumn ((SortedMap.mem_keys_iff _).2 ⟨_, hget⟩)
    exact .inl ⟨_, Schema.mem_specs_iff.2 ⟨id, column, hstay (Nat.ne_of_lt hold), rfl⟩, rfl, hb⟩
  | @rename _ _ _ id' _ _ _ hfind =>
    by_cases hid : id = id'
    · subst hid
      rw [Schema.get?_of_find? hfind, Option.some.injEq] at hget
      subst hget
      exact .inr ((mem_newRefs_rename hs hfind).2 hb)
    · exact .inl ⟨_, Schema.mem_specs_iff.2 ⟨id, column, hstay hid, rfl⟩, rfl, hb⟩
  | alter => cases hname
  | drop => cases hname
  | retain => cases hname

end Edit

namespace Ledgers

variable {σ : Ledgers} {t : TableId} {l l' : Ledger}

/-- Through every reader of a table that changed, the references of the table are
those it has now, and all others are as before. -/
theorem refersTo_of_reads (hbased : σ.Based) (hchained : σ.Chained)
    (hs : ∀ t l, σ t = some l → l.Sound) (hl : σ t = some l) (hlive : l.head.isSnapshot = false)
    (hext : l.Extends l') {w : TableId} {m : Ledger} (hm : σ w = some m) (hreads : m.Reads w t) :
    ∃ m', σ.put t l' w = some m' ∧
      (∀ a b, ColumnSpec.RefersTo (l'.specs t) a b →
        ColumnSpec.RefersTo ((σ.put t l').specs w m') a b) ∧
      ∀ a b, ColumnSpec.RefersTo (σ.specs w m) a b →
        ColumnSpec.RefersTo ((σ.put t l').specs w m') a b ∨
          ColumnSpec.RefersTo (l.specs t) a b := by
  have hchain : l'.head.chain = l.head.chain := by
    rw [TableHead.chain, hext.view, TableHead.chain]
  by_cases hw : w = t
  · subst hw
    obtain rfl : l = m := Option.some.inj (hl.symm.trans hm)
    refine ⟨l', put_self _ _ _, fun a b hr => refersTo_specs_iff.2 (.inr hr), fun a b hr => ?_⟩
    apply (refersTo_specs_iff.1 hr).imp_left
    rintro ⟨base, hb, hr⟩
    have hsame := (columns_put_cases hbased hchained hs hl hlive hext hl hb).resolve_right
      fun h => h.2.1 rfl
    exact refersTo_specs_iff.2 (.inl ⟨base, hchain ▸ hb, hsame ▸ hr⟩)
  · obtain ⟨-, hb⟩ := hreads.resolve_left hw
    refine ⟨m, by rw [put_of_ne hw, hm], fun a b hr => ?_, fun a b hr => ?_⟩
    · refine refersTo_specs_iff.2 (.inl ⟨_, hb, ?_⟩)
      rw [columns_of_ledger (put_self _ _ _)]
      exact hr
    · rcases refersTo_specs_iff.1 hr with ⟨base, hb, hr⟩ | hr
      · rcases columns_put_cases hbased hchained hs hl hlive hext hm hb with hsame | ⟨rfl, -⟩
        · exact .inl (refersTo_specs_iff.2 (.inl ⟨base, hb, hsame ▸ hr⟩))
        · rw [columns_of_ledger hl] at hr
          exact .inr hr
      · exact .inl (refersTo_specs_iff.2 (.inr hr))

end Ledgers

/-! ### Tangles show -/

section Cyclic

variable {c : Catalog} {σ σ' : Ledgers} {now : Float} {op : Operation} {o : Outcome}

/-- After an operation gave a column a name to which its references lead, through a
reader of the table, that one is read with a cycle. -/
theorem Advance.cyclic_of_leadsBack (h : Advance c σ (.perform now op) σ') (hc : c.Keeps σ)
    (hbased : σ.Based) (hchained : σ.Chained) {t : TableId} {name : String}
    (htable : op.table? = some t) (hname : op.columnName? = some name)
    (hok : (c.perform now op).1.result = .ok o)
    (hleads : ∀ l, σ t = some l →
      c.store.leadsBack t (op.newRefs (l.specs t)) name = true) :
    ∃ w m, σ' w = some m ∧ ¬ ColumnSpec.Acyclic (σ'.specs w m) := by
  have hextends := h.extends hc
  cases h with
  | idle hidle =>
    have hchange := hidle t
    rw [Catalog.change?_of_ok hok htable] at hchange
    cases hchange
  | birth _ _ hbirth => cases hbirth <;> cases hname
  | rows _ _ _ _ hrows => cases hrows <;> cases hname
  | @edit now op u l k d hchange hl hlive _ hschema hedit =>
    obtain rfl : t = u := Option.some.inj (htable.symm.trans (Catalog.table?_of_change? hchange))
    obtain ⟨l', hl', hext⟩ := hextends t l hl
    obtain rfl := Option.some.inj ((Ledgers.put_self _ _ _).symm.trans hl')
    have hs := hc.sound t l hl
    obtain ⟨hbefore, hafter⟩ := hedit.specs_eq hs hschema now
    obtain ⟨w, m, hm, hreads, hleads⟩ := (hc.leadsBack_iff hbased hl).1 (hleads l hl)
    obtain ⟨m', hm', hown, hold⟩ :=
      Ledgers.refersTo_of_reads hbased hchained hc.sound hl hlive hext hm hreads
    refine ⟨w, m', hm', ColumnSpec.not_acyclic_of_leads (fun b hb => ?_) (fun a b hab => ?_) hleads⟩
    · refine hown name b ?_
      rw [hafter]
      exact hedit.refersTo_of_mem_newRefs (hs.nextDraft hschema) hname (hbefore ▸ hb)
    · rcases hold a b hab with hstay | hr
      · exact .inl hstay
      · rw [hbefore] at hr ⊢
        refine (hedit.refersTo_or_mem_newRefs (hs.chronicle.next hschema) (hs.nextDraft hschema)
          hname hr).imp_left fun hr => hown a b ?_
        rw [hafter]
        exact hr

/-- A view that tangles when it is created is read with a cycle. -/
theorem Advance.cyclic_of_tanglesOver {w : TableId} {spec : ViewSpec}
    (h : Advance c σ (.perform now (.createView w spec)) σ') (hc : c.Keeps σ) (hbased : σ.Based)
    (hok : (c.perform now (.createView w spec)).1.result = .ok o)
    (htangles : c.store.tanglesOver spec.base spec.baseVersion spec.columns = true) :
    ∃ w m, σ' w = some m ∧ ¬ ColumnSpec.Acyclic (σ'.specs w m) := by
  obtain ⟨base, bases, m, hbase, hbases, hnew, rfl, hview, hcolumns⟩ := h.exists_view hok
  have hprovides := hc.based_of_resolveBases hbased (Store.id_of_table hbase ▸ hbase) hbases
  obtain ⟨l, hl, rfl⟩ := hc.store.exists_ledger hbase
  obtain ⟨hreadable, hprovided⟩ := hc.columns_of_bases hl hbases
  have hinherited : (σ.put w m).inherited m.head = bases.reverse.flatMap σ.columns :=
    Ledgers.inherited_of_new (TableHead.chain_of_view hview) hprovides hnew m
  rw [hc.tanglesOver_eq hbased hl hreadable] at htangles
  refine ⟨w, m, Ledgers.put_self _ _ _, fun hac => ?_⟩
  rw [Ledgers.specs, hinherited, hprovided, Ledger.specs, hcolumns, specs_declaredColumns,
    List.map_append, List.append_assoc] at hac
  -- the columns that the base inherits are acyclic as well
  have hbase := hac.of_subset fun _ hs => List.mem_append_left _ hs
  rw [(ColumnSpec.acyclic_append_iff hbase).1 hac] at htangles
  cases htangles

end Cyclic

/-- After an operation that succeeds and tangles, some table or view is read with a
column that refers to its own name, directly or through others. -/
theorem Catalog.cyclic_of_tangles {config : Config} {registry : Registry} {as : List Action}
    {now : Float} {op : Operation} {o : Outcome}
    (ha : (fresh config registry).Admits (as ++ [.perform now op]))
    (hok : (((fresh config registry).after as).perform now op).1.result = .ok o)
    (htangles : op.tangles ((fresh config registry).after as).store = true) :
    ∃ w columns, ((fresh config registry).after
        (as ++ [.perform now op])).store.effectiveSchema w none = .ok columns ∧
      ¬ ColumnSpec.Acyclic (columns.map (·.spec)) := by
  obtain ⟨hbefore, hallows, _⟩ := admits_append.1 ha
  obtain ⟨σ, hc, hcourse, hσ⟩ :=
    (keeps_fresh config registry).after_based Ledgers.based_empty hbefore
  obtain ⟨σ', hc', hadvance⟩ := hc.act hallows
  have hchained : σ.Chained := hcourse.chained Ledgers.chained_empty
  have hcyclic : ∃ w m, σ' w = some m ∧ ¬ ColumnSpec.Acyclic (σ'.specs w m) := by
    cases op with
    | addColumn t v column =>
      exact hadvance.cyclic_of_leadsBack hc hσ hchained rfl rfl hok fun _ _ => htangles
    | renameColumn t v source target =>
      refine hadvance.cyclic_of_leadsBack hc hσ hchained rfl rfl hok fun l hl => ?_
      rw [Operation.newRefs, ← hc.refsOf_eq hl]
      exact htangles
    | createView w spec => exact hadvance.cyclic_of_tanglesOver hc hσ hok htangles
    | _ => cases htangles
  obtain ⟨w, m, hm, hac⟩ := hcyclic
  obtain ⟨columns, hread, hspecs⟩ := hc'.effectiveSpecs_eq (hadvance.based hc hc' hσ) hm
  rw [after_append]
  exact ⟨w, columns, hread, hspecs ▸ hac⟩

/-! ### Runs -/

/-- After a run in which nothing tangles, no column that is read through a table or
view refers to its own name, be it directly or through other such columns. -/
theorem Catalog.acyclicViews {config : Config} {registry : Registry} {as : List Action}
    (ha : (fresh config registry).Admits as) (hfree : (fresh config registry).TangleFree as)
    {w : TableId} {x : Table} (hx : ((fresh config registry).after as).store.table w = .ok x) :
    ∃ columns, ((fresh config registry).after as).store.effectiveSchema w none = .ok columns ∧
      ColumnSpec.Acyclic (columns.map (·.spec)) := by
  obtain ⟨σ, hc, hbased, hchained, hσ⟩ := (keeps_fresh config registry).after_untangled
    Ledgers.based_empty Ledgers.chained_empty Ledgers.untangled_empty ha hfree
  obtain ⟨l, hl, rfl⟩ := hc.store.exists_ledger hx
  obtain ⟨columns, hread, hspecs⟩ := hc.effectiveSpecs_eq hbased hl
  exact ⟨columns, hread, hspecs ▸ hσ w l hl⟩

namespace Sample

def choirs : TableId := .ofNat 5

/-- A string column that is computed from another one. -/
def copied (name source : String) : ColumnSpec where
  name := name
  type := .string
  computed := some (.expr (.column source .string))

/-- Two live views, one over the other, keep references to columns that are dropped:
a view to one of the table, and the view over it to one of the first. -/
def weaving : List Action := creation ++ [
  .perform 2 (.createView voices { dir := home, name := "voices", base := people }),
  .perform 3 (.createView choirs { dir := home, name := "choirs", base := voices }),
  .perform 4 (.addColumn voices 0 (copied "alias" "nick")),
  .perform 5 (.dropColumn people 0 "nick"),
  .perform 6 (.addColumn voices 1 { name := "title", type := .string }),
  .perform 7 (.addColumn choirs 0 (copied "nick" "title")),
  .perform 8 (.dropColumn voices 2 "title")]

/-- The first view gets the column that the second one refers to. -/
def knot : List Action := [.perform 9 (.addColumn voices 3 (copied "title" "alias"))]

end Sample

/-- A live view over a live view that is read with three columns of different names,
each of which refers to the next. -/
theorem Sample.cycle_choirs :
    Sample.start.Admits (Sample.weaving ++ Sample.knot) ∧
      ∃ columns, (Sample.start.after
          (Sample.weaving ++ Sample.knot)).store.effectiveSchema Sample.choirs none =
            .ok columns ∧
        columns.map (·.spec.name) = ["id", "alias", "title", "nick"] ∧
        ¬ ColumnSpec.Acyclic (columns.map (·.spec)) := by
  have ha : Sample.start.Admits (Sample.weaving ++ Sample.knot) := by decide +kernel
  have hread : ((Sample.start.after
      (Sample.weaving ++ Sample.knot)).store.effectiveSchema Sample.choirs none).toOption.map
        (fun columns => (columns.map (·.spec.name),
          decide (ColumnSpec.Acyclic (columns.map (·.spec))))) =
            some (["id", "alias", "title", "nick"], false) := by decide +kernel
  obtain ⟨columns, hcolumns, hfound⟩ := Option.map_eq_some_iff.1 hread
  rw [Prod.mk.injEq] at hfound
  exact ⟨ha, columns, eq_ok_of_toOption hcolumns, hfound.1, of_decide_eq_false hfound.2⟩

theorem Sample.acyclicViews_choirs :
    Sample.start.Admits Sample.weaving ∧ Sample.start.TangleFree Sample.weaving ∧
      ∃ x, (Sample.start.after Sample.weaving).store.table Sample.choirs = .ok x ∧
        ∃ columns, (Sample.start.after Sample.weaving).store.effectiveSchema Sample.choirs none =
            .ok columns ∧ ColumnSpec.Acyclic (columns.map (·.spec)) := by
  have ha : Sample.start.Admits Sample.weaving := by decide +kernel
  have hfree : Sample.start.TangleFree Sample.weaving := by decide +kernel
  have hsome : ((Sample.start.after Sample.weaving).store.table
      Sample.choirs).toOption.isSome = true := by decide +kernel
  obtain ⟨x, hx⟩ := Option.isSome_iff_exists.1 hsome
  have hx := eq_ok_of_toOption hx
  exact ⟨ha, hfree, x, hx, Catalog.acyclicViews ha hfree hx⟩

end Cadastre
