/-
# Computed columns of tables stay well-formed

A column is checked once, when it is added. Yet in every store that a run
reaches, each column of each schema version of a plain table passes that check
against the columns at smaller positions, and no two columns have one name
(`Catalog.computedColumns`). So the references of computed columns lead to
earlier columns only, and their calls fit the functions that they name, as long
as no stored function that columns call is stored again with other signatures.

Key definitions: `Schema.visibleBefore`, `Schema.Checked`, `Ledgers.Layered`.
Key theorems: `Schema.checked_of_layered`, `Advance.layered`,
`Catalog.Keeps.after_layered`, `Catalog.computedColumns`.
-/
import Cadastre.Proofs.CalledFunctions
import Cadastre.Proofs.EffectiveSchema
import Cadastre.Proofs.Layers
import Cadastre.Proofs.VersionChain

namespace Cadastre

/-! ### Schema versions that pass the check -/

namespace Schema

/-- The columns at positions before the given one, as value expressions see them. -/
def visibleBefore (k : Schema) (pos : Nat) : List VisibleColumn :=
  (k.ordered.filter fun e => e.2.pos < pos).map fun e => ⟨e.2.name, e.2.type⟩

/-- The columns of a schema version pass the check of columns, and what that
says of them. -/
structure Checked (k : Schema) (c : Catalog) : Prop where
  names : k.columnNames.Nodup
  check : ∀ id column, k.columns.get? id = some column →
    c.checkColumn column.spec (k.visibleBefore column.pos) = .ok ()
  named : ∀ id column, k.columns.get? id = some column → isIdentifier column.name = true
  key : ∀ id column, k.columns.get? id = some column → column.isKey = true →
    column.computed = none
  indexed : ∀ id column, k.columns.get? id = some column → column.indexed = true →
    column.type = .string ∨ column.type.isImage = true
  /-- A value refers to columns at smaller positions, with types that convert to
  the stated ones. -/
  reference : ∀ id column e, k.columns.get? id = some column → column.computed = some (.expr e) →
    ∀ name type, (Expr.column name type).Within e → ∃ j d, k.columns.get? j = some d ∧
      d.name = name ∧ d.pos < column.pos ∧
        (d.type = type ∨ (d.type.conversionTo? type).isSome = true)
  /-- Every call in a value passes the check of calls. -/
  call : ∀ id column e, k.columns.get? id = some column → column.computed = some (.expr e) →
    ∀ f overload args type, (Expr.call f overload args type).Within e →
      c.checkCall f overload (args.map Expr.type) type = .ok ()

variable {k : Schema}

/-- The columns of a dense schema version stand at the positions of the list. -/
theorem Dense.getElem?_specs (hd : k.Dense) {id : ColumnId} {column : Column}
    (h : k.columns.get? id = some column) : k.specs[column.pos]? = some column.spec := by
  have hmem : (id, column) ∈ placed k.listed := hd ▸ mem_ordered_iff.2 h
  obtain ⟨i, hi, he⟩ := List.mem_iff_getElem.1 hmem
  have hlt : i < k.listed.length := by simpa [placed] using hi
  have hplace : (placed k.listed)[i] = (k.listed[i].1, k.listed[i].2.place i) := by simp [placed]
  rw [hplace, Prod.mk.injEq] at he
  rw [← he.2, ColumnSpec.pos_place, ColumnSpec.spec_place, specs, List.getElem?_map,
    List.getElem?_eq_getElem hlt]
  rfl

/-- The columns before a position are the first ones of the list. -/
theorem Dense.visibleBefore_eq (hd : k.Dense) (pos : Nat) :
    k.visibleBefore pos = (k.specs.take pos).map ColumnSpec.seen := by
  have htake : ∀ e ∈ (placed k.listed).take pos, decide (e.2.pos < pos) = true := by
    intro e he
    obtain ⟨i, hi, rfl⟩ := List.mem_take_iff_getElem.1 he
    have hlt : i < pos := by omega
    simpa [placed] using hlt
  have hdrop : ∀ e ∈ (placed k.listed).drop pos, ¬ decide (e.2.pos < pos) = true := by
    intro e he
    obtain ⟨i, hi, rfl⟩ := List.mem_drop_iff_getElem.1 he
    simp [placed]
  have hfilter : k.ordered.filter (fun e => decide (e.2.pos < pos)) =
      (placed k.listed).take pos := by
    rw [show k.ordered = placed k.listed from hd, ← List.take_append_drop pos (placed k.listed),
      List.filter_append, List.filter_eq_self.2 htake, List.filter_eq_nil_iff.2 hdrop,
      List.append_nil, List.take_append_drop]
  have hspecs : (placed k.listed).map (fun e => e.2.spec) = k.specs := by
    rw [specs, ← hd, listed, List.map_map]
    rfl
  rw [visibleBefore, hfilter, ← hspecs, ← List.map_take, List.map_map]
  rfl

/-- Layered columns at the positions of their list pass the check. -/
theorem checked_of_layered {c : Catalog} (hs : k.Sound) (hd : k.Dense) (h : c.Layered k.specs) :
    k.Checked c := by
  have hvalid : ∀ id column, k.columns.get? id = some column →
      column.spec.Valid c (k.visibleBefore column.pos) := by
    intro id column hget
    rw [hd.visibleBefore_eq]
    exact h.valid (hd.getElem?_specs hget)
  constructor
  · exact hs.nodup_columnNames
  · exact fun id column hget => Catalog.checkColumn_eq_ok_iff.2 (hvalid id column hget)
  · exact fun id column hget => (hvalid id column hget).named
  · exact fun id column hget => (hvalid id column hget).key
  · intro id column hget hindexed
    have hindexable := (hvalid id column hget).indexed hindexed
    rw [ColumnType.isIndexable, Bool.or_eq_true, beq_iff_eq] at hindexable
    exact hindexable.symm
  · intro id column e hget he name type hwithin
    cases ((hvalid id column hget).value e he).1.within hwithin with
    | column hfind htype =>
      have hname := List.find?_some hfind
      obtain ⟨⟨j, d⟩, hmem, rfl⟩ := List.mem_map.1 (List.mem_of_find?_eq_some hfind)
      obtain ⟨hmem, hpos⟩ := List.mem_filter.1 hmem
      exact ⟨j, d, mem_ordered_iff.1 hmem, eq_of_beq hname, of_decide_eq_true hpos, htype⟩
  · intro id column e hget he f overload args type hwithin
    cases ((hvalid id column hget).value e he).1.within hwithin with
    | call _ hcall => exact hcall

end Schema

/-! ### Steps -/

/-- The columns of every plain table are layered in each of its schema versions,
at the positions of their list. -/
def Ledgers.Layered (σ : Ledgers) (c : Catalog) : Prop :=
  ∀ t l, σ t = some l → l.head.view = none → ∀ k ∈ l.schemas, k.Dense ∧ c.Layered k.specs

theorem Ledgers.layered_empty (c : Catalog) : Ledgers.Layered (fun _ => none) c := nofun

section Steps

variable {c : Catalog} {σ σ' : Ledgers} {a : Action}

/-- The columns of a new plain table are layered. -/
theorem Birth.layered {op : Operation} {t : TableId} {dir : Option DirId} {d : Draft}
    (hb : Birth c op t dir d) (hview : d.head.view = none) :
    d.schema.Dense ∧ c.Layered d.schema.specs := by
  obtain ⟨r, hr, hdense, hlists⟩ := hb.lists
  refine ⟨hdense, ?_⟩
  rw [hb.specs_eq]
  cases hb with
  | @table _ spec _ start _ _ _ hgrow =>
    have hlayered : c.Layered ([] ++ spec.columns) := hgrow.layered rfl .nil
    exact hlayered
  | view _ _ _ hstart _ hgrow =>
    obtain ⟨n, _, rfl⟩ := newDraft_eq_ok hstart
    obtain ⟨m, history, hhead⟩ := hgrow.head_eq
    rw [hhead] at hview
    cases hview

/-- What a step adds to the ledgers is layered as well. -/
theorem Advance.layered_schemas (h : Advance c σ a σ') (hc : c.Keeps σ) (hσ : σ.Layered c) :
    σ'.Layered c := by
  cases h with
  | idle => exact hσ
  | @birth now op u dir d hchange hnew hbirth =>
    intro t l hl hview k hk
    rcases Ledgers.put_cases hl with ⟨rfl, rfl⟩ | ⟨_, hl⟩
    · obtain rfl : k = d.schema := by simpa [Ledger.push, Ledger.blank] using hk
      exact hbirth.layered (Option.map_eq_none_iff.1 hview)
    · exact hσ t l hl hview k hk
  | @edit now op u m k d hchange hm hlive hexpected hschema hedit =>
    intro t l hl hview k' hk'
    rcases Ledgers.put_cases hl with ⟨rfl, rfl⟩ | ⟨_, hl⟩
    · obtain ⟨n, history, hhead⟩ := hedit.head_eq
      have hview : m.head.view = none := by
        have hview : d.head.view = none := Option.map_eq_none_iff.1 hview
        rw [hhead] at hview
        exact hview
      rcases List.mem_append.1 hk' with hk' | hk'
      · exact hσ t m hm hview k' hk'
      · rw [Option.toList_some, List.mem_singleton] at hk'
        have hsound := hc.sound t m hm
        obtain ⟨hdense, hlayered⟩ := hσ t m hm hview k (List.mem_of_getElem? hschema)
        rw [hk', Schema.specs_compact]
        exact ⟨d.schema.dense_compact, hedit.layered (hsound.chronicle.next hschema)
          (hsound.nextDraft hschema) hdense hview hlayered⟩
    · exact hσ t l hl hview k' hk'
  | @rows now op u m h hchange hm hlive hexpected hrows =>
    intro t l hl hview k hk
    rcases Ledgers.put_cases hl with ⟨rfl, rfl⟩ | ⟨_, hl⟩
    · obtain ⟨n, rfl⟩ := hrows.head_eq
      have hk : k ∈ m.schemas := by simpa [Ledger.push] using hk
      exact hσ t m hm (Option.map_eq_none_iff.1 hview) k hk
    · exact hσ t l hl hview k hk

/-- Storing a function leaves the ledgers as they are. -/
theorem Advance.eq_of_stored (h : Advance c σ a σ') {id : FunctionId}
    (ha : a.stored? = some id) : σ' = σ := by
  -- a step that changes a table is none that stores a function
  have hop : ∀ {now op t}, c.change? t (.perform now op) = some op →
      (Action.perform now op).stored? = some id → False := by
    intro now op t hchange hstored
    have htable := Catalog.table?_of_change? hchange
    cases op with
    | storeFunction => cases htable
    | _ => cases hstored
  cases h with
  | idle => rfl
  | birth hchange => exact (hop hchange ha).elim
  | edit hchange => exact (hop hchange ha).elim
  | rows hchange => exact (hop hchange ha).elim

/-- A step keeps the columns of plain tables layered, if the functions that they
call keep their signatures. -/
theorem Advance.layered (h : Advance c σ a σ') (hc : c.Keeps σ) (hcalled : c.KeepsSignatures a)
    (hσ : σ.Layered c) : σ'.Layered (c.act a) := by
  intro t l hl hview k hk
  obtain ⟨hdense, hlayered⟩ := h.layered_schemas hc hσ t l hl hview k hk
  refine ⟨hdense, hlayered.congr fun s hs f hf signatures hsignatures => ?_⟩
  refine hc.signaturesOf_act hsignatures fun id hid hstored => ?_
  subst hid
  obtain rfl := h.eq_of_stored hstored
  obtain ⟨v, hv⟩ := List.mem_iff_getElem?.1 hk
  obtain ⟨i, column, hget, rfl⟩ := Schema.mem_specs_iff.1 hs
  have hcalls : c.store.Calls id := ⟨t, v, k, i, column, hc.store.schema t l v k hl hv, hget, hf⟩
  exact hcalled id hstored hcalls signatures hsignatures

end Steps

/-! ### Runs -/

/-- A run keeps the columns of plain tables layered, if the functions that they
call keep their signatures. -/
theorem Catalog.Keeps.after_layered {c : Catalog} {σ : Ledgers} (hc : c.Keeps σ)
    (hσ : σ.Layered c) {as : List Action} (ha : c.Admits as) (hcalled : c.KeepsCalled as) :
    ∃ σ', (c.after as).Keeps σ' ∧ σ'.Layered (c.after as) := by
  induction as generalizing c σ with
  | nil => exact ⟨σ, hc, hσ⟩
  | cons a as ih =>
    obtain ⟨σ', hc', hadvance⟩ := hc.act ha.1
    exact ih hc' (hadvance.layered hc hcalled.1 hσ) ha.2 hcalled.2

/-- After every run, each schema version of a plain table is read, and its
columns pass the check of columns, if no stored function that columns call was
stored again with other signatures. -/
theorem Catalog.computedColumns {config : Config} {registry : Registry} {as : List Action}
    (ha : (fresh config registry).Admits as) (hcalled : (fresh config registry).KeepsCalled as)
    {t : TableId} {x : Table} (hx : ((fresh config registry).after as).store.table t = .ok x)
    (hview : x.head.view = none) {v : SchemaVersion}
    (hv : (((fresh config registry).after as).store.get? (.schemaVersion t v)).isSome = true) :
    ∃ k, ((fresh config registry).after as).store.schema t v = .ok k ∧
      k.Checked ((fresh config registry).after as) := by
  obtain ⟨σ, hc, hσ⟩ :=
    (keeps_fresh config registry).after_layered (Ledgers.layered_empty _) ha hcalled
  obtain ⟨l, hl, rfl⟩ := hc.store.exists_ledger hx
  have hs := hc.sound t l hl
  obtain ⟨k, hk⟩ := hs.exists_schema (((hc.chain hl).schema_iff v).1 hv)
  have hmem := List.mem_of_getElem? hk
  obtain ⟨hdense, hlayered⟩ := hσ t l hl hview k hmem
  exact ⟨k, hc.store.schema t l v k hl hk,
    Schema.checked_of_layered (hs.schemas k hmem).1 hdense hlayered⟩

namespace Sample

def text : Parameter := ⟨"text", .string, none, false⟩

/-- A template that is stored under its identifier. -/
def shout : BoundFunction where
  id := .ofNat 8
  name := "shout"
  path := none
  signatures := [⟨[text], .string, false⟩]
  implementation := .templates [⟨⟨[text], .string, false⟩, .var "text" .string⟩]
  batchSize := none
  isMethod := false
  isProperty := false
  pool := none

/-- A callable that is registered under its path. -/
def measure : BoundFunction where
  id := .ofNat 9
  name := "measure"
  path := some "text.measure"
  signatures := [⟨[text], .int, false⟩]
  implementation := .callables [.scalar 0 fun _ => .ok (.int 0)]
  batchSize := none
  isMethod := false
  isProperty := false
  pool := none

/-- The table is created, and the callable is registered. -/
def provision : List Action := creation ++ [.register measure]

/-- The template is stored. -/
def storing (now : Float) : Action := .perform now (.storeFunction none shout)

/-- A computed column calls the template, a second one calls the callable on the
first. -/
def derivation : List Action := [
  .perform 4 (.addColumn people 0 {
    name := "label"
    type := .string
    computed := some (.expr (.call (.id shout.id) 0 [.column "nick" .string] .string)) }),
  .perform 5 (.addColumn people 1 {
    name := "width"
    type := .int
    computed := some (.expr (.call (.path "text.measure") 0 [.column "label" .string] .int)) })]

/-- A column that is in use is not renamed, and after the one that uses it is
renamed and dropped, it is. -/
def revision : List Action := [
  .perform 7 (.renameColumn people 2 "label" "tag"),
  .perform 8 (.renameColumn people 2 "width" "size"),
  .perform 9 (.dropColumn people 3 "size"),
  .perform 10 (.renameColumn people 4 "label" "tag")]

/-- The template is stored before it is called, and once more while it is. -/
def computation : List Action :=
  provision ++ storing 3 :: (derivation ++ storing 6 :: revision)

theorem admits_computation : start.Admits computation := by
  decide +kernel

theorem storable_shout : shout.Storable where
  finite := rfl
  signatures := nofun
  templates ts hts := by
    cases hts
    rfl

/-- The template is stored again with the signatures that it has. -/
theorem keepsCalled_computation : start.KeepsCalled computation := by
  obtain ⟨hfounding, hstoring, hrest⟩ := Catalog.admits_append.1 admits_computation
  have hderivation := (Catalog.admits_append.1 hrest).1
  have hstart : start.Keeps fun _ => none := Catalog.keeps_fresh {} .empty
  obtain ⟨σ, hc, _⟩ := hstart.after hfounding
  obtain ⟨σ', hc', _⟩ := hc.act hstoring
  obtain ⟨σ'', hc'', _⟩ := hc'.after hderivation
  -- at first there is no function under the identifier
  have hnew : ((start.after provision).signaturesOf (.id shout.id)).toOption.isNone = true := by
    decide +kernel
  have hfirst : (start.after provision).KeepsSignatures (storing 3) :=
    Catalog.keepsSignatures_of_storeFunction hc.unlimited storable_shout fun signatures h => by
      rw [h] at hnew
      cases hnew
  -- then there is this one
  have hplan : ((Operation.storeFunction none shout).plan
      (start.after provision) 3).toOption.isSome = true := by decide +kernel
  obtain ⟨p, hp⟩ := Option.isSome_iff_exists.1 hplan
  have hstored := Catalog.signaturesOf_storeFunction hc.unlimited storable_shout
    (eq_ok_of_toOption hp)
  have hnone : ∀ a ∈ derivation, a.stored? = none := by decide
  have hkept := hc'.signaturesOf_after hderivation hstored fun a ha id _ hid => by
    rw [hnone a ha] at hid
    cases hid
  have hsecond : (((start.after provision).act (storing 3)).after derivation).KeepsSignatures
      (storing 6) :=
    Catalog.keepsSignatures_of_storeFunction hc''.unlimited storable_shout fun signatures h => by
      rw [hkept] at h
      exact Except.ok.inj h
  refine Catalog.keepsCalled_append.2 ⟨Catalog.keepsCalled_of_stored (by decide), hfirst, ?_⟩
  refine Catalog.keepsCalled_append.2 ⟨Catalog.keepsCalled_of_stored hnone, hsecond, ?_⟩
  exact Catalog.keepsCalled_of_stored (by decide)

end Sample

theorem Sample.computedColumns_people :
    Sample.start.Admits Sample.computation ∧ Sample.start.KeepsCalled Sample.computation ∧
      ∃ x, (Sample.start.after Sample.computation).store.table Sample.people = .ok x ∧
        x.head.view = none ∧
        ((Sample.start.after Sample.computation).store.get?
          (.schemaVersion Sample.people 3)).isSome = true ∧
        ∃ k, (Sample.start.after Sample.computation).store.schema Sample.people 3 = .ok k ∧
          k.Checked (Sample.start.after Sample.computation) := by
  have hplain : ((Sample.start.after Sample.computation).store.table
      Sample.people).toOption.any (fun x => x.head.view.isNone) = true := by decide +kernel
  obtain ⟨x, hx, hview⟩ := (Option.any_eq_true _ _).1 hplain
  have hx := eq_ok_of_toOption hx
  have hview := Option.isNone_iff_eq_none.1 hview
  have hv : ((Sample.start.after Sample.computation).store.get?
      (.schemaVersion Sample.people 3)).isSome = true := by decide +kernel
  exact ⟨Sample.admits_computation, Sample.keepsCalled_computation, x, hx, hview, hv,
    Catalog.computedColumns Sample.admits_computation Sample.keepsCalled_computation hx hview hv⟩

end Cadastre
