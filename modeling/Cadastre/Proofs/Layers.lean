/-
# Columns in layers

The columns of a plain table are layered: each one is valid behind the columns
before it, so that its value refers to earlier columns and to no other. A new
table is layered, since its columns are checked one after the other, and every
edit keeps the layers: a column is added behind all others, and one that is
renamed, altered or dropped has a name that no value refers to.

Key definitions: `Catalog.Layered`, `Schema.specs`.
Key theorems: `Catalog.Layered.valid`, `Catalog.Layered.filterMap`,
`Catalog.Layered.replace`, `Growth.layered`, `Edit.layered`.
-/
import Cadastre.Proofs.Roster
import Cadastre.Proofs.Typing
import Mathlib.Data.List.Nodup

namespace Cadastre

namespace Catalog

/-- Each column is valid behind those before it. -/
inductive Layered (c : Catalog) : List ColumnSpec → Prop
  | nil : Layered c []
  | push {specs : List ColumnSpec} {s : ColumnSpec} (hspecs : Layered c specs)
      (hs : s.Valid c (specs.map ColumnSpec.seen)) : Layered c (specs ++ [s])

namespace Layered

variable {c c' : Catalog} {specs : List ColumnSpec}

theorem valid (h : c.Layered specs) {i : Nat} {s : ColumnSpec} (hi : specs[i]? = some s) :
    s.Valid c ((specs.take i).map ColumnSpec.seen) := by
  induction h generalizing i with
  | nil => cases hi
  | @push specs s' _ hs ih =>
    rcases getElem?_concat_eq_some_iff.1 hi with hi | ⟨rfl, rfl⟩
    · have hlt : i < specs.length := (List.getElem?_eq_some_iff.1 hi).1
      rw [List.take_append_of_le_length (Nat.le_of_lt hlt)]
      exact ih hi
    · rw [List.take_left]
      exact hs

/-- Values refer to columns that are there. -/
theorem mem_names_of_mem_refs (h : c.Layered specs) {s : ColumnSpec} (hs : s ∈ specs)
    {name : String} (hname : name ∈ s.refs) : name ∈ specs.map ColumnSpec.name := by
  obtain ⟨i, hi⟩ := List.mem_iff_getElem?.1 hs
  obtain ⟨v, hv, rfl⟩ := (h.valid hi).exists_of_mem_refs hname
  obtain ⟨d, hd, rfl⟩ := List.mem_map.1 hv
  exact List.mem_map.2 ⟨d, List.mem_of_mem_take hd, rfl⟩

/-- No value refers to its own column. -/
theorem name_notMem_refs (h : c.Layered specs) (hnames : (specs.map ColumnSpec.name).Nodup)
    {s : ColumnSpec} (hs : s ∈ specs) : s.name ∉ s.refs := by
  induction h with
  | nil => cases hs
  | @push specs s' _ hvalid ih =>
    rw [List.map_append, List.nodup_append'] at hnames
    rcases List.mem_append.1 hs with hs | hs
    · exact ih hnames.1 hs
    · rw [List.mem_singleton.1 hs]
      intro hself
      obtain ⟨v, hv, hname⟩ := hvalid.exists_of_mem_refs hself
      obtain ⟨d, hd, rfl⟩ := List.mem_map.1 hv
      have hmem : s'.name ∈ specs.map ColumnSpec.name := List.mem_map.2 ⟨d, hd, hname⟩
      exact List.disjoint_left.1 hnames.2.2 hmem (List.mem_singleton.2 rfl)

/-- Columns stay layered if the functions that they call keep their signatures. -/
theorem congr (h : c.Layered specs)
    (hcalls : ∀ s ∈ specs, ∀ f, s.Calls f → ∀ signatures, c.signaturesOf f = .ok signatures →
      c'.signaturesOf f = .ok signatures) : c'.Layered specs := by
  induction h with
  | nil => exact .nil
  | @push specs s _ hs ih =>
    refine .push (ih fun s hs => hcalls s (List.mem_append_left _ hs)) ?_
    exact hs.congr (fun _ _ => rfl) (hcalls s (List.mem_append_right _ (List.mem_singleton.2 rfl)))

end Layered

/-- Columns that change under other names do not change what is found under a name. -/
theorem find?_seen_filterMap {specs : List ColumnSpec} {f : ColumnSpec → Option ColumnSpec}
    {touched : String → Prop}
    (hf : ∀ s ∈ specs, f s = some s ∨ touched s.name ∧ ∀ s' ∈ f s, touched s'.name)
    {name : String} (hname : ¬ touched name) :
    (((specs.filterMap f).map ColumnSpec.seen).find? fun v => v.name == name) =
      (specs.map ColumnSpec.seen).find? fun v => v.name == name := by
  induction specs with
  | nil => rfl
  | cons s specs ih =>
    have ih := ih fun s hs => hf s (List.mem_cons_of_mem _ hs)
    -- a column under a touched name is not the one that is looked for
    have hskip : ∀ s : ColumnSpec, touched s.name → ¬ (s.seen.name == name) = true :=
      fun s hs heq => hname (eq_of_beq heq ▸ hs)
    rcases hf s List.mem_cons_self with hsame | ⟨hs, hs'⟩
    · rw [List.filterMap_cons_some hsame, List.map_cons, List.map_cons, List.find?_cons,
        List.find?_cons, ih]
    · have hrest : ((s :: specs).map ColumnSpec.seen).find? (fun v => v.name == name) =
          (specs.map ColumnSpec.seen).find? fun v => v.name == name := by
        rw [List.map_cons, List.find?_cons_of_neg]
        exact hskip s hs
      rw [hrest, ← ih]
      cases hfs : f s with
      | none => rw [List.filterMap_cons_none hfs]
      | some s' =>
        rw [List.filterMap_cons_some hfs, List.map_cons, List.find?_cons_of_neg]
        exact hskip s' (hs' s' hfs)

/-- Columns stay layered if some of them change or go, each to a valid one, and
no value refers to a name that they have before or afterwards. -/
theorem Layered.filterMap {c : Catalog} {specs : List ColumnSpec} (h : c.Layered specs)
    {f : ColumnSpec → Option ColumnSpec} (touched : String → Prop)
    (hf : ∀ s ∈ specs, f s = some s ∨ touched s.name ∧ ∀ s' ∈ f s, touched s'.name)
    (hrefs : ∀ s ∈ specs, ∀ name ∈ s.refs, ¬ touched name)
    (hvalid : ∀ s ∈ specs, ∀ s' ∈ f s, ∀ visible, s.Valid c visible → s'.Valid c visible) :
    c.Layered (specs.filterMap f) := by
  induction h with
  | nil => exact .nil
  | @push specs s _ hs ih =>
    have hlast : s ∈ specs ++ [s] := List.mem_append_right _ (List.mem_singleton.2 rfl)
    have hbefore : ∀ s ∈ specs, f s = some s ∨ touched s.name ∧ ∀ s' ∈ f s, touched s'.name :=
      fun s hs => hf s (List.mem_append_left _ hs)
    have hrest : c.Layered (specs.filterMap f) :=
      ih hbefore (fun s hs => hrefs s (List.mem_append_left _ hs))
        fun s hs => hvalid s (List.mem_append_left _ hs)
    rw [List.filterMap_append]
    cases hfs : f s with
    | none =>
      rw [List.filterMap_cons_none hfs, List.filterMap_nil, List.append_nil]
      exact hrest
    | some s' =>
      -- the value of the last column finds the same columns as before
      have hsame : s.Valid c ((specs.filterMap f).map ColumnSpec.seen) :=
        hs.congr (fun name hname => find?_seen_filterMap hbefore (hrefs s hlast name hname))
          fun _ _ _ => id
      rw [List.filterMap_cons_some hfs, List.filterMap_nil]
      exact hrest.push (hvalid s hlast s' hfs _ hsame)

/-- Columns stay layered if that of one name, which no value refers to, goes or
becomes another one that is valid where it was, under a name that no value refers
to. -/
theorem Layered.replace {c : Catalog} {specs : List ColumnSpec} (h : c.Layered specs)
    {name : String} (hunused : ∀ d ∈ specs, name ∉ d.refs) (g : ColumnSpec → Option ColumnSpec)
    (hg : ∀ s ∈ specs, s.name = name → ∀ s' ∈ g s, (∀ d ∈ specs, s'.name ∉ d.refs) ∧
      ∀ visible, s.Valid c visible → s'.Valid c visible) :
    c.Layered (specs.filterMap fun s => if s.name = name then g s else some s) := by
  refine h.filterMap (fun n => ∀ d ∈ specs, n ∉ d.refs) (fun s hs => ?_)
    (fun s hs n hn hunused => hunused s hs hn) fun s hs s' hs' visible hvalid => ?_
  · by_cases hname : s.name = name
    · rw [if_pos hname, hname]
      exact .inr ⟨hunused, fun s' hs' => (hg s hs hname s' hs').1⟩
    · rw [if_neg hname]
      exact .inl rfl
  · by_cases hname : s.name = name
    · rw [if_pos hname] at hs'
      exact (hg s hs hname s' hs').2 visible hvalid
    · rw [if_neg hname] at hs'
      cases hs'
      exact hvalid

end Catalog

/-! ### The columns of a schema version -/

namespace Schema

/-- The columns of a schema version by position, without positions and numbers. -/
def specs (k : Schema) : List ColumnSpec := k.listed.map (·.2)

@[simp] theorem specs_compact (k : Schema) : k.compact.specs = k.specs := by
  rw [specs, listed_compact, specs]

theorem map_name_specs (k : Schema) : k.specs.map ColumnSpec.name = k.columnNames := by
  rw [specs, listed, List.map_map, List.map_map]
  rfl

theorem mem_specs_iff {k : Schema} {s : ColumnSpec} :
    s ∈ k.specs ↔ ∃ id column, k.columns.get? id = some column ∧ column.spec = s := by
  rw [specs, listed, List.map_map, List.mem_map]
  constructor
  · rintro ⟨⟨id, column⟩, he, rfl⟩
    exact ⟨id, column, mem_ordered_iff.1 he, rfl⟩
  · rintro ⟨id, column, hget, rfl⟩
    exact ⟨(id, column), mem_ordered_iff.2 hget, rfl⟩

/-- The named column is the only one of its name. -/
theorem spec_eq_of_find? {k : Schema} (hs : k.Sound) {name : String} {id : ColumnId}
    {column : Column} (hfind : k.find? name = some (id, column)) {s : ColumnSpec}
    (hmem : s ∈ k.specs) (hname : s.name = name) : s = column.spec := by
  obtain ⟨i, d, hget, rfl⟩ := mem_specs_iff.1 hmem
  have hcolumn := get?_of_find? hfind
  have hsame : d.name = column.name := hname.trans (name_of_find? hfind).symm
  obtain rfl : i = id := hs.named i id d column hget hcolumn hsame
  rw [hget, Option.some.injEq] at hcolumn
  rw [hcolumn]

end Schema

/-- A name that may be given up is referred to by no other column. -/
theorem Draft.name_eq_of_requireUnreferenced {d : Draft} {t : TableId} {name : String}
    (h : d.requireUnreferenced t name = .ok ()) {s : ColumnSpec} (hs : s ∈ d.schema.specs)
    (href : name ∈ s.refs) : s.name = name := by
  obtain ⟨id, column, hget, rfl⟩ := Schema.mem_specs_iff.1 hs
  obtain ⟨v, hcomputed, href⟩ := ColumnSpec.mem_refs_iff.1 href
  have hdependent : column ∈ d.schema.dependents name := by
    have hvalue : column ∈ d.schema.columns.values :=
      List.mem_map.2 ⟨(id, column), d.schema.columns.mem_entries_iff.2 hget, rfl⟩
    have hcomputed : column.computed = some v := hcomputed
    refine List.mem_filter.2 ⟨hvalue, ?_⟩
    rw [hcomputed, Option.any_some]
    exact List.contains_iff_mem.2 href
  unfold Draft.requireUnreferenced at h
  split at h
  · cases h
  · rename_i hnone
    have hsame : column.name = name := by
      simpa using List.find?_eq_none.1 hnone column hdependent
    exact hsame

/-! ### Changes of a list -/

namespace Roster

variable (r : Roster)

theorem specs_rename (source target : String) : (r.rename source target).columns.map (·.2) =
    (r.columns.map (·.2)).filterMap fun s =>
      if s.name = source then some { s with name := target } else some s := by
  rw [rename]
  induction r.columns with
  | nil => rfl
  | cons e l ih => by_cases h : e.2.name = source <;> simpa [h] using ih

theorem specs_alter (name : String) (type : ColumnType) : (r.alter name type).columns.map (·.2) =
    (r.columns.map (·.2)).filterMap fun s =>
      if s.name = name then some { s with type := type } else some s := by
  rw [alter]
  induction r.columns with
  | nil => rfl
  | cons e l ih => by_cases h : e.2.name = name <;> simpa [h] using ih

theorem specs_drop (name : String) : (r.drop name).columns.map (·.2) =
    (r.columns.map (·.2)).filterMap fun s => if s.name = name then none else some s := by
  rw [drop]
  induction r.columns with
  | nil => rfl
  | cons e l ih => by_cases h : e.2.name = name <;> simpa [h] using ih

end Roster

/-! ### Growth and edits -/

section Changes

variable {c : Catalog} {t : TableId} {d d' : Draft}

/-- Columns that are checked one after the other are layered. -/
theorem Growth.layered {visible : List VisibleColumn} {specs : List ColumnSpec}
    (hg : Growth c visible d specs d') {before : List ColumnSpec}
    (hvisible : visible = before.map ColumnSpec.seen) (h : c.Layered before) :
    c.Layered (before ++ specs) := by
  induction hg generalizing before with
  | nil =>
    rw [List.append_nil]
    exact h
  | @cons visible d d' s rest _ hcheck _ ih =>
    subst hvisible
    have hvisible : before.map ColumnSpec.seen ++ [⟨s.name, s.type⟩] =
        (before ++ [s]).map ColumnSpec.seen := by
      rw [List.map_append]
      rfl
    have hstep := ih hvisible (h.push (Catalog.checkColumn_eq_ok_iff.1 hcheck))
    rw [List.append_assoc] at hstep
    exact hstep

/-- A plain table sees its own columns. -/
theorem visibleColumns_of_table (hview : d.head.view = none) :
    c.visibleColumns d = .ok (d.schema.specs.map ColumnSpec.seen) := by
  refine bind_eq_ok_iff.2 ⟨[], ?_, ?_⟩
  · rw [Store.inheritedColumns, hview]
  · rw [List.map_nil, List.nil_append, Schema.specs, Schema.listed, List.map_map, List.map_map]
    rfl

/-- A column stays valid under a type that it may be altered to. -/
theorem ColumnSpec.Valid.alter {visible : List VisibleColumn} {column : Column}
    (h : column.spec.Valid c visible) {type : ColumnType} (htype : type.isInvalid = false)
    (hcheck : Catalog.checkAlteration column type = .ok ()) :
    ColumnSpec.Valid c visible { column.spec with type := type } := by
  obtain ⟨_, _, hcheck⟩ := bind_eq_ok_iff.1 hcheck
  have hchecked : (column.indexed && !type.isIndexable) = false ∧
      ∀ e, column.computed = some (.expr e) → (e.type.conversionTo? type).isSome = true := by
    rcases hcomputed : column.computed with _ | (e | j) <;> rw [hcomputed] at hcheck <;>
      obtain ⟨_, hvalue, hcheck⟩ := bind_eq_ok_iff.1 hcheck <;> rw [guard_eq_ok_iff] at hcheck
    · exact ⟨hcheck.1, fun e he => by cases he⟩
    · refine ⟨hcheck.1, fun e he => ?_⟩
      cases he
      exact ColumnType.requireConversionTo_map_eq_ok_iff.1 hvalue
    · exact ⟨hcheck.1, fun e he => by cases he⟩
  refine ⟨h.named, htype, fun hindexed => ?_, h.plain, h.key,
    fun e he => ⟨(h.value e he).1, hchecked.2 e he⟩⟩
  have hindexed : column.indexed = true := hindexed
  simpa [hindexed] using hchecked.1

/-- The columns of a new table or view are the declared ones. -/
theorem Birth.specs_eq {op : Operation} {dir : Option DirId} (hb : Birth c op t dir d) :
    d.schema.specs = op.columns := by
  obtain ⟨r, hr, -, hlists⟩ := hb.lists
  obtain rfl : r = Roster.declared op.columns := by
    cases hb <;> cases hr <;> rfl
  rw [Schema.specs, hlists.columns, Roster.declared_eq]
  exact List.ext_getElem (by simp) fun i hi hj => by simp

/-- An edit keeps the columns of a plain table layered. -/
theorem Edit.layered {op : Operation} (he : Edit c t d op d') {old : List Schema}
    (hc : d.Continues old) (hs : d.schema.Sound) (hd : d.schema.Dense)
    (hview : d.head.view = none) (h : c.Layered d.schema.specs) : c.Layered d'.schema.specs := by
  have hlists := he.lists hc hs hd (r := ⟨d.head.nextColumn, d.schema.listed⟩) ⟨rfl, rfl⟩
  have hspecs : d'.schema.specs =
      (Roster.apply ⟨d.head.nextColumn, d.schema.listed⟩ op).columns.map (·.2) := by
    rw [Schema.specs, hlists.columns]
  have hnames : (d.schema.specs.map ColumnSpec.name).Nodup := by
    rw [Schema.map_name_specs]
    exact hs.nodup_columnNames
  have hvisible := visibleColumns_of_table (c := c) hview
  -- a name that is given up is in no value, as no value refers to its own column
  have hunused : ∀ name, d.requireUnreferenced t name = .ok () → ∀ s ∈ d.schema.specs,
      name ∉ s.refs := by
    intro name hfree s hmem href
    obtain rfl := Draft.name_eq_of_requireUnreferenced hfree hmem href
    exact h.name_notMem_refs hnames hmem href
  rw [hspecs]
  cases he with
  | @add _ s visible hvisible' _ hcheck =>
    rw [hvisible, Except.ok.injEq] at hvisible'
    subst hvisible'
    show c.Layered ((d.schema.listed ++ [(d.head.nextColumn, s)]).map (·.2))
    rw [List.map_append]
    exact h.push (Catalog.checkColumn_eq_ok_iff.1 hcheck)
  | @rename _ source target id column visible hname hfind hvisible' hnew hfree =>
    rw [hvisible, Except.ok.injEq] at hvisible'
    subst hvisible'
    -- nor does a value refer to a name that no column has
    have hfresh : ∀ s ∈ d.schema.specs, target ∉ s.refs := by
      intro s hmem href
      obtain ⟨s', hs', hsame⟩ := List.mem_map.1 (h.mem_names_of_mem_refs hmem href)
      exact hnew s'.seen (List.mem_map.2 ⟨s', hs', rfl⟩) hsame
    show c.Layered ((Roster.rename _ source target).columns.map (·.2))
    rw [Roster.specs_rename]
    refine h.replace (hunused source hfree) (fun s => some { s with name := target })
      fun s _ _ s' hs' => ?_
    cases hs'
    exact ⟨hfresh, fun visible hvalid => ⟨hname, hvalid.typed, hvalid.indexed, hvalid.plain,
      hvalid.key, hvalid.value⟩⟩
  | @alter _ name type id column l htype hfind hfree hcheck =>
    show c.Layered ((Roster.alter _ name type).columns.map (·.2))
    rw [Roster.specs_alter]
    refine h.replace (hunused name hfree) (fun s => some { s with type := type })
      fun s hmem hname s' hs' => ?_
    cases hs'
    obtain rfl := Schema.spec_eq_of_find? hs hfind hmem hname
    have hname : column.spec.name = name := hname
    refine ⟨fun s' hs' => ?_, fun visible hvalid => hvalid.alter htype hcheck⟩
    show column.spec.name ∉ s'.refs
    rw [hname]
    exact hunused name hfree s' hs'
  | @drop _ name _ _ _ _ _ hfree =>
    show c.Layered ((Roster.drop _ name).columns.map (·.2))
    rw [Roster.specs_drop]
    refine h.replace (hunused name hfree) (fun _ => none) fun s _ _ s' hs' => ?_
    cases hs'
  | retain => exact h

end Changes
end Cadastre
