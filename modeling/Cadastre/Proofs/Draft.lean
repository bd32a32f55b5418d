/-
# What the operations make of a draft

Every schema change edits the draft of the next schema version: it adds a
column, renames, alters or drops one, or sets how many versions are retained.
`Edit` says what each of them does and under which conditions, and
`Growth` says it of the columns that a new table or view is created with. All
that is kept by every edit is shown here, one case per operation: the history
goes on, the schema stays sound, its literals stay numbers, and nothing else in
the head or the schema changes.

Key definitions: `Edit`, `Growth`, `Schema.Finite`, `Operation.isFinite`.
Key theorems: `Edit.continues`, `Edit.sound`, `Edit.finite`, `Edit.head_eq`,
`Growth.sound`, `growth_of_appendColumns`.
-/
import Cadastre.Catalog.Operation
import Cadastre.Proofs.Chronicle

namespace Cadastre

/-! ### Schemas with a column more or less -/

namespace Schema

variable {s : Schema}

/-- The literals of the columns' values are numbers. -/
def Finite (s : Schema) : Prop := ∀ id c, s.columns.get? id = some c → c.isFinite = true

theorem Finite.insert (hs : s.Finite) {id : ColumnId} {c : Column} (hc : c.isFinite = true) :
    Finite { s with columns := s.columns.insert id c } := by
  intro i d hd
  rw [SortedMap.get?_insert] at hd
  split at hd
  · cases hd
    exact hc
  · exact hs i d hd

theorem Finite.erase (hs : s.Finite) (id : ColumnId) :
    Finite { s with columns := s.columns.erase id } := by
  intro i d hd
  rw [SortedMap.get?_erase] at hd
  split at hd
  · cases hd
  · exact hs i d hd

theorem Sound.insert (hs : s.Sound) {id : ColumnId} {c : Column} (ht : c.type.isInvalid = false)
    (hname : ∀ j d, s.columns.get? j = some d → j ≠ id → d.name ≠ c.name) :
    Sound { s with columns := s.columns.insert id c } := by
  refine ⟨hs.preceding, fun i d hd => ?_, fun i j d e hd he hde => ?_, hs.retained⟩
  · rw [SortedMap.get?_insert] at hd
    split at hd
    · cases hd
      exact ht
    · exact hs.typed i d hd
  · rw [SortedMap.get?_insert] at hd he
    split at hd <;> split at he
    · rename_i hi hj
      rw [hi, hj]
    · rename_i hj
      cases hd
      exact absurd hde.symm (hname j e he hj)
    · rename_i hi _
      cases he
      exact absurd hde (hname i d hd hi)
    · exact hs.named i j d e hd he hde

theorem Sound.erase (hs : s.Sound) (id : ColumnId) :
    Sound { s with columns := s.columns.erase id } := by
  have hget {i : ColumnId} {c : Column} (h : (s.columns.erase id).get? i = some c) :
      s.columns.get? i = some c := by
    rw [SortedMap.get?_erase] at h
    split at h
    · cases h
    · exact h
  exact ⟨hs.preceding, fun i d hd => hs.typed i d (hget hd),
    fun i j d e hd he => hs.named i j d e (hget hd) (hget he), hs.retained⟩

theorem get?_compact {id : ColumnId} {c : Column} (h : s.compact.columns.get? id = some c) :
    ∃ pos d, s.columns.get? id = some d ∧ c = { d with pos := pos } := by
  rw [compact, SortedMap.get?_mapValues, Option.map_eq_some_iff] at h
  obtain ⟨d, hd, rfl⟩ := h
  exact ⟨_, d, hd, rfl⟩

theorem Finite.compact (hs : s.Finite) : s.compact.Finite := by
  intro i c hc
  obtain ⟨pos, d, hd, rfl⟩ := get?_compact hc
  exact hs i d hd

theorem Sound.compact (hs : s.Sound) : s.compact.Sound := by
  refine ⟨hs.preceding, fun i c hc => ?_, fun i j c c' hc hc' hname => ?_, hs.retained⟩
  · obtain ⟨pos, d, hd, rfl⟩ := get?_compact hc
    exact hs.typed i d hd
  · obtain ⟨pos, d, hd, rfl⟩ := get?_compact hc
    obtain ⟨pos', d', hd', rfl⟩ := get?_compact hc'
    exact hs.named i j d d' hd hd' hname

end Schema

/-- The literals of a column to add are numbers. -/
def ColumnSpec.isFinite (s : ColumnSpec) : Bool := s.computed.all ComputedValue.isFinite

theorem ColumnSpec.isFinite_place {s : ColumnSpec} (h : s.isFinite = true) (pos : Nat) :
    (s.place pos).isFinite = true := h

/-- The literals of the columns that an operation brings are numbers. -/
def Operation.isFinite : Operation → Bool
  | createTable _ spec => spec.columns.all ColumnSpec.isFinite
  | createView _ spec => spec.columns.all ColumnSpec.isFinite
  | addColumn _ _ s => s.isFinite
  | _ => true

/-! ### The edits -/

/-- What a schema change of table `t` makes of a draft, and when. -/
inductive Edit (c : Catalog) (t : TableId) (d : Draft) : Operation → Draft → Prop
  | add {expected : Version} {s : ColumnSpec} {visible : List VisibleColumn}
      (hvisible : c.visibleColumns d = .ok visible) (hnew : ∀ x ∈ visible, x.name ≠ s.name)
      (hcheck : c.checkColumn s visible = .ok ()) :
      Edit c t d (.addColumn t expected s) (d.push s)
  | rename {expected : Version} {source target : String} {id : ColumnId} {column : Column}
      {visible : List VisibleColumn} (hname : isIdentifier target = true)
      (hfind : d.schema.find? source = some (id, column))
      (hvisible : c.visibleColumns d = .ok visible) (hnew : ∀ x ∈ visible, x.name ≠ target)
      (hfree : d.requireUnreferenced t source = .ok ()) :
      Edit c t d (.renameColumn t expected source target)
        (d.update id { column with name := target })
  | alter {expected : Version} {name : String} {type : ColumnType} {id : ColumnId}
      {column : Column} {l : ColumnLife} (htype : type.isInvalid = false)
      (hfind : d.schema.find? name = some (id, column))
      (hfree : d.requireUnreferenced t name = .ok ())
      (hcheck : Catalog.checkAlteration column type = .ok ())
      (hlife : d.head.history.get? id = some l) :
      Edit c t d (.alterColumn t expected name type)
        ((d.retired id l).adopt { column with type := type })
  | drop {expected : Version} {name : String} {id : ColumnId} {column : Column} {l : ColumnLife}
      (hfind : d.schema.find? name = some (id, column)) (hkey : column.isKey = false)
      (hfree : d.requireUnreferenced t name = .ok ())
      (hlife : d.head.history.get? id = some l) :
      Edit c t d (.dropColumn t expected name) (d.retired id l)
  | retain {expected : Version} {retained : UInt32} (hpos : retained ≠ 0) :
      Edit c t d (.setRetention t expected retained)
        { d with schema := { d.schema with retained := retained } }

/-- What the columns of a new table or view make of its draft. Each is checked
against those that are visible before it. -/
inductive Growth (c : Catalog) : List VisibleColumn → Draft → List ColumnSpec → Draft → Prop
  | nil {visible : List VisibleColumn} {d : Draft} : Growth c visible d [] d
  | cons {visible : List VisibleColumn} {d d' : Draft} {s : ColumnSpec} {rest : List ColumnSpec}
      (hnew : ∀ x ∈ visible, x.name ≠ s.name) (hcheck : c.checkColumn s visible = .ok ())
      (hrest : Growth c (visible ++ [⟨s.name, s.type⟩]) (d.push s) rest d') :
      Growth c visible d (s :: rest) d'

theorem growth_of_appendColumns {c : Catalog} {t : TableId} {d d' : Draft}
    {visible : List VisibleColumn} {specs : List ColumnSpec} {ids : List ColumnId}
    (h : c.appendColumns t d visible specs = .ok (d', ids)) : Growth c visible d specs d' := by
  induction specs generalizing d visible ids with
  | nil =>
    cases h
    exact .nil
  | cons s rest ih =>
    rw [Catalog.appendColumns] at h
    split at h
    · cases h
    · rename_i hany
      obtain ⟨_, hcheck, h⟩ := bind_eq_ok_iff.1 h
      obtain ⟨⟨d'', ids'⟩, hrest, h⟩ := bind_eq_ok_iff.1 h
      cases h
      exact .cons (by simpa using hany) hcheck (ih hrest)

/-- The visible columns of a draft include its own. -/
theorem name_mem_visibleColumns {c : Catalog} {d : Draft} {visible : List VisibleColumn}
    (h : c.visibleColumns d = .ok visible) {id : ColumnId} {k : Column}
    (hk : d.schema.columns.get? id = some k) : ∃ x ∈ visible, x.name = k.name := by
  obtain ⟨inherited, _, h⟩ := bind_eq_ok_iff.1 h
  cases h
  refine ⟨⟨k.name, k.type⟩, List.mem_append_right _ ?_, rfl⟩
  exact List.mem_map.2 ⟨(id, k), Schema.mem_ordered_iff.2 hk, rfl⟩

theorem typed_of_checkColumn {c : Catalog} {s : ColumnSpec} {visible : List VisibleColumn}
    (h : c.checkColumn s visible = .ok ()) : s.type.isInvalid = false := by
  unfold Catalog.checkColumn at h
  split at h
  · cases h
  · split at h
    · cases h
    · rename_i ht
      simpa using ht

/-! ### What an edit keeps -/

namespace Edit

variable {c : Catalog} {t : TableId} {d d' : Draft} {op : Operation}

/-- An edit changes the history and the next column of the head, and nothing else. -/
theorem head_eq (he : Edit c t d op d') :
    ∃ n h, d'.head = { d.head with nextColumn := n, history := h } := by
  cases he with
  | add => exact ⟨_, _, rfl⟩
  | rename => exact ⟨_, _, rfl⟩
  | alter => exact ⟨_, _, rfl⟩
  | drop => exact ⟨_, _, rfl⟩
  | retain => exact ⟨_, _, rfl⟩

/-- An edit changes the columns and the retention of the schema, and nothing else. -/
theorem schema_eq (he : Edit c t d op d') :
    ∃ m r, d'.schema = { d.schema with columns := m, retained := r } := by
  cases he with
  | add => exact ⟨_, _, rfl⟩
  | rename => exact ⟨_, _, rfl⟩
  | alter => exact ⟨_, _, rfl⟩
  | drop => exact ⟨_, _, rfl⟩
  | retain => exact ⟨_, _, rfl⟩

/-- The history goes on, if every column was added before the draft. -/
theorem continues (he : Edit c t d op d') {old : List Schema} (hd : d.Continues old)
    (hadded : ∀ id l, d.head.history.get? id = some l → l.added < old.length) :
    d'.Continues old := by
  cases he with
  | add => exact hd.adopt _
  | rename _ hfind => exact hd.update (Schema.mem_keys_of_find? hfind) _
  | alter _ hfind _ _ hlife =>
    exact (hd.retired hlife (Schema.mem_keys_of_find? hfind)
      (hadded _ _ hlife)).adopt _
  | drop hfind _ _ hlife =>
    exact hd.retired hlife (Schema.mem_keys_of_find? hfind)
      (hadded _ _ hlife)
  | retain => exact hd.congr rfl fun _ => Iff.rfl

theorem sound (he : Edit c t d op d') (hs : d.schema.Sound) : d'.schema.Sound := by
  cases he with
  | add hvisible hnew hcheck =>
    refine hs.insert (typed_of_checkColumn hcheck) fun j e hj _ => ?_
    obtain ⟨x, hx, hxe⟩ := name_mem_visibleColumns hvisible hj
    exact hxe ▸ hnew x hx
  | rename _ hfind hvisible hnew =>
    have htype := hs.typed _ _ (Schema.get?_of_find? hfind)
    refine hs.insert htype fun j e hj _ => ?_
    obtain ⟨x, hx, hxe⟩ := name_mem_visibleColumns hvisible hj
    exact hxe ▸ hnew x hx
  | alter htype hfind =>
    -- the column left under its old number, so its name is free for the new one
    refine (hs.erase _).insert htype fun j e hj _ hname => ?_
    rw [SortedMap.get?_erase] at hj
    split at hj
    · cases hj
    · rename_i hne
      exact hne (hs.named _ _ _ _ hj (Schema.get?_of_find? hfind) hname)
  | drop => exact hs.erase _
  | retain hpos => exact ⟨hs.preceding, hs.typed, hs.named, hpos⟩

theorem finite (he : Edit c t d op d') (hop : op.isFinite = true) (hs : d.schema.Finite) :
    d'.schema.Finite := by
  cases he with
  | add => exact hs.insert (ColumnSpec.isFinite_place hop _)
  | rename _ hfind =>
    have hcolumn := hs _ _ (Schema.get?_of_find? hfind)
    exact hs.insert hcolumn
  | alter _ hfind =>
    have hcolumn := hs _ _ (Schema.get?_of_find? hfind)
    exact (hs.erase _).insert hcolumn
  | drop => exact hs.erase _
  | retain => exact hs

end Edit

/-! ### What growth keeps -/

namespace Growth

variable {c : Catalog} {visible : List VisibleColumn} {d d' : Draft} {specs : List ColumnSpec}

theorem head_eq (hg : Growth c visible d specs d') :
    ∃ n h, d'.head = { d.head with nextColumn := n, history := h } := by
  induction hg with
  | nil => exact ⟨_, _, rfl⟩
  | cons _ _ _ ih =>
    obtain ⟨n, h, he⟩ := ih
    exact ⟨n, h, he⟩

theorem schema_eq (hg : Growth c visible d specs d') :
    ∃ m, d'.schema = { d.schema with columns := m } := by
  induction hg with
  | nil => exact ⟨_, rfl⟩
  | cons _ _ _ ih =>
    obtain ⟨m, he⟩ := ih
    exact ⟨m, he⟩

theorem continues (hg : Growth c visible d specs d') {old : List Schema} (hd : d.Continues old) :
    d'.Continues old := by
  induction hg with
  | nil => exact hd
  | cons _ _ _ ih => exact ih (hd.adopt _)

/-- The schema stays sound as long as its own columns are visible. -/
theorem sound (hg : Growth c visible d specs d') (hs : d.schema.Sound)
    (hown : ∀ id k, d.schema.columns.get? id = some k → ∃ x ∈ visible, x.name = k.name) :
    d'.schema.Sound := by
  induction hg with
  | nil => exact hs
  | cons hnew hcheck _ ih =>
    refine ih (hs.insert (typed_of_checkColumn hcheck) fun j e hj _ => ?_) fun id k hk => ?_
    · obtain ⟨x, hx, hxe⟩ := hown j e hj
      exact hxe ▸ hnew x hx
    · simp only [Draft.push, SortedMap.get?_insert] at hk
      split at hk
      · cases hk
        exact ⟨_, List.mem_append_right _ (List.mem_singleton.2 rfl), rfl⟩
      · obtain ⟨x, hx, hxk⟩ := hown id k hk
        exact ⟨x, List.mem_append_left _ hx, hxk⟩

theorem finite (hg : Growth c visible d specs d') (hspecs : specs.all ColumnSpec.isFinite = true)
    (hs : d.schema.Finite) : d'.schema.Finite := by
  induction hg with
  | nil => exact hs
  | cons _ _ _ ih =>
    rw [List.all_cons, Bool.and_eq_true] at hspecs
    exact ih hspecs.2 (hs.insert (ColumnSpec.isFinite_place hspecs.1 _))

end Growth
end Cadastre
