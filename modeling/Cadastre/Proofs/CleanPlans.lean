/-
# Operations of a sound catalog

Whatever the arguments of an operation are, its plan over a sound catalog is made or
refused, but no record is blamed. What a mutation reads exists: the schema version of
the head, the history of every column that is retired, and the bases of a view.

Key theorems: `Catalog.Sound.clean_schemaMutation`, `Catalog.Sound.clean_createView`,
`Catalog.Sound.clean_plan`.
-/
import Cadastre.Proofs.CleanReads

namespace Cadastre

/-- A function is stored, or refused as it has no body. -/
theorem BoundFunction.clean_toStored (f : BoundFunction) : Clean f.toStored := by
  unfold toStored
  split
  · exact clean_ok _
  · split
    · exact clean_ok _
    · exact clean_error rfl

namespace Catalog.Sound

variable {c : Catalog} {σ : Ledgers}

/-! ### Operations that are about no table -/

theorem clean_init (hc : c.Sound σ) : Clean c.init := by
  unfold Catalog.init
  cases hread : c.store.read? SystemInfo .systemInfo with
  | error e =>
    unfold Store.read? at hread
    split at hread
    · cases hread
    · rename_i r hr
      rw [hc.founded.system r hr] at hread
      cases hread
  | ok found =>
    rcases found with _ | ⟨r, i⟩
    · exact clean_ok _
    · obtain ⟨hr, hi⟩ := Store.read?_eq_ok_some_iff.1 hread
      rw [hc.founded.system r hr] at hi
      cases hi
      exact clean_ok _

theorem clean_createDirectory (hc : c.Sound σ) (id : DirId) (parent : Option DirId)
    (name : String) : Clean (c.createDirectory id parent name) := by
  refine clean_guard rfl fun _ => ?_
  cases parent with
  | none => exact (clean_ok _).bind fun _ _ => clean_ok _
  | some p => exact ((hc.founded.dirs.clean_directory p).map _).bind fun _ _ => clean_ok _

theorem clean_ensureDirectory (hc : c.Sound σ) (id : DirId) (name : String) :
    Clean (c.ensureDirectory id name) := by
  obtain ⟨found, hfound⟩ := hc.founded.dirs.exists_findDirectory none name
  unfold ensureDirectory
  rw [hfound]
  cases found with
  | some d => exact clean_ok _
  | none => exact hc.clean_createDirectory id none name

theorem clean_storeFunction (hc : c.Sound σ) (dir : Option DirId) (f : BoundFunction) :
    Clean (c.storeFunction dir f) := by
  have hstored : ∀ g : StoredFunction × Option (List UInt8) → Plan FunctionId,
      Clean (f.toStored >>= fun s => .ok (g s)) := fun _ =>
    f.clean_toStored.bind fun _ _ => clean_ok _
  cases dir with
  | none => exact (clean_ok _).bind fun _ _ => hstored _
  | some d => exact ((hc.founded.dirs.clean_directory d).map _).bind fun _ _ => hstored _

/-! ### New tables and views -/

theorem clean_calls (hc : c.Sound σ) (f : FunctionRef) : Clean (c.callSignatures f) :=
  clean_callSignatures hc.founded.functions f

theorem clean_createTable (hc : c.Sound σ) (now : Float) (id : TableId) (spec : TableSpec) :
    Clean (c.createTable now id spec) := by
  refine (hc.founded.dirs.clean_directory spec.dir).bind fun _ _ => ?_
  refine (clean_newDraft _ _ _ _ _).bind fun start _ => ?_
  exact (clean_appendColumns hc.clean_calls _ _ _ _).bind fun _ _ => clean_ok _

theorem clean_createView (hc : c.Sound σ) (now : Float) (id : TableId) (spec : ViewSpec) :
    Clean (c.createView now id spec) := by
  refine (hc.founded.dirs.clean_directory spec.dir).bind fun _ _ => ?_
  refine (hc.keeps.store.clean_table spec.base).bind fun base hbase => ?_
  have hself : c.store.table base.id = .ok base := by
    rw [Store.id_of_table hbase]
    exact hbase
  refine (hc.clean_resolveBases hself _ _).bind fun bases hbases => ?_
  refine (clean_newDraft _ _ _ _ _).bind fun start hstart => ?_
  have hchain : start.head.chain = bases := by
    obtain ⟨_, _, rfl⟩ := newDraft_eq_ok hstart
    rfl
  have hprovides : ∀ b ∈ start.head.chain, σ.Provides b := by
    rw [hchain]
    exact hc.keeps.based_of_resolveBases hc.based hself hbases
  refine (hc.clean_visibleColumns hprovides).bind fun _ _ => ?_
  exact (clean_appendColumns hc.clean_calls _ _ _ _).bind fun _ _ => clean_ok _

/-! ### Mutations -/

theorem clean_mutableTable (hc : c.Sound σ) (t : TableId) (expected : Version) :
    Clean (c.mutableTable t expected) :=
  (hc.keeps.store.clean_table t).bind fun _ _ => clean_guard rfl fun _ =>
    clean_guard rfl fun _ => clean_ok _

/-- A schema mutation of a table reads the schema version of its head; its draft is
the next after the ledger. -/
theorem clean_schemaMutation {α : Type} (hc : c.Sound σ) (now : Float) (t : TableId)
    (expected : Version) {change : Draft → Except Error (Draft × α)}
    (hchange : ∀ l k, σ t = some l → l.schemas[l.head.schemaVersion]? = some k →
      Clean (change (nextDraft l.head k))) : Clean (c.schemaMutation now t expected change) := by
  refine (hc.clean_mutableTable t expected).bind fun x hx => ?_
  obtain ⟨l, hl, rfl⟩ := hc.keeps.store.exists_ledger (mutableTable_eq_ok hx).1
  obtain ⟨k, hk⟩ := (hc.keeps.sound t l hl).exists_schema (Nat.le_refl _)
  have hread := hc.keeps.store.schema t l _ k hl hk
  refine (clean_of_eq_ok hread).bind fun k' hk' => ?_
  obtain rfl : k = k' := Except.ok.inj (hread.symm.trans hk')
  exact (hchange l k hl hk).bind fun _ _ => clean_ok _

theorem clean_dataMutation {α : Type} (hc : c.Sound σ) (now : Float) (t : TableId)
    (expected : Version) {change : TableHead → Except Error (TableHead × α)}
    (hchange : ∀ h, Clean (change h)) : Clean (c.dataMutation now t expected change) :=
  (hc.clean_mutableTable t expected).bind fun _ _ => (hchange _).bind fun _ _ => clean_ok _

section NextDraft

variable {t : TableId} {l : Ledger} {k : Schema}

/-- The next draft of a table sees what the table inherits. -/
theorem clean_visibleColumns_nextDraft (hc : c.Sound σ) (hl : σ t = some l) :
    Clean (c.visibleColumns (nextDraft l.head k)) :=
  hc.clean_visibleColumns fun _ hb => hc.based.provides hl hb

/-- Every column of the next draft of a table has a history. -/
theorem exists_life (hc : c.Sound σ) (hl : σ t = some l)
    (hk : l.schemas[l.head.schemaVersion]? = some k) (name : String) (e : ColumnId × Column)
    (he : (nextDraft l.head k).schema.find? name = some e) :
    ∃ life, (nextDraft l.head k).head.history.get? e.1 = some life := by
  have hmem : e ∈ k.columns.entries := List.mem_of_find?_eq_some he
  have hkey : e.1 ∈ k.columns.keys := List.mem_map_of_mem hmem
  obtain ⟨life, hlife, _⟩ := ((hc.keeps.sound t l hl).chronicle.member _ k hk e.1).1 hkey
  exact ⟨life, hlife⟩

end NextDraft

/-! ### Every operation -/

/-- No plan of an operation blames a record. -/
theorem clean_plan (hc : c.Sound σ) (now : Float) (op : Operation) : Clean (op.plan c now) := by
  cases op with
  | init => exact hc.clean_init.map _
  | createDirectory id parent name => exact (hc.clean_createDirectory id parent name).map _
  | ensureDirectory id name => exact (hc.clean_ensureDirectory id name).map _
  | createTable id spec => exact (hc.clean_createTable now id spec).map _
  | createView id spec => exact (hc.clean_createView now id spec).map _
  | addColumn t v s =>
    refine (hc.clean_schemaMutation now t v fun l k hl _ => ?_).map _
    exact clean_addColumn (hc.clean_visibleColumns_nextDraft hl) hc.clean_calls s
  | renameColumn t v source target =>
    refine clean_guard rfl fun _ => (hc.clean_schemaMutation now t v fun l k hl _ => ?_).map _
    exact clean_renameColumn (hc.clean_visibleColumns_nextDraft hl) source target
  | alterColumn t v name type =>
    refine clean_guard rfl fun _ => (hc.clean_schemaMutation now t v fun l k hl hk => ?_).map _
    exact clean_alterColumn (hc.exists_life hl hk) name type
  | dropColumn t v name =>
    refine (hc.clean_schemaMutation now t v fun l k hl hk => ?_).map _
    exact clean_dropColumn (hc.exists_life hl hk) name
  | setRetention t v retained =>
    refine Clean.map (clean_guard rfl fun _ => ?_) _
    exact hc.clean_schemaMutation now t v fun _ _ _ _ => clean_ok _
  | insertRows t v count =>
    exact (hc.clean_dataMutation now t v fun _ => TableHead.clean_insertRows count).map _
  | updateRows t v rows =>
    exact (hc.clean_dataMutation now t v fun _ => TableHead.clean_updateRows rows).map _
  | deleteRows t v rows =>
    exact (hc.clean_dataMutation now t v fun _ => TableHead.clean_deleteRows rows).map _
  | storeFunction dir f => exact (hc.clean_storeFunction dir f).map _

end Catalog.Sound
end Cadastre
