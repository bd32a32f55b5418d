/-
# Errors that blame a record

Five errors of the catalog and one of functions say that a stored record is
corrupt; all others say that something is refused, or not there. A result is clean
if it is none of these errors. Steps in sequence are clean if each of them is, so
one lemma per function carries this to the operations. What they do to a draft is
clean if the functions that columns call can be looked up, and the columns of the
draft have a history.

Key definitions: `Error.blamesRecord`, `Clean`.
Key theorems: `Error.kind_eq_corruptMetadata_iff`, `Clean.bind`,
`Catalog.clean_checkColumn`, `Catalog.clean_appendColumns`.
-/
import Cadastre.Catalog.Operation

namespace Cadastre

/-! ### The errors -/

/-- The error says that a record, or what belongs to one, is not as it should be. -/
def CatalogError.blamesRecord : CatalogError → Bool
  | undecodable _ => true
  | invalidRecord .. => true
  | unsupportedSchemaVersion .. => true
  | missingRecord _ => true
  | missingHistory .. => true
  | _ => false

def FunctionError.blamesRecord : FunctionError → Bool
  | malformedRecord _ => true
  | _ => false

namespace Error

/-- The error says that a record is corrupt; a cause of the host's says so by its code. -/
def blamesRecord : Error → Bool
  | type _ => false
  | function e => e.blamesRecord
  | catalog e => e.blamesRecord
  | host d => d.kind == .corruptMetadata
  | breakdown _ => false

/-- The errors that blame a record are those of the kind for it. -/
theorem kind_eq_corruptMetadata_iff {e : Error} :
    e.kind = .corruptMetadata ↔ e.blamesRecord = true := by
  cases e with
  | type e =>
    cases e <;> simp only [kind, diagnostic, TypeError.diagnostic, Diagnostic.kind,
      Diagnostic.code, Diagnostic.plain, Diagnostic.withHelp, Diagnostic.withNote,
      Diagnostic.withLabel, blamesRecord] <;> decide +kernel
  | function e =>
    cases e <;> simp only [kind, diagnostic, FunctionError.diagnostic, Diagnostic.kind,
      Diagnostic.code, Diagnostic.plain, Diagnostic.withHelp, Diagnostic.withNote,
      Diagnostic.withLabel, blamesRecord, FunctionError.blamesRecord] <;> decide +kernel
  | catalog e =>
    cases e <;> simp only [kind, diagnostic, CatalogError.diagnostic, Diagnostic.kind,
      Diagnostic.code, Diagnostic.plain, Diagnostic.withHelp, Diagnostic.withNote,
      Diagnostic.withLabel, blamesRecord, CatalogError.blamesRecord] <;> decide +kernel
  | host d => simp [kind, diagnostic, blamesRecord]
  | breakdown message =>
    simp only [kind, diagnostic, Diagnostic.kind, Diagnostic.code, Diagnostic.plain, blamesRecord]
    decide +kernel

end Error

/-! ### Clean results -/

theorem map_eq_error_iff {ε α β : Type} {x : Except ε α} {f : α → β} {e : ε} :
    x.map f = .error e ↔ x = .error e := by
  cases x <;> simp [Except.map]

/-- A result is no error that blames a record. -/
def Clean {α : Type} (x : Except Error α) : Prop :=
  ∀ e, x = .error e → e.blamesRecord = false

section Results

variable {α β : Type} {x : Except Error α}

theorem clean_ok (a : α) : Clean (.ok a : Except Error α) := nofun

theorem clean_error {e : Error} (h : e.blamesRecord = false) :
    Clean (.error e : Except Error α) := by
  intro e' he
  cases he
  exact h

theorem clean_of_eq_ok {a : α} (h : x = .ok a) : Clean x := h ▸ clean_ok a

theorem Clean.bind {f : α → Except Error β} (hx : Clean x) (hf : ∀ a, x = .ok a → Clean (f a)) :
    Clean (x >>= f) := by
  cases x with
  | error e => exact clean_error (hx e rfl)
  | ok a => exact hf a rfl

theorem Clean.map (hx : Clean x) (f : α → β) : Clean (x.map f) := by
  cases x with
  | error e => exact clean_error (hx e rfl)
  | ok a => exact clean_ok _

/-- A step that is refused under a condition is clean if the refusal is, and the
step where there is none. -/
theorem clean_guard {p : Prop} [Decidable p] {e : Error} (he : e.blamesRecord = false)
    (hx : ¬ p → Clean x) : Clean (if p then .error e else x) := by
  by_cases hp : p
  · rw [if_pos hp]
    exact clean_error he
  · rw [if_neg hp]
    exact hx hp

end Results

theorem clean_requireBuffer (bytes : Nat) : Clean (requireBuffer bytes) := by
  unfold requireBuffer
  split
  · exact clean_ok _
  · exact clean_error rfl

/-! ### Checks of columns -/

theorem clean_requireConversionTo (source target : ColumnType) :
    Clean (source.requireConversionTo target) := by
  unfold ColumnType.requireConversionTo
  split
  · exact clean_ok _
  · exact clean_error rfl

theorem Registry.clean_resolve (r : Registry) (path : String) : Clean (r.resolve path) := by
  unfold Registry.resolve
  split
  · exact clean_ok _
  · exact clean_error rfl

namespace Catalog

variable {c : Catalog} {visible : List VisibleColumn} {t : TableId}

theorem clean_checkReference (column name : String) (type : ColumnType) :
    Clean (checkReference column visible name type) := by
  unfold checkReference
  split
  · exact clean_error rfl
  · split
    · exact clean_ok _
    · exact (clean_requireConversionTo _ _).map _

theorem clean_checkCall (hcalls : ∀ f, Clean (c.callSignatures f)) (f : FunctionRef)
    (overload : Nat) (args : List ColumnType) (returnType : ColumnType) :
    Clean (c.checkCall f overload args returnType) := by
  refine (hcalls f).bind fun ⟨name, signatures⟩ _ => ?_
  dsimp only
  split
  · exact clean_error rfl
  · split
    · exact clean_error rfl
    · exact (clean_requireConversionTo _ _).map _

mutual

theorem clean_checkExpr (hcalls : ∀ f, Clean (c.callSignatures f)) (column : String) :
    ∀ e : Expr, Clean (c.checkExpr column visible e)
  | .column name type => by
    rw [checkExpr]
    exact clean_checkReference column name type
  | .var name _ => by
    rw [checkExpr]
    exact clean_error rfl
  | .literal _ => by
    rw [checkExpr]
    exact clean_ok _
  | .call f overload args returnType => by
    rw [checkExpr]
    refine (clean_checkArgs hcalls column args).bind fun _ _ => ?_
    exact clean_checkCall hcalls f overload _ _

theorem clean_checkArgs (hcalls : ∀ f, Clean (c.callSignatures f)) (column : String) :
    ∀ es : List Expr, Clean (c.checkArgs column visible es)
  | [] => by
    rw [checkArgs]
    exact clean_ok _
  | e :: es => by
    rw [checkArgs]
    exact (clean_checkExpr hcalls column e).bind fun _ _ => clean_checkArgs hcalls column es

end

section Checks

variable (hcalls : ∀ f, Clean (c.callSignatures f))
include hcalls

theorem clean_checkComputed (column : String) (type : ColumnType) (v : ComputedValue) :
    Clean (c.checkComputed column type visible v) := by
  cases v with
  | tree j => exact clean_ok _
  | expr e =>
    exact (clean_checkExpr hcalls column e).bind fun _ _ => (clean_requireConversionTo _ _).map _

theorem clean_checkColumn (s : ColumnSpec) : Clean (c.checkColumn s visible) := by
  refine clean_guard rfl fun _ => clean_guard rfl fun _ => clean_guard rfl fun _ => ?_
  split
  · split
    · exact clean_error rfl
    · exact clean_ok _
  · exact clean_guard rfl fun _ => clean_checkComputed hcalls _ _ _

theorem clean_appendColumns (t : TableId) (d : Draft) (visible : List VisibleColumn)
    (specs : List ColumnSpec) : Clean (c.appendColumns t d visible specs) := by
  induction specs generalizing d visible with
  | nil => exact clean_ok _
  | cons s rest ih =>
    refine clean_guard rfl fun _ => (clean_checkColumn hcalls s).bind fun _ _ => ?_
    exact (ih (d.push s) _).bind fun _ _ => clean_ok _

end Checks

theorem clean_newDraft (id : TableId) (name : String) (retained : Option UInt32)
    (comment : String) (view : Option ViewSource) :
    Clean (c.newDraft id name retained comment view) :=
  clean_guard rfl fun _ => clean_guard rfl fun _ => clean_ok _

theorem clean_checkAlteration (column : Column) (type : ColumnType) :
    Clean (checkAlteration column type) := by
  refine (clean_requireConversionTo _ _).bind fun _ _ => ?_
  have hindexed : ∀ _ : Unit, Clean (if column.indexed && !type.isIndexable then
      .error (.catalog (.notIndexable column.name type)) else .ok ()) :=
    fun _ => clean_guard rfl fun _ => clean_ok _
  rcases column.computed with _ | (e | j)
  · exact (clean_ok ()).bind fun _ _ => hindexed ()
  · exact ((clean_requireConversionTo _ _).map _).bind fun _ _ => hindexed ()
  · exact (clean_ok ()).bind fun _ _ => hindexed ()

end Catalog

/-! ### Changes of a draft -/

namespace Draft

variable {d : Draft} {t : TableId}

theorem clean_column (name : String) : Clean (d.column t name) := by
  unfold column
  split
  · exact clean_ok _
  · exact clean_error rfl

theorem clean_requireUnreferenced (name : String) : Clean (d.requireUnreferenced t name) := by
  unfold requireUnreferenced
  split
  · exact clean_error rfl
  · exact clean_ok _

/-- The number of a column that has a history can be retired. -/
theorem clean_retire {id : ColumnId} (h : ∃ l, d.head.history.get? id = some l) :
    Clean (d.retire t id) := by
  obtain ⟨l, hl⟩ := h
  unfold retire
  rw [hl]
  exact clean_ok _

end Draft

namespace Catalog

variable {c : Catalog} {d : Draft} {t : TableId}

section Changes

variable (hvisible : Clean (c.visibleColumns d))
include hvisible

theorem clean_addColumn (hcalls : ∀ f, Clean (c.callSignatures f)) (s : ColumnSpec) :
    Clean (c.addColumn t s d) :=
  hvisible.bind fun _ _ => (clean_appendColumns hcalls t d _ [s]).bind fun _ _ => clean_ok _

theorem clean_renameColumn (source target : String) : Clean (c.renameColumn t source target d) :=
  (Draft.clean_column source).bind fun _ _ => hvisible.bind fun _ _ => clean_guard rfl fun _ =>
    (Draft.clean_requireUnreferenced source).bind fun _ _ => clean_ok _

end Changes

section Retirement

variable (hhistory : ∀ name e, d.schema.find? name = some e →
  ∃ l, d.head.history.get? e.1 = some l)
include hhistory

theorem exists_life_of_column {name : String} {e : ColumnId × Column}
    (h : d.column t name = .ok e) : ∃ l, d.head.history.get? e.1 = some l := by
  unfold Draft.column at h
  split at h
  · cases h
    exact hhistory name _ (by assumption)
  · cases h

theorem clean_alterColumn (name : String) (type : ColumnType) :
    Clean (alterColumn t name type d) := by
  refine (Draft.clean_column name).bind fun ⟨id, column⟩ hcolumn => ?_
  refine (Draft.clean_requireUnreferenced name).bind fun _ _ => ?_
  refine (clean_checkAlteration column type).bind fun _ _ => ?_
  exact (Draft.clean_retire (exists_life_of_column hhistory hcolumn)).bind fun _ _ => clean_ok _

theorem clean_dropColumn (name : String) : Clean (dropColumn t name d) := by
  refine (Draft.clean_column name).bind fun ⟨id, column⟩ hcolumn => clean_guard rfl fun _ => ?_
  refine (Draft.clean_requireUnreferenced name).bind fun _ _ => ?_
  exact (Draft.clean_retire (exists_life_of_column hhistory hcolumn)).bind fun _ _ => clean_ok _

end Retirement
end Catalog

/-! ### Changes of rows -/

namespace TableHead

variable {h : TableHead} {t : TableId}

theorem clean_requireRows : Clean (h.requireRows t) := clean_guard rfl fun _ => clean_ok _

theorem clean_requireAllocated (rows : List RowId) : Clean (h.requireAllocated t rows) := by
  unfold requireAllocated
  split
  · exact clean_error rfl
  · exact clean_ok _

theorem clean_insertRows (count : Nat) : Clean (insertRows t count h) :=
  clean_requireRows.bind fun _ _ => clean_guard rfl fun _ =>
    (clean_requireBuffer _).bind fun _ _ => clean_ok _

theorem clean_updateRows (rows : List RowId) : Clean (updateRows t rows h) :=
  (clean_requireAllocated rows).bind fun _ _ => clean_ok _

theorem clean_deleteRows (rows : List RowId) : Clean (deleteRows t rows h) :=
  clean_requireRows.bind fun _ _ => (clean_requireAllocated rows).bind fun _ _ => clean_ok _

end TableHead
end Cadastre
