/-
# Typed value expressions

A value expression is typed over columns if every column that it names is one
of them and has the stated type or converts to it, every call names an overload
that takes the arguments, and no variable is left in it. The check of an
expression succeeds exactly if it is typed (`Catalog.checkExpr_eq_ok_iff`), and
that of a column exactly if the column is valid (`Catalog.checkColumn_eq_ok_iff`).

Whether an expression is typed depends on no more than the columns of the names
that it refers to, and it stays typed if the functions that it calls keep their
signatures (`Catalog.Typed.congr`).

Key definitions: `Expr.Within`, `Catalog.signaturesOf`, `Catalog.Typed`,
`ColumnSpec.Valid`, `ColumnSpec.refs`, `ColumnSpec.Calls`.
Key theorems: `Expr.within_iff_exists_place`, `Expr.mem_columnRefs_iff`,
`Catalog.checkCall_eq_ok_iff_exists`, `Catalog.checkExpr_eq_ok_iff`,
`Catalog.checkColumn_eq_ok_iff`, `Catalog.Typed.within`, `Catalog.Typed.congr`,
`ColumnSpec.Valid.congr`.
-/
import Cadastre.Catalog.Column
import Cadastre.Proofs.ColumnReferences
import Cadastre.Proofs.Ledger

namespace Cadastre

theorem guard_eq_ok_iff {ε α : Type} {b : Bool} {e : ε} {x : Except ε α} {a : α} :
    (if b = true then .error e else x) = .ok a ↔ b = false ∧ x = .ok a := by
  cases b <;> simp

/-! ### The parts of an expression -/

namespace Expr

/-- The first expression is the second one or stands in it. -/
inductive Within (x : Expr) : Expr → Prop
  | refl : Within x x
  | arg {f : FunctionRef} {overload : Nat} {args : List Expr} {t : ColumnType} {a : Expr}
      (ha : a ∈ args) (h : Within x a) : Within x (call f overload args t)

/-- A function is called somewhere in the expression. -/
def Calls (e : Expr) (f : FunctionRef) : Prop :=
  ∃ overload args t, (call f overload args t).Within e

/-- What stands in an expression stands at a place of it. -/
theorem within_iff_exists_place {x e : Expr} : x.Within e ↔ ∃ p, e.at? p = some x := by
  constructor
  · intro h
    induction h with
    | refl => exact ⟨[], rfl⟩
    | arg ha _ ih =>
      obtain ⟨p, hp⟩ := ih
      obtain ⟨i, hi⟩ := List.mem_iff_getElem?.1 ha
      exact ⟨i :: p, at?_cons_eq_some_iff.2 ⟨_, hi, hp⟩⟩
  · rintro ⟨p, hp⟩
    induction p generalizing e with
    | nil =>
      cases hp
      exact .refl
    | cons i p ih =>
      obtain ⟨a, ha, hx⟩ := at?_cons_eq_some_iff.1 hp
      cases e with
      | call f overload args t => exact .arg (List.mem_of_getElem? ha) (ih hx)
      | _ => simp [arguments] at ha

/-- The references of an expression are the names of its columns. -/
theorem mem_columnRefs_iff {name : String} {e : Expr} :
    name ∈ e.columnRefs ↔ ∃ t, (column name t).Within e := by
  rw [mem_columnRefs_iff_exists_place, exists_comm]
  simp only [within_iff_exists_place]

theorem mem_columnRefs_of_arg {name : String} {f : FunctionRef} {overload : Nat} {args : List Expr}
    {t : ColumnType} {a : Expr} (ha : a ∈ args) (h : name ∈ a.columnRefs) :
    name ∈ (call f overload args t).columnRefs := by
  obtain ⟨s, hs⟩ := mem_columnRefs_iff.1 h
  exact mem_columnRefs_iff.2 ⟨s, .arg ha hs⟩

theorem Calls.arg {f g : FunctionRef} {overload : Nat} {args : List Expr} {t : ColumnType}
    {a : Expr} (ha : a ∈ args) (h : a.Calls g) : (call f overload args t).Calls g := by
  obtain ⟨i, as, s, hw⟩ := h
  exact ⟨i, as, s, .arg ha hw⟩

end Expr

/-! ### Typing -/

theorem ColumnType.requireConversionTo_map_eq_ok_iff {s t : ColumnType} :
    ((s.requireConversionTo t).map fun _ => ()) = .ok () ↔ (s.conversionTo? t).isSome = true := by
  rw [requireConversionTo]
  cases s.conversionTo? t <;> simp [Except.map]

namespace Catalog

/-- The signatures under which a function is called. -/
def signaturesOf (c : Catalog) (f : FunctionRef) : Except Error (List Signature) :=
  (c.callSignatures f).map (·.2)

/-- A value expression is typed over the visible columns. -/
inductive Typed (c : Catalog) (visible : List VisibleColumn) : Expr → Prop
  | column {name : String} {type : ColumnType} {v : VisibleColumn}
      (hfind : (visible.find? fun v => v.name == name) = some v)
      (htype : v.type = type ∨ (v.type.conversionTo? type).isSome = true) :
      Typed c visible (.column name type)
  | literal {v : Value} : Typed c visible (.literal v)
  | call {f : FunctionRef} {overload : Nat} {args : List Expr} {returnType : ColumnType}
      (hargs : ∀ a ∈ args, Typed c visible a)
      (hcall : c.checkCall f overload (args.map Expr.type) returnType = .ok ()) :
      Typed c visible (.call f overload args returnType)

theorem checkReference_eq_ok_iff {column name : String} {visible : List VisibleColumn}
    {type : ColumnType} : checkReference column visible name type = .ok () ↔
      ∃ v, (visible.find? fun v => v.name == name) = some v ∧
        (v.type = type ∨ (v.type.conversionTo? type).isSome = true) := by
  rw [checkReference]
  cases visible.find? fun v => v.name == name with
  | none => simp
  | some v =>
    simp only [Option.some.injEq, exists_eq_left']
    split
    · rename_i htype
      simp [htype]
    · rename_i htype
      rw [ColumnType.requireConversionTo_map_eq_ok_iff, or_iff_right htype]

section

variable {c c' : Catalog} {visible visible' : List VisibleColumn}

mutual

/-- An expression passes the check exactly if it is typed. -/
theorem checkExpr_eq_ok_iff {column : String} : ∀ {e : Expr},
    c.checkExpr column visible e = .ok () ↔ c.Typed visible e
  | .column name type => by
    rw [checkExpr, checkReference_eq_ok_iff]
    constructor
    · rintro ⟨v, hfind, htype⟩
      exact .column hfind htype
    · rintro ⟨hfind, htype⟩
      exact ⟨_, hfind, htype⟩
  | .var x t => by
    rw [checkExpr]
    constructor <;> intro h <;> cases h
  | .literal v => by
    rw [checkExpr]
    exact ⟨fun _ => .literal, fun _ => rfl⟩
  | .call f overload args returnType => by
    rw [checkExpr, bind_eq_ok_iff]
    constructor
    · rintro ⟨_, hargs, hcall⟩
      exact .call (checkArgs_eq_ok_iff.1 hargs) hcall
    · intro h
      cases h with
      | call hargs hcall => exact ⟨(), checkArgs_eq_ok_iff.2 hargs, hcall⟩

theorem checkArgs_eq_ok_iff {column : String} : ∀ {es : List Expr},
    c.checkArgs column visible es = .ok () ↔ ∀ e ∈ es, c.Typed visible e
  | [] => by simp [checkArgs]
  | e :: es => by
    rw [checkArgs, bind_eq_ok_iff, List.forall_mem_cons]
    constructor
    · rintro ⟨_, he, hes⟩
      exact ⟨checkExpr_eq_ok_iff.1 he, checkArgs_eq_ok_iff.1 hes⟩
    · rintro ⟨he, hes⟩
      exact ⟨(), checkExpr_eq_ok_iff.2 he, checkArgs_eq_ok_iff.2 hes⟩

end

/-- A call passes the check exactly if the overload that it names accepts the arguments
and returns what converts to the stated type. -/
theorem checkCall_eq_ok_iff_exists {f : FunctionRef} {overload : Nat} {args : List ColumnType}
    {returnType : ColumnType} : c.checkCall f overload args returnType = .ok () ↔
      ∃ signatures s, c.signaturesOf f = .ok signatures ∧ signatures[overload]? = some s ∧
        (s.accepts? args).isSome = true ∧ (s.returnType.conversionTo? returnType).isSome = true := by
  constructor
  · intro h
    obtain ⟨⟨name, signatures⟩, hfound, h⟩ := bind_eq_ok_iff.1 h
    dsimp only at h
    split at h
    · cases h
    · rename_i s hs
      obtain ⟨haccepts, hreturn⟩ := guard_eq_ok_iff.1 h
      exact ⟨signatures, s, map_eq_ok_iff.2 ⟨_, hfound, rfl⟩, hs,
        Option.isNone_eq_false_iff.1 haccepts,
        ColumnType.requireConversionTo_map_eq_ok_iff.1 hreturn⟩
  · rintro ⟨signatures, s, hfound, hs, haccepts, hreturn⟩
    -- the name of the function is for errors only
    obtain ⟨⟨name, signatures⟩, hcalled, rfl⟩ := map_eq_ok_iff.1 hfound
    refine bind_eq_ok_iff.2 ⟨_, hcalled, ?_⟩
    dsimp only at hs ⊢
    rw [hs]
    exact guard_eq_ok_iff.2 ⟨Option.isNone_eq_false_iff.2 haccepts,
      ColumnType.requireConversionTo_map_eq_ok_iff.2 hreturn⟩

/-- A call passes the check as long as the function keeps its signatures. -/
theorem checkCall_mono {f : FunctionRef} {overload : Nat} {args : List ColumnType}
    {returnType : ColumnType}
    (hf : ∀ signatures, c.signaturesOf f = .ok signatures → c'.signaturesOf f = .ok signatures)
    (h : c.checkCall f overload args returnType = .ok ()) :
    c'.checkCall f overload args returnType = .ok () := by
  obtain ⟨signatures, s, hfound, hs, haccepts, hreturn⟩ := checkCall_eq_ok_iff_exists.1 h
  exact checkCall_eq_ok_iff_exists.2 ⟨signatures, s, hf signatures hfound, hs, haccepts, hreturn⟩

/-- The parts of a typed expression are typed. -/
theorem Typed.within {e x : Expr} (h : c.Typed visible e) (hx : x.Within e) :
    c.Typed visible x := by
  induction hx with
  | refl => exact h
  | arg ha _ ih =>
    cases h with
    | call hargs => exact ih (hargs _ ha)

/-- A typed expression refers to visible columns. -/
theorem Typed.exists_of_mem_columnRefs {e : Expr} (h : c.Typed visible e) {name : String}
    (hname : name ∈ e.columnRefs) : ∃ v ∈ visible, v.name = name := by
  obtain ⟨t, hw⟩ := Expr.mem_columnRefs_iff.1 hname
  cases h.within hw with
  | column hfind => exact ⟨_, List.mem_of_find?_eq_some hfind, by simpa using List.find?_some hfind⟩

/-- An expression stays typed where it finds the same columns under the names it
refers to, if the functions that it calls keep their signatures. -/
theorem Typed.congr {e : Expr} (h : c.Typed visible e)
    (hcolumns : ∀ name ∈ e.columnRefs,
      (visible'.find? fun v => v.name == name) = visible.find? fun v => v.name == name)
    (hcalls : ∀ f, e.Calls f → ∀ signatures, c.signaturesOf f = .ok signatures →
      c'.signaturesOf f = .ok signatures) : c'.Typed visible' e := by
  induction h with
  | @column name type v hfind htype =>
    have hself : name ∈ (Expr.column name type).columnRefs :=
      Expr.mem_columnRefs_iff.2 ⟨type, .refl⟩
    exact .column ((hcolumns name hself).trans hfind) htype
  | literal => exact .literal
  | call _ hcall ih =>
    refine .call (fun a ha => ih a ha (fun name hname => ?_) fun f hf => ?_)
      (checkCall_mono (hcalls _ ⟨_, _, _, .refl⟩) hcall)
    · exact hcolumns name (Expr.mem_columnRefs_of_arg ha hname)
    · exact hcalls f (hf.arg ha)

end

end Catalog

/-! ### Valid columns -/

namespace ColumnSpec

/-- A column as value expressions see it. -/
def seen (s : ColumnSpec) : VisibleColumn := ⟨s.name, s.type⟩

/-- The names that the value of a column refers to. -/
def refs (s : ColumnSpec) : List String := (s.computed.map ComputedValue.columnRefs).getD []

/-- The value of a column calls a function. -/
def Calls (s : ColumnSpec) (f : FunctionRef) : Prop :=
  ∃ e, s.computed = some (.expr e) ∧ e.Calls f

/-- A column is as it may be added behind the visible columns, apart from its
name being new. -/
structure Valid (c : Catalog) (visible : List VisibleColumn) (s : ColumnSpec) : Prop where
  named : isIdentifier s.name = true
  typed : s.type.isInvalid = false
  indexed : s.indexed = true → s.type.isIndexable = true
  plain : s.computed = none → s.stored = none
  key : s.isKey = true → s.computed = none
  value : ∀ e, s.computed = some (.expr e) → c.Typed visible e ∧
    (e.type.conversionTo? s.type).isSome = true

theorem mem_refs_iff {s : ColumnSpec} {name : String} :
    name ∈ s.refs ↔ ∃ v, s.computed = some v ∧ name ∈ v.columnRefs := by
  rw [refs]
  cases s.computed <;> simp

end ColumnSpec

theorem Catalog.checkComputed_eq_ok_iff {c : Catalog} {column : String} {type : ColumnType}
    {visible : List VisibleColumn} {v : ComputedValue} :
    c.checkComputed column type visible v = .ok () ↔ ∀ e, v = .expr e → c.Typed visible e ∧
      (e.type.conversionTo? type).isSome = true := by
  cases v with
  | tree j =>
    refine ⟨fun _ e h => ?_, fun _ => rfl⟩
    cases h
  | expr e =>
    rw [checkComputed, bind_eq_ok_iff]
    constructor
    · rintro ⟨_, he, hconversion⟩ e' h
      cases h
      exact ⟨checkExpr_eq_ok_iff.1 he,
        ColumnType.requireConversionTo_map_eq_ok_iff.1 hconversion⟩
    · intro h
      obtain ⟨he, hconversion⟩ := h e rfl
      exact ⟨(), checkExpr_eq_ok_iff.2 he,
        ColumnType.requireConversionTo_map_eq_ok_iff.2 hconversion⟩

/-- A column passes the check exactly if it is valid. -/
theorem Catalog.checkColumn_eq_ok_iff {c : Catalog} {s : ColumnSpec}
    {visible : List VisibleColumn} : c.checkColumn s visible = .ok () ↔ s.Valid c visible := by
  rw [checkColumn, guard_eq_ok_iff, guard_eq_ok_iff, guard_eq_ok_iff]
  have hnamed : (!isIdentifier s.name) = false ↔ isIdentifier s.name = true := by simp
  have hindexed : (s.indexed && !s.type.isIndexable) = false ↔
      (s.indexed = true → s.type.isIndexable = true) := by
    cases s.indexed <;> simp
  rw [hnamed, hindexed]
  cases hcomputed : s.computed with
  | none =>
    dsimp only
    rw [guard_eq_ok_iff, Option.isSome_eq_false_iff, Option.isNone_iff_eq_none]
    constructor
    · rintro ⟨hnamed, htyped, hindexed, hstored, -⟩
      refine ⟨hnamed, htyped, hindexed, fun _ => hstored, fun _ => hcomputed, fun e he => ?_⟩
      rw [hcomputed] at he
      cases he
    · intro h
      exact ⟨h.named, h.typed, h.indexed, h.plain hcomputed, rfl⟩
  | some v =>
    dsimp only
    rw [guard_eq_ok_iff, checkComputed_eq_ok_iff]
    constructor
    · rintro ⟨hnamed, htyped, hindexed, hkey, hvalue⟩
      refine ⟨hnamed, htyped, hindexed, fun hnone => ?_, fun h => ?_, fun e he => hvalue e ?_⟩
      · rw [hcomputed] at hnone
        cases hnone
      · rw [hkey] at h
        cases h
      · rw [hcomputed] at he
        exact Option.some.inj he
    · intro h
      have hkey : s.isKey = false := by
        refine Bool.eq_false_iff.2 fun hkey => ?_
        rw [h.key hkey] at hcomputed
        cases hcomputed
      exact ⟨h.named, h.typed, h.indexed, hkey, fun e he => h.value e (he ▸ hcomputed)⟩

namespace ColumnSpec.Valid

variable {c c' : Catalog} {visible visible' : List VisibleColumn} {s : ColumnSpec}

/-- The value of a valid column refers to visible columns. -/
theorem exists_of_mem_refs (h : s.Valid c visible) {name : String} (hname : name ∈ s.refs) :
    ∃ v ∈ visible, v.name = name := by
  obtain ⟨v, hcomputed, hname⟩ := mem_refs_iff.1 hname
  cases v with
  | tree j => cases hname
  | expr e => exact (h.value e hcomputed).1.exists_of_mem_columnRefs hname

/-- A column stays valid where its value finds the same columns, if the
functions that it calls keep their signatures. -/
theorem congr (h : s.Valid c visible)
    (hcolumns : ∀ name ∈ s.refs,
      (visible'.find? fun v => v.name == name) = visible.find? fun v => v.name == name)
    (hcalls : ∀ f, s.Calls f → ∀ signatures, c.signaturesOf f = .ok signatures →
      c'.signaturesOf f = .ok signatures) : s.Valid c' visible' := by
  refine ⟨h.named, h.typed, h.indexed, h.plain, h.key, fun e he => ?_⟩
  obtain ⟨htyped, hconversion⟩ := h.value e he
  refine ⟨htyped.congr (fun name hname => ?_) fun f hf => ?_, hconversion⟩
  · exact hcolumns name (mem_refs_iff.2 ⟨_, he, hname⟩)
  · exact hcalls f ⟨e, he, hf⟩

end ColumnSpec.Valid
end Cadastre
