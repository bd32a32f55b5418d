/-
# Expanded templates are typed

The body of a template is typed over its parameters if it is typed where each variable
is read as a column of that name (`Expr.asColumns`). A call puts arguments in the place
of the variables, and an argument has a type of its own, which need only convert to
that of its parameter; or it is a null without type. Wherever the variable was passed,
the argument can be passed instead, since what converts to a type that converts on
converts all the way (`ColumnType.PassesTo.trans`). All else in the body keeps its
type, so the calls in it keep accepting what they are given
(`Catalog.checkCall_of_standsFor`), and the expansion is typed over the columns over
which the arguments are (`Catalog.Fills.typed_substitute`).

A template has one parameter of each name, so a variable stands for the argument in its
parameter's place (`Catalog.fills_bindings`).

Key definitions: `Expr.asColumns`, `Parameter.seen`, `Catalog.Fills`,
`BoundFunction.ExpandsBy`.
Key theorems: `Catalog.Fills.typed_substitute`, `Catalog.fills_bindings`,
`Registry.exists_expandsBy_of_bindTemplate`, `Catalog.checkExpr_of_expansion`.
-/
import Cadastre.Proofs.CallBuilding
import Cadastre.Proofs.Declarations

namespace Cadastre

/-! ### The body as columns -/

namespace Expr

mutual

/-- The expression with each variable read as a reference to a column. -/
def asColumns : Expr → Expr
  | var x t => column x t
  | call f i args t => call f i (asColumnsArgs args) t
  | column name t => column name t
  | literal v => literal v

def asColumnsArgs : List Expr → List Expr
  | [] => []
  | e :: es => asColumns e :: asColumnsArgs es

end

theorem type_asColumns (e : Expr) : e.asColumns.type = e.type := by cases e <;> rfl

theorem columnRefs_arg_eq_nil {f : FunctionRef} {overload : Nat} {args : List Expr}
    {t : ColumnType} (h : (call f overload args t).columnRefs = []) {a : Expr} (ha : a ∈ args) :
    a.columnRefs = [] := by
  refine List.eq_nil_iff_forall_not_mem.2 fun name hname => ?_
  have hmem : name ∈ (call f overload args t).columnRefs := mem_columnRefs_of_arg ha hname
  rw [h] at hmem
  cases hmem

end Expr

/-! ### Substitution -/

namespace Signature

theorem StandsFor.refl (t : ColumnType) : StandsFor t t := fun _ h => h

theorem standsFor_of_passesTo {s t : ColumnType} (h : s.PassesTo t) : StandsFor s t := by
  intro p hp
  rw [isSome_argument_iff] at hp ⊢
  exact h.trans hp

end Signature

namespace Catalog

variable {c : Catalog} {visible params : List VisibleColumn} {b : String → Option Expr}

/-- A call passes with arguments that stand for those with which it passes. -/
theorem checkCall_of_standsFor {f : FunctionRef} {overload : Nat} {ss ts : List ColumnType}
    {returnType : ColumnType} (hargs : List.Forall₂ Signature.StandsFor ss ts)
    (h : c.checkCall f overload ts returnType = .ok ()) :
    c.checkCall f overload ss returnType = .ok () := by
  obtain ⟨signatures, s, hfound, hs, haccepts, hreturn⟩ := checkCall_eq_ok_iff_exists.1 h
  have hstill : (s.accepts? ss).isSome = true :=
    Signature.isSome_accepts_of_standsFor hargs haccepts
  exact checkCall_eq_ok_iff_exists.2 ⟨signatures, s, hfound, hs, hstill, hreturn⟩

/-- The bindings have for each parameter an expression that is typed over the visible
columns and may be passed for the parameter. -/
def Fills (c : Catalog) (visible params : List VisibleColumn) (b : String → Option Expr) :
    Prop :=
  ∀ x v, (params.find? fun v => v.name == x) = some v →
    ∃ e, b x = some e ∧ c.Typed visible e ∧ e.type.PassesTo v.type

mutual

/-- An expression over parameters becomes one over the visible columns, which may be
passed wherever the first may. -/
theorem Fills.typed_substitute (hb : c.Fills visible params b) : ∀ {e : Expr},
    e.columnRefs = [] → c.Typed params e.asColumns →
      c.Typed visible (e.substitute b) ∧ Signature.StandsFor (e.substitute b).type e.type
  | .column name t, hcolumns, _ => by cases hcolumns
  | .literal v, _, _ => ⟨.literal, .refl _⟩
  | .var x t, _, h => by
    cases h with
    | @column _ _ v hfind htype =>
      obtain ⟨e, he, htyped, hpasses⟩ := hb x v hfind
      have hstands : e.type.PassesTo t := by
        rcases htype with rfl | hconverts
        · exact hpasses
        · exact hpasses.trans (.inr (ColumnType.isSome_conversionTo_iff.1 hconverts))
      rw [Expr.substitute, he]
      exact ⟨htyped, Signature.standsFor_of_passesTo hstands⟩
  | .call f i args t, hcolumns, h => by
    cases h with
    | call hargs hcall =>
      obtain ⟨htyped, hstands⟩ := hb.typed_substituteArgs
        (fun a ha => Expr.columnRefs_arg_eq_nil hcolumns ha) hargs
      exact ⟨.call htyped (checkCall_of_standsFor hstands hcall), .refl _⟩

theorem Fills.typed_substituteArgs (hb : c.Fills visible params b) : ∀ {es : List Expr},
    (∀ e ∈ es, e.columnRefs = []) → (∀ a ∈ Expr.asColumnsArgs es, c.Typed params a) →
      (∀ a ∈ Expr.substituteArgs b es, c.Typed visible a) ∧
        List.Forall₂ Signature.StandsFor ((Expr.substituteArgs b es).map Expr.type)
          ((Expr.asColumnsArgs es).map Expr.type)
  | [], _, _ => ⟨List.forall_mem_nil _, .nil⟩
  | e :: es, hcolumns, h => by
    rw [List.forall_mem_cons] at hcolumns
    rw [Expr.asColumnsArgs, List.forall_mem_cons] at h
    obtain ⟨he, hstands⟩ := hb.typed_substitute hcolumns.1 h.1
    obtain ⟨hes, hstandsArgs⟩ := hb.typed_substituteArgs hcolumns.2 h.2
    rw [← Expr.type_asColumns e] at hstands
    exact ⟨List.forall_mem_cons.2 ⟨he, hes⟩, .cons hstands hstandsArgs⟩

end

end Catalog

/-! ### Arguments in the place of parameters -/

/-- A parameter as the body of a template sees it. -/
def Parameter.seen (p : Parameter) : VisibleColumn := ⟨p.name, p.type⟩

theorem ExprTemplate.bindings_eq_none {ps : List Parameter} {args : List Expr} {x : String}
    (h : x ∉ ps.map Parameter.name) : bindings ps args x = none := by
  induction ps generalizing args with
  | nil => rfl
  | cons p ps ih =>
    rw [List.map_cons, List.mem_cons, not_or] at h
    unfold bindings
    rw [ih h.2]
    exact if_neg h.1

/-- Parameters of distinct names stand for the arguments in their places. -/
theorem Catalog.fills_bindings {c : Catalog} {visible : List VisibleColumn}
    {ps : List Parameter} {args : List Expr} (hdistinct : (ps.map Parameter.name).Nodup)
    (hlength : args.length = ps.length) (htyped : ∀ a ∈ args, c.Typed visible a)
    (haccepts : (Signature.acceptsFrom? (args.map Expr.type) ps).isSome = true) :
    c.Fills visible (ps.map Parameter.seen) (ExprTemplate.bindings ps args) := by
  induction ps generalizing args with
  | nil => exact fun x v hfind => by cases hfind
  | cons p ps ih =>
    cases args with
    | nil => cases hlength
    | cons a args =>
      rw [List.map_cons, List.nodup_cons] at hdistinct
      rw [List.map_cons, Signature.isSome_acceptsFrom_cons_iff] at haccepts
      rw [List.forall_mem_cons] at htyped
      have hrest := ih hdistinct.2 (Nat.succ.inj hlength) htyped.2 haccepts.2
      intro x v hfind
      rw [List.map_cons, List.find?_cons] at hfind
      rw [ExprTemplate.bindings, List.tail_cons]
      by_cases hx : p.name = x
      · have hhead : (p.seen.name == x) = true := beq_iff_eq.2 hx
        rw [hhead] at hfind
        cases hfind
        rw [ExprTemplate.bindings_eq_none (hx ▸ hdistinct.1)]
        refine ⟨a, if_pos hx.symm, htyped.1, ?_⟩
        exact Signature.isSome_argument_iff.1 haccepts.1
      · have hhead : (p.seen.name == x) = false := beq_false_of_ne hx
        rw [hhead] at hfind
        obtain ⟨e, he, hpassed⟩ := hrest x v hfind
        rw [he]
        exact ⟨e, rfl, hpassed⟩

/-! ### Functions of one template -/

/-- The function has one overload, whose calls are expanded by the template; the
parameters of the two agree, and no two have one name. -/
structure BoundFunction.ExpandsBy (f : BoundFunction) (s : Signature) (t : ExprTemplate) :
    Prop where
  signatures : f.signatures = [s]
  implementation : f.implementation = .templates [t]
  seen : t.signature.parameters.map Parameter.seen = s.parameters.map Parameter.seen
  accepts : ∀ args, t.signature.accepts? args = s.accepts? args
  distinct : (s.parameters.map Parameter.name).Nodup

theorem Signature.map_seen_eq_of_same {ps qs : List Parameter}
    (h : allSame Parameter.same ps qs = true) :
    ps.map Parameter.seen = qs.map Parameter.seen := by
  rw [allSame_iff_forall₂] at h
  induction h with
  | nil => rfl
  | cons hpq _ ih =>
    obtain ⟨hname, htype, _⟩ := Parameter.same_iff.1 hpq
    rw [List.map_cons, List.map_cons, ih, Parameter.seen, Parameter.seen, hname, htype]

theorem Parameter.map_name_seen (ps : List Parameter) :
    (ps.map Parameter.seen).map VisibleColumn.name = ps.map Parameter.name := by
  rw [List.map_map]
  rfl

namespace BoundFunction

variable {f g : BoundFunction} {s : Signature} {t : ExprTemplate}

/-- A function that is declared by a template is expanded by it. -/
theorem exists_expandsBy_of_ofTemplate {id : FunctionId} {d : FunctionDescriptor}
    {paramTypes : Option (List ColumnType)} {build : List Expr → Except Error Expr}
    (h : ofTemplate id d paramTypes build = .ok f) : ∃ s t, f.ExpandsBy s t := by
  obtain ⟨parameters, hparameters, h⟩ := bind_eq_ok_iff.1 h
  obtain ⟨_, h⟩ := guard_eq_ok_iff.1 h
  obtain ⟨body, _, h⟩ := bind_eq_ok_iff.1 h
  obtain ⟨_, h⟩ := guard_eq_ok_iff.1 h
  cases h
  obtain ⟨_, hdistinct⟩ := FunctionDescriptor.parameters_spec hparameters
  exact ⟨_, _, rfl, rfl, rfl, fun _ => rfl, hdistinct⟩

/-- So is a function that is compatible with one that is. -/
theorem ExpandsBy.of_isCompatibleWith (hf : f.ExpandsBy s t) (h : g.isCompatibleWith f = true) :
    ∃ s t, g.ExpandsBy s t := by
  obtain ⟨himplementation, hsignatures, _⟩ := isCompatibleWith_iff.1 h
  rw [hf.signatures, allSame_singleton_iff] at hsignatures
  obtain ⟨s', hs', hsame⟩ := hsignatures
  rw [hf.implementation] at himplementation
  cases hg : g.implementation with
  | callables cs =>
    rw [hg] at himplementation
    cases himplementation
  | templates ts =>
    rw [hg, sameImplementation, allSame_singleton_iff] at himplementation
    obtain ⟨t', rfl, hsame'⟩ := himplementation
    have hsignature : t'.signature.same t.signature = true := (Bool.and_eq_true_iff.1 hsame').1
    have hseen := Signature.map_seen_eq_of_same (Signature.same_iff.1 hsame).1
    refine ⟨s', t', hs', hg, ?_, fun args => ?_, ?_⟩
    · rw [Signature.map_seen_eq_of_same (Signature.same_iff.1 hsignature).1, hf.seen, hseen]
    · rw [Signature.accepts_eq_of_same hsignature, hf.accepts, Signature.accepts_eq_of_same hsame]
    · rw [← Parameter.map_name_seen, hseen, Parameter.map_name_seen]
      exact hf.distinct

/-- The call of a template is its expansion. -/
theorem ExpandsBy.callExpr_eq (hf : f.ExpandsBy s t) {args : List Expr} {i : Nat}
    {cs : List Conversion} (h : f.resolveOverload (args.map Expr.type) = .ok (i, cs)) :
    s.accepts? (args.map Expr.type) = some cs ∧ f.callExpr args = .ok (t.instantiate args) := by
  obtain ⟨⟨j, s', ds⟩, hresolve, heq⟩ := map_eq_ok_iff.1 h
  cases heq
  obtain ⟨hget, haccepts⟩ := resolve_eq_ok hresolve
  -- the only overload
  rw [hf.signatures] at hget
  obtain ⟨rfl, rfl⟩ : i = 0 ∧ s' = s := by
    cases i with
    | zero => exact ⟨rfl, (Option.some.inj hget).symm⟩
    | succ i => cases hget
  refine ⟨haccepts, ?_⟩
  rw [callExpr, hresolve, hf.implementation]
  rfl

end BoundFunction

/-- What the binding of a template answers is expanded by a template. -/
theorem Registry.exists_expandsBy_of_bindTemplate {r : Registry} {id : FunctionId}
    {d : FunctionDescriptor} {paramTypes : Option (List ColumnType)}
    {build : List Expr → Except Error Expr} {f : BoundFunction}
    (h : (r.bindTemplate id d paramTypes build).1.result = .ok f) : ∃ s t, f.ExpandsBy s t := by
  cases hmade : BoundFunction.ofTemplate id d paramTypes build with
  | error e =>
    rw [bindTemplate, hmade] at h
    cases h
  | ok g =>
    rw [bindTemplate, hmade] at h
    obtain ⟨s, t, hg⟩ := BoundFunction.exists_expandsBy_of_ofTemplate hmade
    rcases eq_or_lookup_of_registerResult h with rfl | ⟨_, _, _, hcompatible⟩
    · exact ⟨s, t, hg⟩
    · exact hg.of_isCompatibleWith hcompatible

/-- If the body of a template is typed over its parameters, then the call of the
template with arguments that are typed over other columns, one for each parameter, and
that it accepts, is built, and is typed over these columns. -/
theorem Catalog.checkExpr_of_expansion {c : Catalog} {r : Registry} {id : FunctionId}
    {d : FunctionDescriptor} {paramTypes : Option (List ColumnType)}
    {build : List Expr → Except Error Expr} {f : BoundFunction}
    (hbind : (r.bindTemplate id d paramTypes build).1.result = .ok f) {s : Signature}
    {t : ExprTemplate} (hs : f.signatures = [s]) (ht : f.implementation = .templates [t])
    {name : String} (hcolumns : t.body.columnRefs = [])
    (hbody : c.checkExpr name (s.parameters.map Parameter.seen) t.body.asColumns = .ok ())
    {column : String} {visible : List VisibleColumn} {args : List Expr}
    (hlength : args.length = s.parameters.length)
    (hargs : ∀ a ∈ args, c.checkExpr column visible a = .ok ()) {i : Nat} {cs : List Conversion}
    (haccepts : f.resolveOverload (args.map Expr.type) = .ok (i, cs)) :
    ∃ e, f.callExpr args = .ok e ∧ c.checkExpr column visible e = .ok () := by
  obtain ⟨s', t', hf⟩ := Registry.exists_expandsBy_of_bindTemplate hbind
  obtain rfl : s = s' := List.singleton_inj.1 (hs.symm.trans hf.signatures)
  obtain rfl : t = t' :=
    List.singleton_inj.1 (Implementation.templates.inj (ht.symm.trans hf.implementation))
  obtain ⟨haccepted, hcall⟩ := hf.callExpr_eq haccepts
  rw [← hf.accepts] at haccepted
  have hfrom := Signature.acceptsFrom_of_accepts haccepted
  have hdistinct : (t.signature.parameters.map Parameter.name).Nodup := by
    rw [← Parameter.map_name_seen, hf.seen, Parameter.map_name_seen]
    exact hf.distinct
  have hparameters : args.length = t.signature.parameters.length := by
    have hlengths := congrArg List.length hf.seen
    rw [List.length_map, List.length_map] at hlengths
    rw [hlength, hlengths]
  have hfills : c.Fills visible (s.parameters.map Parameter.seen)
      (ExprTemplate.bindings t.signature.parameters args) := by
    rw [← hf.seen]
    refine fills_bindings hdistinct hparameters (fun a ha => checkExpr_eq_ok_iff.1 (hargs a ha))
      ?_
    rw [hfrom]
    rfl
  refine ⟨t.instantiate args, hcall, checkExpr_eq_ok_iff.2 ?_⟩
  exact (hfills.typed_substitute hcolumns (checkExpr_eq_ok_iff.1 hbody)).1

namespace Sample

/-- A declaration over arrays of bytes of any shape. -/
def headDescriptor : FunctionDescriptor where
  name := "head"
  module := none
  qualifiedName := "head"
  params := [⟨"bytes", .known (.array none .int8), none, false⟩]
  result := ⟨.unspecified, false⟩

/-- Two calls, one in the other, with the overload for arrays of any shape. -/
def headOf (e : Expr) : Expr :=
  .call (.path "arrays.first") 1
    [.call (.path "arrays.first") 1 [e] (.array none .int8)] (.array none .int8)

/-- The template of the calls. -/
def headTemplate : ExprTemplate where
  signature := ⟨[⟨"bytes", .array none .int8, none, false⟩], .array none .int8, false⟩
  body := headOf (.var "bytes" (.array none .int8))

/-- The function of the template. -/
def head : BoundFunction where
  id := .ofNat 6
  name := "head"
  path := none
  signatures := [headTemplate.signature]
  implementation := .templates [headTemplate]
  batchSize := none
  isMethod := false
  isProperty := false
  pool := none

end Sample

/-- A column of pairs of bytes is put in the place of a parameter for arrays of any
shape; the calls keep the overload that they had, although there is one for pairs. -/
theorem Sample.checkExpr_head :
    (Registry.bindTemplate (Sample.registering Sample.first).registry (.ofNat 6)
        Sample.headDescriptor none fun args => do
          let e ← Sample.first.callExpr args
          Sample.first.callExpr [e]).1.result = .ok Sample.head ∧
      Sample.headTemplate.body.columnRefs = [] ∧
      (Sample.registering Sample.first).checkExpr "head"
        (Sample.headTemplate.signature.parameters.map Parameter.seen)
        Sample.headTemplate.body.asColumns = .ok () ∧
      (∀ a ∈ [Expr.column "pair" (.array (some [2]) .int8)],
        (Sample.registering Sample.first).checkExpr "byte" [⟨"pair", .array (some [2]) .int8⟩] a =
          .ok ()) ∧
      Sample.head.resolveOverload [.array (some [2]) .int8] = .ok (0, [.noop]) ∧
      Sample.head.callExpr [.column "pair" (.array (some [2]) .int8)] =
        .ok (Sample.headOf (.column "pair" (.array (some [2]) .int8))) ∧
      ∃ e, Sample.head.callExpr [.column "pair" (.array (some [2]) .int8)] = .ok e ∧
        (Sample.registering Sample.first).checkExpr "byte" [⟨"pair", .array (some [2]) .int8⟩] e =
          .ok () := by
  have hbind : (Registry.bindTemplate (Sample.registering Sample.first).registry (.ofNat 6)
      Sample.headDescriptor none fun args => do
        let e ← Sample.first.callExpr args
        Sample.first.callExpr [e]).1.result = .ok Sample.head := rfl
  have hbody : (Sample.registering Sample.first).checkExpr "head"
      (Sample.headTemplate.signature.parameters.map Parameter.seen)
      Sample.headTemplate.body.asColumns = .ok () := rfl
  have hargs : ∀ a ∈ [Expr.column "pair" (.array (some [2]) .int8)],
      (Sample.registering Sample.first).checkExpr "byte" [⟨"pair", .array (some [2]) .int8⟩] a =
        .ok () := by
    intro a ha
    rw [List.mem_singleton.1 ha]
    rfl
  have haccepts : Sample.head.resolveOverload [.array (some [2]) .int8] = .ok (0, [.noop]) := rfl
  exact ⟨hbind, rfl, hbody, hargs, haccepts, rfl,
    Catalog.checkExpr_of_expansion hbind rfl rfl rfl hbody rfl hargs haccepts⟩

end Cadastre
