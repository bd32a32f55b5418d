/-
# The type of a call

A call of a callable states the type that its overload returns. A call of a template is
the body of the template with the arguments in it, and so has the type of the body, which
is the type that the template's only overload returns: an expression has the type of its
root, and arguments come in below (`Expr.type_substitute`).

They do so unless the body is nothing but a variable. Then the call is the argument
itself, or the default as a literal (`ExprTemplate.bindings_eq_of_getElem`). Nothing
converts it, for an expression has no conversion in it: the call has the type of the
argument, which only needs to pass to that of the parameter (`Registry.callSites`,
`Sample.string_moment`).

Key definitions: `BoundFunction.ExpandsTo`, `Parameter.Placed`.
Key theorems: `Expr.type_substitute`, `ExprTemplate.bindings_eq_of_getElem`,
`Registry.exists_typed_of_bindTemplate`, `Registry.callSites`.
-/
import Cadastre.Proofs.ConcreteTypes

namespace Cadastre

/-! ### Bodies -/

namespace Expr

/-- Expressions that are the same have one type. -/
theorem type_eq_of_same {a b : Expr} (h : a.same b = true) : a.type = b.type := by
  cases a with
  | literal v =>
    cases b with
    | literal w => cases v <;> cases w <;> simp_all [same, Value.same, type, Value.type]
    | _ => cases h
  | _ => cases b <;> simp_all [same, type]

/-- Only a variable that stands for an expression changes its type with it. -/
theorem type_substitute {b : String → Option Expr} {e : Expr}
    (h : ∀ x u, e = var x u → b x = none) : (e.substitute b).type = e.type := by
  cases e with
  | var x u => rw [substitute, h x u rfl]
  | _ => rfl

end Expr

/-! ### The place of a parameter -/

/-- A call with the arguments has the expression in the place of the parameter, which is
the `k`-th: the argument there, or the default if there are fewer arguments. -/
inductive Parameter.Placed (p : Parameter) (args : List Expr) (k : Nat) (e : Expr) : Prop
  | argument (harg : args[k]? = some e) (hpasses : e.type.PassesTo p.type)
  | default {v : Value} (hmissing : args[k]? = none) (hdefault : p.default = some v)
      (he : e = .literal v)

/-- Of parameters with distinct names each stands for what is in its place. -/
theorem ExprTemplate.bindings_eq_of_getElem {ps : List Parameter} {args : List Expr}
    (hdistinct : (ps.map Parameter.name).Nodup) {k : Nat} {p : Parameter} (hp : ps[k]? = some p) :
    bindings ps args p.name = args[k]?.or (p.default.map .literal) := by
  induction ps generalizing args k with
  | nil => cases hp
  | cons q ps ih =>
    rw [List.map_cons, List.nodup_cons] at hdistinct
    cases k with
    | zero =>
      cases hp
      unfold bindings
      rw [bindings_eq_none hdistinct.1]
      cases args <;> simp
    | succ k =>
      -- another parameter has another name
      have hmem : p.name ∈ ps.map Parameter.name := List.mem_map_of_mem (List.mem_of_getElem? hp)
      have hname : p.name ≠ q.name := fun heq => hdistinct.1 (heq ▸ hmem)
      have hrest : bindings ps args.tail p.name = args.tail[k]?.or (p.default.map .literal) :=
        ih hdistinct.2 hp
      rw [List.getElem?_tail] at hrest
      unfold bindings
      rw [hrest, if_neg hname]
      split
      · rename_i hsome
        exact hsome.symm
      · rename_i hnone
        exact hnone.symm

/-- An accepted call has an argument that passes in the place of a parameter, or a
default. -/
theorem Signature.placed_of_acceptsFrom {ps : List Parameter} {args : List Expr}
    (haccepts : (acceptsFrom? (args.map Expr.type) ps).isSome = true) {k : Nat} {p : Parameter}
    (hp : ps[k]? = some p) :
    ∃ e, args[k]?.or (p.default.map .literal) = some e ∧ p.Placed args k e := by
  induction ps generalizing args k with
  | nil => cases hp
  | cons q ps ih =>
    cases args with
    | nil =>
      have hall : (q :: ps).all Parameter.hasDefault = true := by
        rw [List.map_nil, acceptsFrom?] at haccepts
        split at haccepts
        · assumption
        · cases haccepts
      have hdefault := List.all_eq_true.1 hall p (List.mem_of_getElem? hp)
      obtain ⟨v, hv⟩ := Option.isSome_iff_exists.1 hdefault
      exact ⟨.literal v, by simp [hv], .default rfl hv rfl⟩
    | cons a args =>
      rw [List.map_cons, isSome_acceptsFrom_cons_iff] at haccepts
      cases k with
      | zero =>
        cases hp
        exact ⟨a, rfl, .argument rfl (isSome_argument_iff.1 haccepts.1)⟩
      | succ k =>
        obtain ⟨e, he, hplaced⟩ := ih haccepts.2 hp
        refine ⟨e, he, ?_⟩
        cases hplaced with
        | argument harg hpasses => exact .argument harg hpasses
        | default hmissing hdefault he => exact .default hmissing hdefault he

/-! ### The type of a template -/

namespace BoundFunction

variable {f g : BoundFunction} {s s' : Signature} {t t' : ExprTemplate}

/-- A template returns the type of its body. -/
theorem type_body_of_ofTemplate {id : FunctionId} {d : FunctionDescriptor}
    {paramTypes : Option (List ColumnType)} {build : List Expr → Except Error Expr}
    (h : ofTemplate id d paramTypes build = .ok f) (hf : f.ExpandsBy s t) :
    t.body.type = s.returnType := by
  obtain ⟨parameters, _, h⟩ := bind_eq_ok_iff.1 h
  obtain ⟨_, h⟩ := guard_eq_ok_iff.1 h
  obtain ⟨body, _, h⟩ := bind_eq_ok_iff.1 h
  obtain ⟨_, h⟩ := guard_eq_ok_iff.1 h
  cases h
  have hs := List.singleton_inj.1 hf.signatures
  have ht := List.singleton_inj.1 (Implementation.templates.inj hf.implementation)
  rw [← hs, ← ht]

theorem type_body_of_isCompatibleWith (h : g.isCompatibleWith f = true) (hf : f.ExpandsBy s t)
    (hg : g.ExpandsBy s' t') (htype : t.body.type = s.returnType) :
    t'.body.type = s'.returnType := by
  obtain ⟨himplementation, hsignatures, _⟩ := isCompatibleWith_iff.1 h
  rw [hf.signatures, hg.signatures, allSame, Bool.and_eq_true_iff] at hsignatures
  rw [hf.implementation, hg.implementation, sameImplementation, allSame,
    Bool.and_eq_true_iff] at himplementation
  obtain ⟨_, hbody⟩ := Bool.and_eq_true_iff.1 himplementation.1
  obtain ⟨_, hreturn, _⟩ := Signature.same_iff.1 hsignatures.1
  rw [Expr.type_eq_of_same hbody, htype, hreturn]

/-- What the calls of the overload expand to is the `k`-th parameter alone, which the
body names with the type `u`. -/
def ExpandsTo (f : BoundFunction) (i k : Nat) (p : Parameter) (u : ColumnType) : Prop :=
  ∃ ts t, f.implementation = .templates ts ∧ ts[i]? = some t ∧
    t.signature.parameters[k]? = some p ∧ t.body = .var p.name u

/-- The expansion of a template has the type of the body, unless the body is a parameter;
then it is what is in the place of that. -/
theorem ExpandsBy.type_instantiate (hf : f.ExpandsBy s t) (htype : t.body.type = s.returnType)
    {args : List Expr} (haccepts : (s.accepts? (args.map Expr.type)).isSome = true) :
    ((∀ k p u, ¬ f.ExpandsTo 0 k p u) → (t.instantiate args).type = s.returnType) ∧
      ∀ k p u, f.ExpandsTo 0 k p u →
        s.returnType = u ∧ p.Placed args k (t.instantiate args) := by
  refine ⟨fun hnot => ?_, ?_⟩
  · rw [← htype]
    refine Expr.type_substitute fun x u hbody => ?_
    by_cases hx : x ∈ t.signature.parameters.map Parameter.name
    · obtain ⟨p, hp, rfl⟩ := List.mem_map.1 hx
      obtain ⟨k, hk⟩ := List.mem_iff_getElem?.1 hp
      exact absurd ⟨_, t, hf.implementation, rfl, hk, hbody⟩ (hnot k p u)
    · exact ExprTemplate.bindings_eq_none hx
  · rintro k p u ⟨ts, t', himplementation, ht', hp, hbody⟩
    rw [hf.implementation] at himplementation
    cases himplementation
    cases ht'
    have hdistinct : (t.signature.parameters.map Parameter.name).Nodup := by
      rw [← Parameter.map_name_seen, hf.seen, Parameter.map_name_seen]
      exact hf.distinct
    have hfrom : (Signature.acceptsFrom? (args.map Expr.type) t.signature.parameters).isSome =
        true := by
      obtain ⟨cs, hcs⟩ := Option.isSome_iff_exists.1 haccepts
      rw [← hf.accepts] at hcs
      rw [Signature.acceptsFrom_of_accepts hcs]
      rfl
    obtain ⟨e, he, hplaced⟩ := Signature.placed_of_acceptsFrom hfrom hp
    have hinstantiate : t.instantiate args = e := by
      rw [ExprTemplate.instantiate, hbody, Expr.substitute,
        ExprTemplate.bindings_eq_of_getElem hdistinct hp, he]
    refine ⟨?_, hinstantiate ▸ hplaced⟩
    rw [← htype, hbody]
    rfl

end BoundFunction

/-! ### Calls of what is bound -/

namespace Registry

variable {r : Registry} {id : FunctionId} {d : FunctionDescriptor} {f : BoundFunction}

/-- What the binding of a template answers is expanded by a template whose body has the
type that the function returns. -/
theorem exists_typed_of_bindTemplate {paramTypes : Option (List ColumnType)}
    {build : List Expr → Except Error Expr}
    (h : (r.bindTemplate id d paramTypes build).1.result = .ok f) :
    ∃ s t, f.ExpandsBy s t ∧ t.body.type = s.returnType := by
  obtain ⟨g, hmade, hfg⟩ := exists_made_of_registerResult h
  obtain ⟨s, t, hg⟩ := BoundFunction.exists_expandsBy_of_ofTemplate hmade
  have htype := BoundFunction.type_body_of_ofTemplate hmade hg
  rcases hfg with rfl | hcompatible
  · exact ⟨s, t, hg, htype⟩
  · obtain ⟨s', t', hf⟩ := hg.of_isCompatibleWith hcompatible
    exact ⟨s', t', hf, BoundFunction.type_body_of_isCompatibleWith hcompatible hg hf htype⟩

/-- What the binding of a callable answers executes callables. -/
theorem exists_callables_of_bind {callable : Callable} {o : BindOptions}
    (h : (r.bind id d callable o).1.result = .ok f) : ∃ cs, f.implementation = .callables cs := by
  obtain ⟨g, hmade, hfg⟩ := exists_made_of_registerResult h
  obtain ⟨_, _, hmade⟩ := bind_eq_ok_iff.1 hmade
  obtain ⟨_, _, hmade⟩ := bind_eq_ok_iff.1 hmade
  cases hmade
  rcases hfg with rfl | hcompatible
  · exact ⟨_, rfl⟩
  · obtain ⟨himplementation, _⟩ := BoundFunction.isCompatibleWith_iff.1 hcompatible
    cases hf : f.implementation with
    | callables cs => exact ⟨cs, rfl⟩
    | templates ts =>
      rw [hf] at himplementation
      cases himplementation

/-- A call has the type that the chosen overload returns, unless it expands to a parameter
alone: then it is what is in the place of that, with the type that it has. -/
theorem callSites (hbound : (∃ callable o, (r.bind id d callable o).1.result = .ok f) ∨
      ∃ paramTypes build, (r.bindTemplate id d paramTypes build).1.result = .ok f)
    {args : List Expr} {e : Expr} (he : f.callExpr args = .ok e) :
    ∃ i cs s, f.resolveOverload (args.map Expr.type) = .ok (i, cs) ∧ f.signatures[i]? = some s ∧
      ((∀ k p u, ¬ f.ExpandsTo i k p u) → e.type = s.returnType) ∧
      ∀ k p u, f.ExpandsTo i k p u → s.returnType = u ∧ p.Placed args k e := by
  rw [BoundFunction.callExpr] at he
  split at he
  · cases he
  rename_i i s cs hresolve
  obtain ⟨hs, haccepts⟩ := BoundFunction.resolve_eq_ok hresolve
  have hoverload : f.resolveOverload (args.map Expr.type) = .ok (i, cs) := by
    rw [BoundFunction.resolveOverload, hresolve]
    rfl
  refine ⟨i, cs, s, hoverload, hs, ?_⟩
  rcases hbound with ⟨callable, o, hbind⟩ | ⟨paramTypes, build, hbind⟩
  · obtain ⟨ds, himplementation⟩ := exists_callables_of_bind hbind
    rw [himplementation] at he
    cases he
    refine ⟨fun _ => rfl, ?_⟩
    rintro k p u ⟨ts, _, htemplates, _⟩
    rw [himplementation] at htemplates
    cases htemplates
  · obtain ⟨s', t, hf, htype⟩ := exists_typed_of_bindTemplate hbind
    -- the overload is the only one
    obtain ⟨rfl, rfl⟩ : i = 0 ∧ s = s' := by
      rw [hf.signatures, List.getElem?_singleton] at hs
      split at hs
      · exact ⟨‹_›, (Option.some.inj hs).symm⟩
      · cases hs
    rw [hf.implementation] at he
    cases he
    exact hf.type_instantiate htype (by rw [haccepts]; rfl)

end Registry

namespace Sample

/-- A declaration over points in time. -/
def momentDescriptor : FunctionDescriptor where
  name := "moment"
  module := none
  qualifiedName := "moment"
  params := [⟨"time", .known .timestamp, none, false⟩]
  result := ⟨.unspecified, false⟩

/-- The template that is the given parameter alone. -/
def momentTemplate : ExprTemplate where
  signature := ⟨[⟨"time", .timestamp, none, false⟩], .timestamp, false⟩
  body := .var "time" .timestamp

/-- The function of the template. -/
def moment : BoundFunction where
  id := .ofNat 6
  name := "moment"
  path := none
  signatures := [momentTemplate.signature]
  implementation := .templates [momentTemplate]
  batchSize := none
  isMethod := false
  isProperty := false
  pool := none

end Sample

/-- A column of texts is passed for a point in time, and is the call. -/
theorem Sample.callSites_moment :
    (Registry.bindTemplate SortedMap.empty (.ofNat 6) Sample.momentDescriptor none
        fun args => .ok (args.headD default)).1.result = .ok Sample.moment ∧
      Sample.moment.callExpr [.column "published" .string] = .ok (.column "published" .string) ∧
      Parameter.Placed ⟨"time", .timestamp, none, false⟩ [.column "published" .string] 0
        (.column "published" .string) := by
  have hbind : (Registry.bindTemplate SortedMap.empty (.ofNat 6) Sample.momentDescriptor none
      fun args => .ok (args.headD default)).1.result = .ok Sample.moment := rfl
  have hcall : Sample.moment.callExpr [.column "published" .string] =
      .ok (.column "published" .string) := rfl
  obtain ⟨i, cs, s, hoverload, _, _, hplaced⟩ := Registry.callSites (.inr ⟨_, _, hbind⟩) hcall
  obtain ⟨rfl, _⟩ : 0 = i ∧ [Conversion.parseTimestamp] = cs := by
    simpa using Except.ok.inj (rfl.symm.trans hoverload)
  have hexpands : Sample.moment.ExpandsTo 0 0 ⟨"time", .timestamp, none, false⟩ .timestamp :=
    ⟨_, _, rfl, rfl, rfl, rfl⟩
  exact ⟨hbind, hcall, (hplaced _ _ _ hexpands).2⟩

/-- The call has the type of the texts, while the overload returns a point in time. -/
theorem Sample.string_moment :
    (Registry.bindTemplate SortedMap.empty (.ofNat 6) Sample.momentDescriptor none
        fun args => .ok (args.headD default)).1.result = .ok Sample.moment ∧
      Sample.moment.resolveOverload [.string] = .ok (0, [.parseTimestamp]) ∧
      Sample.moment.signatures[0]? = some Sample.momentTemplate.signature ∧
      Sample.moment.callExpr [.column "published" .string] = .ok (.column "published" .string) ∧
      (Expr.column "published" .string).type ≠ Sample.momentTemplate.signature.returnType :=
  ⟨rfl, rfl, rfl, rfl, by decide⟩

end Cadastre
