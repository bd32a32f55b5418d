/-
# Templates expand hygienically

All parameters of a template are replaced at once, and an argument is put in as it
stands: at each place of a parameter the expansion has the argument itself, with the
variables in it, whatever names they have (`ExprTemplate.at?_instantiate`). So the
expansion of a template whose body is itself the expansion of another one is that of
the inner template over the substituted expressions
(`ExprTemplate.instantiate_instantiate`).

One thing stands in the way. A parameter that has neither an argument nor a default
stays in the expansion as a variable. In the body of an outer template such a variable
is like any other, and a parameter of the outer template with its name takes it over
(`ExprTemplate.exists_captured`). Where no name of what is left over is one of the outer
template's, and only there, the two expansions agree for all arguments
(`ExprTemplate.hygienic`).

Key definitions: `ExprTemplate.parameterNames`, `ExprTemplate.leftover`.
Key theorems: `ExprTemplate.at?_instantiate`, `ExprTemplate.instantiate_instantiate`,
`ExprTemplate.exists_captured`, `ExprTemplate.hygienic`.
-/
import Cadastre.Proofs.Expansions
import Cadastre.Proofs.Places

namespace Cadastre
namespace ExprTemplate

/-! ### What parameters stand for -/

section Bindings

variable {ps : List Parameter} {args : List Expr} {x : String}

/-- The argument in the place of a parameter, or its default if there is none, is what
its name stands for if no later parameter has the name. -/
theorem bindings_eq_some_of_last {k : Nat} {p : Parameter} {a : Expr} (hp : ps[k]? = some p)
    (hlast : ∀ q ∈ ps.drop (k + 1), q.name ≠ p.name)
    (ha : args[k]?.or (p.default.map .literal) = some a) : bindings ps args p.name = some a := by
  induction ps generalizing args k with
  | nil => cases hp
  | cons q ps ih =>
    cases k with
    | zero =>
      cases hp
      have hnone : bindings ps args.tail p.name = none := by
        refine bindings_eq_none fun hmem => ?_
        obtain ⟨q, hq, hname⟩ := List.mem_map.1 hmem
        exact hlast q hq hname
      unfold bindings
      rw [hnone]
      cases args with
      | nil => simpa using ha
      | cons b args => simpa using ha
    | succ k =>
      have hrest : bindings ps args.tail p.name = some a :=
        ih hp hlast (by rwa [List.getElem?_tail])
      unfold bindings
      rw [hrest]

/-- Substituting in the arguments substitutes in what the parameters stand for. -/
theorem bindings_map_substitute (c : String → Option Expr) :
    bindings ps (args.map (Expr.substitute c)) x =
      (bindings ps args x).map (Expr.substitute c) := by
  induction ps generalizing args with
  | nil => rfl
  | cons p ps ih =>
    unfold bindings
    rw [← List.map_tail, ih]
    cases bindings ps args.tail x with
    | some e => rfl
    | none =>
      by_cases hx : x = p.name
      · -- a default is a literal, which has no variables
        cases args <;> cases p.default <;> simp [hx, Expr.substitute]
      · simp [hx]

/-- With one argument for every parameter each parameter is bound. -/
theorem bindings_replicate {a : Expr} (hx : x ∈ ps.map Parameter.name) :
    bindings ps (List.replicate ps.length a) x = some a := by
  induction ps with
  | nil => cases hx
  | cons p ps ih =>
    unfold bindings
    rw [List.length_cons, List.replicate_succ, List.tail_cons]
    by_cases hmem : x ∈ ps.map Parameter.name
    · rw [ih hmem]
    · have hname : x = p.name := by
        rw [List.map_cons, List.mem_cons] at hx
        exact hx.resolve_right hmem
      rw [bindings_eq_none hmem]
      exact if_pos hname

/-- If every parameter has an argument or a default, then all are bound. -/
theorem isSome_bindings (hfilled : ∀ k p, ps[k]? = some p → k < args.length ∨ p.default.isSome)
    (hx : x ∈ ps.map Parameter.name) : (bindings ps args x).isSome := by
  induction ps generalizing args with
  | nil => cases hx
  | cons p ps ih =>
    unfold bindings
    cases hrest : bindings ps args.tail x with
    | some e => rfl
    | none =>
      have hrestFilled : ∀ k q, ps[k]? = some q →
          k < args.tail.length ∨ q.default.isSome := by
        intro k q hq
        refine (hfilled (k + 1) q hq).imp_left fun hlt => ?_
        rw [List.length_tail]
        omega
      have hname : x = p.name := by
        rw [List.map_cons, List.mem_cons] at hx
        refine hx.resolve_right fun hmem => ?_
        have hsome := ih hrestFilled hmem
        rw [hrest] at hsome
        cases hsome
      cases args with
      | cons a args => simp [hname]
      | nil =>
        have hdefault : p.default.isSome :=
          (hfilled 0 p rfl).resolve_left (Nat.lt_irrefl 0)
        simpa [hname] using hdefault

end Bindings

/-! ### The expansion place by place -/

/-- The names of the parameters. -/
def parameterNames (t : ExprTemplate) : List String :=
  t.signature.parameters.map Parameter.name

/-- The variables of the body that have neither an argument nor a default. -/
def leftover (t : ExprTemplate) (args : List Expr) : List String :=
  t.body.parameters.filter fun x => (bindings t.signature.parameters args x).isNone

variable {t inner outer : ExprTemplate} {args es : List Expr} {x : String} {u : ColumnType}
  {place : List Nat}

theorem mem_leftover_iff : x ∈ t.leftover args ↔
    x ∈ t.body.parameters ∧ bindings t.signature.parameters args x = none := by
  rw [leftover, List.mem_filter, Option.isNone_iff_eq_none]

/-- Nothing is left over of a body over the parameters if each of them has an argument
or a default. -/
theorem leftover_eq_nil (hbody : ∀ x ∈ t.body.parameters, x ∈ t.parameterNames)
    (hfilled : ∀ k p, t.signature.parameters[k]? = some p →
      k < args.length ∨ p.default.isSome) : t.leftover args = [] := by
  refine List.eq_nil_iff_forall_not_mem.2 fun x hleft => ?_
  obtain ⟨hx, hnone⟩ := mem_leftover_iff.1 hleft
  have hsome := isSome_bindings hfilled (hbody x hx)
  rw [hnone] at hsome
  cases hsome

/-- At the place of a parameter stands what the parameter stands for, as it is. -/
theorem at?_instantiate {a : Expr} (hplace : t.body.at? place = some (.var x u))
    (ha : bindings t.signature.parameters args x = some a) (rest : List Nat) :
    (t.instantiate args).at? (place ++ rest) = a.at? rest := by
  rw [instantiate, Expr.at?_append (Expr.at?_substitute hplace), Expr.substitute, ha]

/-- What is left over stays where it is. -/
theorem at?_instantiate_of_leftover (hplace : t.body.at? place = some (.var x u))
    (hnone : bindings t.signature.parameters args x = none) :
    (t.instantiate args).at? place = some (.var x u) := by
  rw [instantiate, Expr.at?_substitute hplace, Expr.substitute, hnone]

/-! ### Templates over templates -/

/-- The outer template expands to the inner one over the substituted expressions if
none of its parameters has the name of what the inner one leaves over. -/
theorem instantiate_instantiate (hbody : outer.body = inner.instantiate es)
    (hapart : ∀ x ∈ inner.leftover es, x ∉ outer.parameterNames) (args : List Expr) :
    outer.instantiate args =
      inner.instantiate (es.map (Expr.substitute (bindings outer.signature.parameters args))) := by
  let b := bindings inner.signature.parameters es
  let c := bindings outer.signature.parameters args
  have hunknown : ∀ x ∈ inner.body.parameters, b x = none → c x = none :=
    fun x hx hnone => bindings_eq_none (hapart x (mem_leftover_iff.2 ⟨hx, hnone⟩))
  have hbound : (fun x => (b x).map (Expr.substitute c)) =
      bindings inner.signature.parameters (es.map (Expr.substitute c)) :=
    funext fun x => (bindings_map_substitute c).symm
  calc outer.instantiate args
      = (inner.body.substitute b).substitute c := by rw [instantiate, hbody, instantiate]
    _ = inner.body.substitute fun x => (b x).map (Expr.substitute c) :=
        Expr.substitute_substitute b c inner.body hunknown
    _ = inner.instantiate (es.map (Expr.substitute c)) := by rw [hbound, instantiate]

/-- A parameter of the outer template takes over what the inner one leaves under its
name, so some arguments tell the two expansions apart. -/
theorem exists_captured (hbody : outer.body = inner.instantiate es)
    (hleft : x ∈ inner.leftover es) (hname : x ∈ outer.parameterNames) :
    ∃ args, args.length = outer.signature.parameters.length ∧ outer.instantiate args ≠
      inner.instantiate (es.map (Expr.substitute (bindings outer.signature.parameters args))) := by
  obtain ⟨hx, hnone⟩ := mem_leftover_iff.1 hleft
  obtain ⟨place, u, hplace⟩ := Expr.mem_parameters_iff.1 hx
  let args := List.replicate outer.signature.parameters.length (Expr.literal .none)
  refine ⟨args, List.length_replicate, fun heq => ?_⟩
  -- the outer template has its argument at the place of the variable
  have houter : outer.body.at? place = some (.var x u) := by
    rw [hbody]
    exact at?_instantiate_of_leftover hplace hnone
  have hbound : bindings outer.signature.parameters args x = some (.literal .none) :=
    bindings_replicate hname
  have hargument : (outer.instantiate args).at? place = some (.literal .none) := by
    have hat := at?_instantiate houter hbound []
    rwa [List.append_nil] at hat
  -- the inner one still has the variable
  have hunbound : bindings inner.signature.parameters
      (es.map (Expr.substitute (bindings outer.signature.parameters args))) x = none := by
    rw [bindings_map_substitute, hnone]
    rfl
  rw [heq, at?_instantiate_of_leftover hplace hunbound] at hargument
  cases hargument

/-- Substitutions compose; arguments and defaults are put in as they stand; and a
template over another one expands to the inner one over the substituted expressions,
for all full lists of arguments exactly if none of its parameters has the name of what
the inner one leaves over. It leaves nothing over if its body has no variables but its
parameters, and each of them has an argument or a default. -/
theorem hygienic :
    (∀ (e : Expr) (b c : String → Option Expr), (∀ x ∈ e.parameters, (b x).isSome) →
      (e.substitute b).substitute c = e.substitute fun x => (b x).map (Expr.substitute c)) ∧
    (∀ (t : ExprTemplate) (args : List Expr) (k : Nat) (p : Parameter) (a : Expr),
      t.signature.parameters[k]? = some p →
      (∀ q ∈ t.signature.parameters.drop (k + 1), q.name ≠ p.name) →
      args[k]?.or (p.default.map .literal) = some a →
      ∀ place u, t.body.at? place = some (.var p.name u) →
        ∀ rest, (t.instantiate args).at? (place ++ rest) = a.at? rest) ∧
    (∀ (outer inner : ExprTemplate) (es : List Expr), outer.body = inner.instantiate es →
      ((∀ args, args.length = outer.signature.parameters.length → outer.instantiate args =
          inner.instantiate (es.map (Expr.substitute (bindings outer.signature.parameters args)))) ↔
        ∀ x ∈ inner.leftover es, x ∉ outer.parameterNames)) ∧
    (∀ (inner : ExprTemplate) (es : List Expr),
      (∀ x ∈ inner.body.parameters, x ∈ inner.parameterNames) →
      (∀ k p, inner.signature.parameters[k]? = some p → k < es.length ∨ p.default.isSome) →
        inner.leftover es = []) := by
  refine ⟨fun e b c hbinds => ?_, fun t args k p a hp hlast ha place u hplace rest => ?_,
    fun outer inner es hbody => ⟨fun hall x hleft hname => ?_, fun hapart args _ => ?_⟩,
    fun inner es => leftover_eq_nil⟩
  · refine Expr.substitute_substitute b c e fun x hx hnone => ?_
    have hsome := hbinds x hx
    rw [hnone] at hsome
    cases hsome
  · exact at?_instantiate hplace (bindings_eq_some_of_last hp hlast ha) rest
  · obtain ⟨args, hlength, hne⟩ := exists_captured hbody hleft hname
    exact hne (hall args hlength)
  · exact instantiate_instantiate hbody hapart args

end ExprTemplate

namespace Sample

/-- The call that joins two texts with a mark between them. -/
def joined (first last mark : Expr) : Expr :=
  .call (.path "texts.join") 0 [first, last, mark] .string

/-- Two texts with a mark between them, which is a comma if none is given. -/
def join : ExprTemplate where
  signature := ⟨[⟨"first", .string, none, false⟩, ⟨"last", .string, none, false⟩,
    ⟨"mark", .string, some (.string ","), false⟩], .string, false⟩
  body := joined (.var "first" .string) (.var "last" .string) (.var "mark" .string)

/-- A template for two texts, with the given body. -/
def overTwo (first last : String) (body : Expr) : ExprTemplate where
  signature := ⟨[⟨first, .string, none, false⟩, ⟨last, .string, none, false⟩], .string, false⟩
  body := body

/-- The two texts in the other order, under the same names. -/
def swap : ExprTemplate :=
  overTwo "first" "last" (join.instantiate [.var "last" .string, .var "first" .string])

/-- A template over a call that leaves out the second text; one of its own parameters
has the name of what is left over. -/
def signed : ExprTemplate := overTwo "title" "last" (join.instantiate [.var "title" .string])

end Sample

/-- The outer parameters have the names of the inner ones the other way round. None is
taken for the other, and the comma comes from the inner default. -/
theorem Sample.hygienic_swap :
    (∀ x ∈ Sample.join.body.parameters, x ∈ Sample.join.parameterNames) ∧
      Sample.join.leftover [.var "last" .string, .var "first" .string] = [] ∧
      (Sample.join.instantiate [.var "last" .string, .var "first" .string]).at? [0] =
        some (.var "last" .string) ∧
      Sample.swap.instantiate [.column "title" .string, .column "author" .string] =
        Sample.join.instantiate [.column "author" .string, .column "title" .string] ∧
      (Sample.swap.body.substitute fun x => some (.column x .string)) =
        Sample.join.body.substitute fun x =>
          (ExprTemplate.bindings Sample.join.signature.parameters
            [.var "last" .string, .var "first" .string] x).map
              (Expr.substitute fun x => some (.column x .string)) := by
  obtain ⟨hcompose, hplaces, hnested, hleftover⟩ := ExprTemplate.hygienic
  have hbody : ∀ x ∈ Sample.join.body.parameters, x ∈ Sample.join.parameterNames := by decide
  have hnone : Sample.join.leftover [.var "last" .string, .var "first" .string] = [] := by
    refine hleftover Sample.join _ hbody fun k p hp => ?_
    match k, hp with
    | 0, _ => exact .inl (by decide)
    | 1, _ => exact .inl (by decide)
    | 2, hp =>
      cases hp
      exact .inr rfl
  refine ⟨hbody, hnone, ?_, ?_, ?_⟩
  · exact hplaces Sample.join [.var "last" .string, .var "first" .string] 0 _
      (.var "last" .string) rfl (by decide) rfl [0] .string rfl []
  · refine (hnested Sample.swap Sample.join _ rfl).2 (fun x hx => ?_) _ rfl
    rw [hnone] at hx
    cases hx
  · exact hcompose Sample.join.body _ _ (by decide)

/-- The text that is left out stays in the body as a variable, and the outer template's
parameter of its name takes it over. -/
theorem Sample.captured_signed :
    (∀ x ∈ Sample.join.body.parameters, x ∈ Sample.join.parameterNames) ∧
      (∀ e ∈ [Expr.var "title" .string], ∀ x ∈ e.parameters, x ∈ Sample.signed.parameterNames) ∧
      Sample.signed.body = Sample.join.instantiate [.var "title" .string] ∧
      [Expr.column "name" .string, .column "byline" .string].length =
        Sample.signed.signature.parameters.length ∧
      Sample.signed.instantiate [.column "name" .string, .column "byline" .string] =
        Sample.joined (.column "name" .string) (.column "byline" .string)
          (.literal (.string ",")) ∧
      Sample.join.instantiate ([Expr.var "title" .string].map (Expr.substitute
          (ExprTemplate.bindings Sample.signed.signature.parameters
            [.column "name" .string, .column "byline" .string]))) =
        Sample.joined (.column "name" .string) (.var "last" .string) (.literal (.string ",")) ∧
      Sample.signed.instantiate [.column "name" .string, .column "byline" .string] ≠
        Sample.join.instantiate ([Expr.var "title" .string].map (Expr.substitute
          (ExprTemplate.bindings Sample.signed.signature.parameters
            [.column "name" .string, .column "byline" .string]))) := by
  refine ⟨by decide, by decide, rfl, rfl, rfl, rfl, ?_⟩
  show Sample.joined (.column "name" .string) (.column "byline" .string) (.literal (.string ",")) ≠
    Sample.joined (.column "name" .string) (.var "last" .string) (.literal (.string ","))
  simp [Sample.joined]

end Cadastre
