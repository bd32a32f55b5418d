/-
# Places in an expression

A place says how to come from the root of a tree to a part of it: the number of an
argument at each step down. Places are compared as lists of numbers, so the smaller of
two places is the one that a walk from left to right comes to first. What substitution
does to the tree it does to the part at each place (`Expr.at?_substitute`).

Key definitions: `Expr.arguments`, `Expr.at?`.
Key theorems: `Expr.at?_append`, `Expr.at?_substitute`, `Expr.mem_parameters_iff`.
-/
import Cadastre.Expr

namespace Cadastre
namespace Expr

/-- The arguments of a call; nothing else has any. -/
def arguments : Expr → List Expr
  | call _ _ args _ => args
  | _ => []

/-- The part of the tree at a place. -/
def at? (e : Expr) : List Nat → Option Expr
  | [] => some e
  | i :: p => e.arguments[i]?.bind fun a => a.at? p

variable {e x : Expr} {p q : List Nat} {i : Nat}

theorem at?_cons_eq_some_iff :
    e.at? (i :: p) = some x ↔ ∃ a, e.arguments[i]? = some a ∧ a.at? p = some x := by
  rw [at?, Option.bind_eq_some_iff]

theorem at?_append (h : e.at? p = some x) : e.at? (p ++ q) = x.at? q := by
  induction p generalizing e with
  | nil =>
    cases h
    rfl
  | cons i p ih =>
    obtain ⟨a, ha, hx⟩ := at?_cons_eq_some_iff.1 h
    rw [List.cons_append, at?, ha]
    exact ih hx

/-! ### Substitution -/

/-- A place of the tree stays one, and its part is substituted in as the tree is. -/
theorem at?_substitute {b : String → Option Expr} (h : e.at? p = some x) :
    (e.substitute b).at? p = some (x.substitute b) := by
  induction p generalizing e with
  | nil =>
    cases h
    rfl
  | cons i p ih =>
    obtain ⟨a, ha, hx⟩ := at?_cons_eq_some_iff.1 h
    cases e with
    | call f overload args t =>
      refine at?_cons_eq_some_iff.2 ⟨a.substitute b, ?_, ih hx⟩
      have hargs : args[i]? = some a := ha
      simp [arguments, substitute, substituteArgs_eq_map, hargs]
    | _ => simp [arguments] at ha

/-! ### Parameters -/

mutual

theorem mem_parameters_iff {y : String} : ∀ {e : Expr},
    y ∈ e.parameters ↔ ∃ p t, e.at? p = some (var y t)
  | var z t => by
    rw [parameters, List.mem_singleton]
    constructor
    · rintro rfl
      exact ⟨[], t, rfl⟩
    · rintro ⟨p, u, h⟩
      cases p with
      | nil =>
        cases h
        rfl
      | cons i p => simp [at?, arguments] at h
  | column c t => by
    refine ⟨fun h => absurd h List.not_mem_nil, ?_⟩
    rintro ⟨p, u, h⟩
    cases p <;> simp [at?, arguments] at h
  | literal v => by
    refine ⟨fun h => absurd h List.not_mem_nil, ?_⟩
    rintro ⟨p, u, h⟩
    cases p <;> simp [at?, arguments] at h
  | call f overload args t => by
    rw [parameters, mem_parametersArgs_iff]
    constructor
    · rintro ⟨i, a, ha, p, u, h⟩
      exact ⟨i :: p, u, at?_cons_eq_some_iff.2 ⟨a, ha, h⟩⟩
    · rintro ⟨p, u, h⟩
      cases p with
      | nil => cases h
      | cons i p =>
        obtain ⟨a, ha, h⟩ := at?_cons_eq_some_iff.1 h
        exact ⟨i, a, ha, p, u, h⟩

theorem mem_parametersArgs_iff {y : String} : ∀ {es : List Expr},
    y ∈ parametersArgs es ↔
      ∃ (i : Nat) (a : Expr), es[i]? = some a ∧ ∃ p t, a.at? p = some (var y t)
  | [] => by simp [parametersArgs]
  | e :: es => by
    rw [parametersArgs, List.mem_append, mem_parameters_iff, mem_parametersArgs_iff]
    constructor
    · rintro (h | ⟨i, a, ha, h⟩)
      · exact ⟨0, e, rfl, h⟩
      · exact ⟨i + 1, a, ha, h⟩
    · rintro ⟨i, a, ha, h⟩
      cases i with
      | zero =>
        cases ha
        exact .inl h
      | succ i => exact .inr ⟨i, a, ha, h⟩

end

end Expr
end Cadastre
