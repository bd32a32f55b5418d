/-
# Expressions

Typed expressions are the bodies of templates and the value expressions of
computed columns: a column, a variable that stands for a template's parameter,
a literal, or a call of an overload of a function. A function is named by its
symbol path or, when it is stored in the catalog, by its identifier.

Key definitions: `FunctionRef`, `Expr`, `Expr.type`, `Expr.columnRefs`,
`Expr.substitute`.
Key theorems: `Expr.substitute_substitute`.
-/
import Cadastre.Uuid
import Cadastre.Value

namespace Cadastre

/-- How a call names its function. -/
inductive FunctionRef where
  | path (path : String)
  | id (id : Uuid)
  deriving DecidableEq, Repr

def FunctionRef.display : FunctionRef → String
  | path p => p
  | id i => "<" ++ i.text ++ ">"

/-- A typed expression. -/
inductive Expr where
  | column (name : String) (type : ColumnType)
  /-- A parameter of a template. -/
  | var (name : String) (type : ColumnType)
  | literal (value : Value)
  | call (function : FunctionRef) (overload : Nat) (args : List Expr) (returnType : ColumnType)
  deriving Repr

namespace Expr

instance : Inhabited Expr := ⟨literal .none⟩

/-- The type of the expression's value. -/
def type : Expr → ColumnType
  | column _ t => t
  | var _ t => t
  | literal v => v.type
  | call _ _ _ t => t

mutual

/-- Equality of expressions; literals compare as values. -/
def same : Expr → Expr → Bool
  | column a s, column b t => a == b && s == t
  | var a s, var b t => a == b && s == t
  | literal v, literal w => v.same w
  | call f i as s, call g j bs t => f == g && i == j && sameArgs as bs && s == t
  | _, _ => false

def sameArgs : List Expr → List Expr → Bool
  | [], [] => true
  | a :: as, b :: bs => same a b && sameArgs as bs
  | _, _ => false

end

mutual

/-- The names of the columns of the tree, from left to right, as often as they
occur. -/
def columnNames : Expr → List String
  | column name _ => [name]
  | call _ _ args _ => columnNamesArgs args
  | _ => []

def columnNamesArgs : List Expr → List String
  | [] => []
  | e :: es => columnNames e ++ columnNamesArgs es

end

mutual

/-- Adds the columns of the tree that are not yet in `found` at its end. -/
def collectColumns (found : List String) : Expr → List String
  | column name _ => if found.contains name then found else found ++ [name]
  | call _ _ args _ => collectColumnsArgs found args
  | _ => found

def collectColumnsArgs (found : List String) : List Expr → List String
  | [] => found
  | e :: es => collectColumnsArgs (collectColumns found e) es

end

/-- The names of the columns that the tree refers to, each once, in the order
of their first appearance. -/
def columnRefs (e : Expr) : List String := collectColumns [] e

mutual

/-- Replaces every variable that the bindings know by its expression. -/
def substitute (bindings : String → Option Expr) : Expr → Expr
  | var x t =>
    match bindings x with
    | some e => e
    | none => var x t
  | call f i args t => call f i (substituteArgs bindings args) t
  | column c t => column c t
  | literal v => literal v

def substituteArgs (bindings : String → Option Expr) : List Expr → List Expr
  | [] => []
  | e :: es => substitute bindings e :: substituteArgs bindings es

end

theorem substituteArgs_eq_map (b : String → Option Expr) (es : List Expr) :
    substituteArgs b es = es.map (substitute b) := by
  induction es with
  | nil => rfl
  | cons e es ih => simp [substituteArgs, ih]

mutual

/-- The parameters of the tree, from left to right. -/
def parameters : Expr → List String
  | var x _ => [x]
  | call _ _ args _ => parametersArgs args
  | _ => []

def parametersArgs : List Expr → List String
  | [] => []
  | e :: es => parameters e ++ parametersArgs es

end

mutual

/-- Two substitutions, one after the other, are one that substitutes in the
bound expressions, provided the second knows no variable that the first leaves. -/
theorem substitute_substitute (b c : String → Option Expr) : ∀ e : Expr,
    (∀ x ∈ e.parameters, b x = none → c x = none) →
      (e.substitute b).substitute c = e.substitute fun x => (b x).map (substitute c)
  | column _ _, _ => rfl
  | literal _, _ => rfl
  | var x t, h => by
    cases hx : b x with
    | none =>
      have hc : c x = none := h x (by simp [parameters]) hx
      simp [substitute, hx, hc]
    | some e => simp [substitute, hx]
  | call f i args t, h => by
    simp only [substitute]
    rw [substituteArgs_substituteArgs b c args h]

theorem substituteArgs_substituteArgs (b c : String → Option Expr) : ∀ es : List Expr,
    (∀ x ∈ parametersArgs es, b x = none → c x = none) →
      substituteArgs c (substituteArgs b es) =
        substituteArgs (fun x => (b x).map (substitute c)) es
  | [], _ => rfl
  | e :: es, h => by
    simp only [substituteArgs]
    rw [substitute_substitute b c e fun x hx => h x (by simp [parametersArgs, hx]),
      substituteArgs_substituteArgs b c es fun x hx => h x (by simp [parametersArgs, hx])]

end

end Expr
end Cadastre
