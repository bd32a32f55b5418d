/-
# Bound functions

A function is a callable or a template with its validated signatures, one per
overload. A call takes the first overload whose parameters accept the arguments
after conversion. A template is expanded where it is called and is never
executed.

Key definitions: `BoundFunction`, `BoundFunction.resolveOverload`,
`BoundFunction.callExpr`, `BoundFunction.resolveRow`, `BoundFunction.exec`,
`BoundFunction.sameInstance`, `BoundFunction.isCompatibleWith`.
Key theorems: `BoundFunction.firstAccepting_spec`.
-/
import Cadastre.Callable
import Cadastre.ResourcePool
import Cadastre.Template

namespace Cadastre

/-- What a function does, one entry per overload. -/
inductive Implementation where
  | callables (cs : List Callable)
  | templates (ts : List ExprTemplate)

/-- A function with its signatures. -/
structure BoundFunction where
  id : FunctionId
  /-- Which instance in memory it is, of those with its identifier: the one that was bound
  is the first, and every copy is another. -/
  copy : Nat := 0
  name : String
  /-- The path under which it is registered; none for a function stored by value. -/
  path : Option String
  signatures : List Signature
  implementation : Implementation
  batchSize : Option Nat
  isMethod : Bool
  isProperty : Bool
  pool : Option ResourcePool

namespace BoundFunction

def displayName (f : BoundFunction) : String := f.path.getD "<anonymous>"

/-- The name in diagnostics: the path when there is one. -/
def qualifiedName (f : BoundFunction) : String := f.path.getD f.name

/-- One line per overload. -/
def helpText (f : BoundFunction) : String :=
  String.intercalate "\n" (f.signatures.map fun s => f.displayName ++ s.display)

def isTemplate (f : BoundFunction) : Bool :=
  match f.implementation with
  | .templates _ => true
  | .callables _ => false

/-- How a call names the function. -/
def ref (f : BoundFunction) : FunctionRef :=
  match f.path with
  | some p => .path p
  | none => .id f.id

/-! ### Overloads -/

/-- The first signature that accepts the arguments, counted from `index`, and
the conversions. -/
def firstAccepting (args : List ColumnType) (index : Nat) :
    List Signature → Option (Nat × Signature × List Conversion)
  | [] => none
  | s :: ss =>
    match s.accepts? args with
    | some cs => some (index, s, cs)
    | none => firstAccepting args (index + 1) ss

/-- The signature that was found stands at its index and accepts the arguments,
and none before it does. -/
theorem firstAccepting_spec {args : List ColumnType} {ss : List Signature} {index i : Nat}
    {s : Signature} {cs : List Conversion} (h : firstAccepting args index ss = some (i, s, cs)) :
    index ≤ i ∧ ss[i - index]? = some s ∧ s.accepts? args = some cs ∧
      ∀ k < i - index, ∀ t, ss[k]? = some t → t.accepts? args = none := by
  induction ss generalizing index with
  | nil => cases h
  | cons t ts ih =>
    rw [firstAccepting] at h
    split at h
    · rename_i cs' hcs
      cases h
      simp [hcs]
    · rename_i hcs
      obtain ⟨hle, hget, hacc, hmin⟩ := ih h
      have hi : i - index = (i - (index + 1)) + 1 := by omega
      refine ⟨by omega, by rw [hi]; simpa using hget, hacc, ?_⟩
      intro k hk t' ht'
      cases k with
      | zero =>
        simp only [List.getElem?_cons_zero, Option.some.injEq] at ht'
        rw [← ht']
        exact hcs
      | succ k => exact hmin k (by omega) t' (by simpa using ht')

/-- The overload that a call with arguments of the given types takes. -/
def resolve (f : BoundFunction) (args : List ColumnType) :
    Except Error (Nat × Signature × List Conversion) :=
  match firstAccepting args 0 f.signatures with
  | some r => .ok r
  | none => .error (.function (.noMatchingOverload f.qualifiedName args))

/-- The index of the overload, and the conversions of the arguments. -/
def resolveOverload (f : BoundFunction) (args : List ColumnType) :
    Except Error (Nat × List Conversion) :=
  (f.resolve args).map fun (i, _, cs) => (i, cs)

/-- The signature of an overload. -/
def signature (f : BoundFunction) (overload : Nat) : Except Error Signature :=
  match f.signatures[overload]? with
  | some s => .ok s
  | none => .error (.function (.unknownOverload f.qualifiedName overload))

/-- A call of the function; a template is expanded. -/
def callExpr (f : BoundFunction) (args : List Expr) : Except Error Expr :=
  match f.resolve (args.map Expr.type) with
  | .error e => .error e
  | .ok (i, s, _) =>
    match f.implementation with
    | .callables _ => .ok (.call f.ref i args s.returnType)
    | .templates ts =>
      match ts[i]? with
      | some t => .ok (t.instantiate args)
      | none => .error (.function (.unknownOverload f.qualifiedName i))

/-! ### Execution -/

/-- Converts the arguments and takes the defaults of the parameters left over. -/
def convertArgs : List Parameter → List Conversion → List Value → Except Error (List Value)
  | _ :: ps, c :: cs, v :: vs => do
    let v ← c.apply v
    let vs ← convertArgs ps cs vs
    .ok (v :: vs)
  | ps, _, [] => .ok (ps.map fun p => p.default.getD .none)
  | _, _, _ => .ok []

/-- The overload of a row of values, and the converted values. -/
def resolveRow (f : BoundFunction) (row : List Value) :
    Except Error (Nat × Signature × List Value) :=
  match f.resolve (row.map Value.type) with
  | .error e => .error e
  | .ok (i, s, cs) => (convertArgs s.parameters cs row).map fun vs => (i, s, vs)

/-- The callable of an overload. -/
def callable (f : BoundFunction) (overload : Nat) : Except Error Callable :=
  match f.implementation with
  | .callables cs =>
    match cs[overload]? with
    | some c => .ok c
    | none => .error (.function (.unknownOverload f.qualifiedName overload))
  | .templates _ => .error (.function (.notCallable f.qualifiedName))

/-- Calls the function on a row of values. -/
def exec (f : BoundFunction) (row : List Value) : Except Error Value :=
  match f.resolveRow row with
  | .error e => .error e
  | .ok (i, _, vs) =>
    match f.callable i with
    | .error e => .error e
    | .ok c => c.call vs

/-! ### Compatibility -/

/-- Whether two functions are one instance in memory. -/
def sameInstance (f g : BoundFunction) : Bool := f.id == g.id && f.copy == g.copy

/-- Whether two implementations do the same. -/
def sameImplementation : Implementation → Implementation → Bool
  | .callables cs, .callables ds => allSame Callable.sameBody cs ds
  | .templates ts, .templates us => allSame ExprTemplate.same ts us
  | _, _ => false

/-- Whether one function can stand for the other under one path: they have the
same contract and the same bodies. -/
def isCompatibleWith (f g : BoundFunction) : Bool :=
  sameImplementation f.implementation g.implementation &&
    allSame Signature.same f.signatures g.signatures &&
    f.batchSize == g.batchSize && f.isMethod == g.isMethod && f.isProperty == g.isProperty

end BoundFunction
end Cadastre
