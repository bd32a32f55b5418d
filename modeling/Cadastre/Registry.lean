/-
# The function registry

Functions are registered under their symbol paths. A path is bound once: a
second function under it is refused unless it is the first one, the same
instance in memory, or compatible with the first, which then stands for both.
A function without path is not registered.

Key definitions: `Registry`, `Registry.enter`, `Registry.register`,
`Registry.lookup`, `Registry.resolve`, `Registry.bind`, `Registry.bindTemplate`.
Key theorems: `Registry.lookup_enter_of_lookup`, `Registry.enter_of_error`.
-/
import Cadastre.BoundFunction.Bind
import Cadastre.Event
import Cadastre.SortedMap

namespace Cadastre

/-- The registered functions by path. -/
abbrev Registry := SortedMap String BoundFunction

namespace Registry

def lookup (r : Registry) (path : String) : Option BoundFunction := r.get? path

/-- The function under a path. -/
def resolve (r : Registry) (path : String) : Except Error BoundFunction :=
  match r.lookup path with
  | some f => .ok f
  | none => .error (.function (.unresolvedSymbol path))

/-- The bound paths in order. -/
def paths (r : Registry) : List String := r.keys

/-- Enters a function under its path. The result is the function that the path is bound
to afterwards; one that is bound already stands for the function if it is the same
instance, or compatible with it. -/
def enter (r : Registry) (f : BoundFunction) (sameInstance : BoundFunction → Bool) :
    Reported BoundFunction × Registry :=
  match f.path with
  | none => (⟨.ok f, []⟩, r)
  | some path =>
    match SymbolPath.check path with
    | .error e => (⟨.error e, []⟩, r)
    | .ok () =>
      match r.lookup path with
      | none => (⟨.ok f, [.debug ("registered function " ++ path)]⟩, r.insert path f)
      | some g =>
        if sameInstance g || g.isCompatibleWith f then
          (⟨.ok g, [.debug ("function " ++ path ++ " already registered")]⟩, r)
        else
          (⟨.error (.function (.registryConflict path)),
            [.warn ("conflicting registration for function " ++ path)]⟩, r)

/-- Registers a function. -/
def register (r : Registry) (f : BoundFunction) : Reported BoundFunction × Registry :=
  r.enter f fun g => g.sameInstance f

/-- Registers a function if it could be made. No other one is the same instance then, as
it is new. -/
def registerResult (r : Registry) (f : Except Error BoundFunction) :
    Reported BoundFunction × Registry :=
  match f with
  | .ok f => r.enter f fun _ => false
  | .error e => (⟨.error e, []⟩, r)

/-- Binds a callable and registers the function. -/
def bind (r : Registry) (id : FunctionId) (d : FunctionDescriptor) (c : Callable)
    (o : BindOptions) : Reported BoundFunction × Registry :=
  r.registerResult (BoundFunction.ofDescriptor id d c o)

/-- Binds a template and registers the function. -/
def bindTemplate (r : Registry) (id : FunctionId) (d : FunctionDescriptor)
    (paramTypes : Option (List ColumnType)) (build : List Expr → Except Error Expr) :
    Reported BoundFunction × Registry :=
  r.registerResult (BoundFunction.ofTemplate id d paramTypes build)

section Enter

variable {r : Registry} {f g : BoundFunction} {sameInstance : BoundFunction → Bool}

/-- A bound path stays bound to its function. -/
theorem lookup_enter_of_lookup {path : String} (h : r.lookup path = some g) :
    (r.enter f sameInstance).2.lookup path = some g := by
  unfold enter
  split
  · exact h
  · split
    · exact h
    · split
      · rename_i hp
        unfold lookup at h hp ⊢
        simp only [SortedMap.get?_insert]
        split
        · rename_i heq
          subst heq
          rw [h] at hp
          cases hp
        · exact h
      · split <;> exact h

/-- A function that is not entered changes nothing. -/
theorem enter_of_error {e : Error} (h : (r.enter f sameInstance).1.result = .error e) :
    (r.enter f sameInstance).2 = r := by
  unfold enter at h ⊢
  split
  · rfl
  · split
    · rfl
    · split
      · simp_all
      · split <;> rfl

end Enter

end Registry
end Cadastre
