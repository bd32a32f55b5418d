/-
# Resource pools

A function may run in a resource pool, which is looked up only when it is
needed. One execution looks the pool of a function up once and remembers the
answer, also when there is none.

Key definitions: `ResourcePool`, `ResourcePool.resolve`, `CallContext`.
-/
import Cadastre.Key

namespace Cadastre

/-- The pool in which a function runs. -/
inductive ResourcePool where
  | named (name : String)
  /-- The pool that the host's look-up gives for a key. -/
  | deferred (key : String)
  deriving DecidableEq, Repr

/-- The pool, given the host's look-up. -/
def ResourcePool.resolve (pool : ResourcePool) (lookup : String → Option String) : Option String :=
  match pool with
  | named name => some name
  | deferred key => lookup key

/-- The pools that one execution has looked up. -/
structure CallContext where
  resolved : List (FunctionId × Option String)
  deriving Repr

namespace CallContext

def empty : CallContext := ⟨[]⟩

/-- The pool of a function, and the context that remembers it. A function
without pool is not looked up. -/
def resourcePool (c : CallContext) (function : FunctionId) (pool : Option ResourcePool)
    (lookup : String → Option String) : Option String × CallContext :=
  match pool with
  | none => (none, c)
  | some p =>
    match c.resolved.lookup function with
    | some name => (name, c)
    | none =>
      let name := p.resolve lookup
      (name, ⟨(function, name) :: c.resolved⟩)

end CallContext
end Cadastre
