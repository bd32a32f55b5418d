/-
# Powers of numbers

Bounds such as `2 ^ 32` mean the power of the core library in every module,
whatever else the module imports. Mathlib has another instance of the same
operation and prefers it where it is in scope, so that one text would stand for
two terms.
-/

namespace Cadastre

@[default_instance 100000]
instance (priority := 100000) corePow {α : Type} [NatPow α] : Pow α Nat := instPowNat

end Cadastre
