/-
# Log events

What an operation reports beside its result: a level and a message.

Key definitions: `Event`, `Reported`.
-/
import Cadastre.Error

namespace Cadastre

/-- How much an event matters. -/
inductive Level where
  | debug
  | warn
  deriving DecidableEq, Repr

/-- A reported event. -/
structure Event where
  level : Level
  message : String
  deriving DecidableEq, Repr

namespace Event

def debug (message : String) : Event := ⟨.debug, message⟩

def warn (message : String) : Event := ⟨.warn, message⟩

end Event

/-- The result of an operation that reports events also when it fails. -/
structure Reported (α : Type) where
  result : Except Error α
  log : List Event

end Cadastre
