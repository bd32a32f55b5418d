/-
# Signatures

The call contract of one overload: its parameters, which may have defaults and
may be batched, and its return type. A signature accepts argument types that
convert to its parameters; missing arguments at the end take their defaults,
and an argument of the invalid type is an untyped null, which fits everywhere.

Key definitions: `Parameter`, `Signature`, `Signature.accepts?`,
`Signature.checkBatching`, `Signature.display`.
-/
import Cadastre.Conversion

namespace Cadastre

/-- A parameter of a signature. -/
structure Parameter where
  name : String
  type : ColumnType
  default : Option Value
  batched : Bool
  deriving Repr

/-- The call contract of one overload. -/
structure Signature where
  parameters : List Parameter
  returnType : ColumnType
  batched : Bool
  deriving Repr

namespace Parameter

def hasDefault (p : Parameter) : Bool := p.default.isSome

def same (p q : Parameter) : Bool :=
  p.name == q.name && p.type == q.type && p.batched == q.batched &&
    match p.default, q.default with
    | none, none => true
    | some v, some w => v.same w
    | _, _ => false

def display (p : Parameter) : String :=
  p.name ++ ": " ++ (if p.batched then "batch[" ++ p.type.display ++ "]" else p.type.display) ++
    if p.hasDefault then " = ..." else ""

end Parameter

/-- Whether two lists agree one by one. -/
def allSame {α : Type} (same : α → α → Bool) : List α → List α → Bool
  | [], [] => true
  | a :: as, b :: bs => same a b && allSame same as bs
  | _, _ => false

namespace Signature

/-- Equality of signatures; defaults compare as values. -/
def same (s t : Signature) : Bool :=
  allSame Parameter.same s.parameters t.parameters && s.returnType == t.returnType &&
    s.batched == t.batched

def parameter? (s : Signature) (name : String) : Option Parameter :=
  s.parameters.find? fun p => p.name == name

def batchedParameters (s : Signature) : List Parameter := s.parameters.filter (·.batched)

/-- The number of parameters without default. -/
def required (s : Signature) : Nat := (s.parameters.filter fun p => !p.hasDefault).length

/-- The conversion of an argument to a parameter. -/
def argument? (arg : ColumnType) (p : Parameter) : Option Conversion :=
  if arg.isInvalid then some .noop else arg.conversionTo? p.type

/-- The conversions of the arguments to the parameters; the parameters left
over must have defaults. -/
def acceptsFrom? : List ColumnType → List Parameter → Option (List Conversion)
  | [], ps => if ps.all Parameter.hasDefault then some [] else none
  | _ :: _, [] => none
  | arg :: args, p :: ps =>
    match argument? arg p, acceptsFrom? args ps with
    | some c, some cs => some (c :: cs)
    | _, _ => none

/-- The conversions that make arguments of the given types fit, one per
argument; `none` if they do not fit. At least as many arguments are needed as
there are parameters without default. -/
def accepts? (s : Signature) (args : List ColumnType) : Option (List Conversion) :=
  if args.length < s.required then none else acceptsFrom? args s.parameters

/-- Batching is all or nothing: a batch size needs a batched result and a
batched parameter, and a batched parameter needs a batch size. -/
def checkBatching (s : Signature) (function : String) (batchSize : Option Nat) :
    Except Error Unit :=
  match batchSize, s.batchedParameters with
  | some 0, _ => .error (.function (.invalidBatchSize function))
  | some _, ps =>
    if !s.batched then .error (.function (.batchReturnNotBatched function))
    else if ps.isEmpty then .error (.function (.batchWithoutBatchedParameter function))
    else .ok ()
  | none, p :: _ => .error (.function (.batchedParameterWithoutBatchSize function p.name))
  | none, [] => .ok ()

/-- The signature as text. -/
def display (s : Signature) : String :=
  "(" ++ String.intercalate ", " (s.parameters.map Parameter.display) ++ ") -> " ++
    if s.batched then "batch[" ++ s.returnType.display ++ "]" else s.returnType.display

theorem length_of_acceptsFrom? {args : List ColumnType} {ps : List Parameter}
    {cs : List Conversion} (h : acceptsFrom? args ps = some cs) : cs.length = args.length := by
  induction args generalizing ps cs with
  | nil =>
    rw [acceptsFrom?] at h
    split at h <;> cases h
    rfl
  | cons arg args ih =>
    cases ps with
    | nil => cases h
    | cons p ps =>
      rw [acceptsFrom?] at h
      split at h
      · rename_i c cs' _ hcs
        cases h
        simp [ih hcs]
      · cases h

/-- There is one conversion per argument. -/
theorem length_of_accepts? {s : Signature} {args : List ColumnType} {cs : List Conversion}
    (h : s.accepts? args = some cs) : cs.length = args.length := by
  unfold accepts? at h
  split at h
  · cases h
  · exact length_of_acceptsFrom? h

end Signature
end Cadastre
