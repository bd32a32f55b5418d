/-
# Functions that answer alike

What a function answers depends on its contract and, beyond that, on nothing but what
its callables answer: which instances they are and what bodies they have does not
matter, nor does the pool. So a function that copies another, with the same
identifier, names, signatures and batch size, the same templates, and callables that
answer alike, takes the same overloads, builds the same calls, and returns the same
values and errors, of single rows and of batches (`BoundFunction.Copies.answersAs`).

Batches are followed chunk by chunk: the two functions cut the rows at the same places,
since that is decided by the signatures alone (`BoundFunction.Copies.execChunks_eq`).

Key definitions: `Callable.AnswersAs`, `Implementation.AnswersAs`,
`BoundFunction.Copies`, `BoundFunction.AnswersAs`.
Key theorems: `BoundFunction.Copies.callable_cases`,
`BoundFunction.Copies.execChunks_eq`, `BoundFunction.Copies.answersAs`.
-/
import Cadastre.BoundFunction.Batch
import Mathlib.Data.List.Forall2

namespace Cadastre

/-- The first callable answers every call as the second. -/
structure Callable.AnswersAs (c d : Callable) : Prop where
  call : ∀ args, c.call args = d.call args
  callBatch : ∀ columns rows, c.callBatch columns rows = d.callBatch columns rows

/-- The implementations have the same templates, or callables that answer alike. -/
inductive Implementation.AnswersAs : Implementation → Implementation → Prop
  | callables {cs ds : List Callable} (h : List.Forall₂ Callable.AnswersAs cs ds) :
      AnswersAs (.callables cs) (.callables ds)
  | templates {ts : List ExprTemplate} : AnswersAs (.templates ts) (.templates ts)

namespace BoundFunction

/-- The first function is the second one, up to the instances and bodies of its
callables. What it is called as besides and its pool are not compared. -/
structure Copies (g f : BoundFunction) : Prop where
  id : g.id = f.id
  name : g.name = f.name
  path : g.path = f.path
  signatures : g.signatures = f.signatures
  batchSize : g.batchSize = f.batchSize
  implementation : g.implementation.AnswersAs f.implementation

/-- The first function has the identifier, the name and the contract of the second,
and cannot be told from it by its answers. -/
structure AnswersAs (g f : BoundFunction) : Prop where
  id : g.id = f.id
  name : g.name = f.name
  signatures : g.signatures = f.signatures
  batchSize : g.batchSize = f.batchSize
  resolveOverload : ∀ types, g.resolveOverload types = f.resolveOverload types
  callExpr : ∀ args, g.callExpr args = f.callExpr args
  exec : ∀ row, g.exec row = f.exec row
  execBatch : ∀ rows, g.execBatch rows = f.execBatch rows

theorem getElem?_of_answersAs {cs ds : List Callable}
    (h : List.Forall₂ Callable.AnswersAs cs ds) (i : Nat) :
    (∃ c d, cs[i]? = some c ∧ ds[i]? = some d ∧ c.AnswersAs d) ∨
      cs[i]? = none ∧ ds[i]? = none := by
  induction h generalizing i with
  | nil => exact .inr ⟨rfl, rfl⟩
  | @cons c d _ _ hcd _ ih =>
    cases i with
    | zero => exact .inl ⟨c, d, rfl, rfl, hcd⟩
    | succ i => exact ih i

namespace Copies

variable {g f : BoundFunction}

theorem qualifiedName_eq (h : g.Copies f) : g.qualifiedName = f.qualifiedName := by
  rw [qualifiedName, qualifiedName, h.path, h.name]

theorem ref_eq (h : g.Copies f) : g.ref = f.ref := by
  rw [ref, ref, h.path, h.id]

theorem resolve_eq (h : g.Copies f) (types : List ColumnType) :
    g.resolve types = f.resolve types := by
  rw [resolve, resolve, h.signatures, h.qualifiedName_eq]

theorem resolveRow_eq (h : g.Copies f) (row : List Value) : g.resolveRow row = f.resolveRow row := by
  rw [resolveRow, resolveRow, h.resolve_eq]

/-- An overload has callables that answer alike, or fails alike. -/
theorem callable_cases (h : g.Copies f) (i : Nat) :
    (∃ c d, g.callable i = .ok c ∧ f.callable i = .ok d ∧ c.AnswersAs d) ∨
      ∃ e, g.callable i = .error e ∧ f.callable i = .error e := by
  unfold callable
  rw [h.qualifiedName_eq]
  have himplementation := h.implementation
  generalize g.implementation = x at himplementation
  generalize f.implementation = y at himplementation
  cases himplementation with
  | templates => exact .inr ⟨_, rfl, rfl⟩
  | callables hall =>
    rcases getElem?_of_answersAs hall i with ⟨c, d, hc, hd, hcd⟩ | ⟨hc, hd⟩
    · dsimp only
      rw [hc, hd]
      exact .inl ⟨c, d, rfl, rfl, hcd⟩
    · dsimp only
      rw [hc, hd]
      exact .inr ⟨_, rfl, rfl⟩

theorem callExpr_eq (h : g.Copies f) (args : List Expr) : g.callExpr args = f.callExpr args := by
  unfold callExpr
  rw [h.resolve_eq, h.ref_eq, h.qualifiedName_eq]
  have himplementation := h.implementation
  generalize g.implementation = x at himplementation
  generalize f.implementation = y at himplementation
  cases himplementation <;> rfl

theorem exec_eq (h : g.Copies f) (row : List Value) : g.exec row = f.exec row := by
  unfold exec
  rw [h.resolveRow_eq]
  cases f.resolveRow row with
  | error e => rfl
  | ok r =>
    obtain ⟨i, s, vs⟩ := r
    dsimp only
    rcases h.callable_cases i with ⟨c, d, hc, hd, hcd⟩ | ⟨e, hg, hf⟩
    · rw [hc, hd]
      exact hcd.call vs
    · rw [hg, hf]

theorem callChunk_eq (h : g.Copies f) (chunk : Chunk) : g.callChunk chunk = f.callChunk chunk := by
  unfold callChunk
  rw [h.qualifiedName_eq]
  rcases h.callable_cases chunk.overload with ⟨c, d, hc, hd, hcd⟩ | ⟨e, hg, hf⟩
  · rw [hc, hd]
    dsimp only
    rw [hcd.callBatch]
  · rw [hg, hf]

/-- The rows are cut into the same chunks, whatever rows are waiting. -/
theorem execChunks_eq (h : g.Copies f) (size : Nat) (waiting : Option Chunk)
    (rows : List (List Value)) : g.execChunks size waiting rows = f.execChunks size waiting rows := by
  induction rows generalizing waiting with
  | nil =>
    cases waiting with
    | none => rfl
    | some c => exact h.callChunk_eq c
  | cons row rows ih =>
    cases waiting with
    | none => simp only [execChunks, h.resolveRow_eq, ih]
    | some c => simp only [execChunks, h.resolveRow_eq, h.callChunk_eq, ih]

theorem execRows_eq (h : g.Copies f) (rows : List (List Value)) :
    g.execRows rows = f.execRows rows := by
  induction rows with
  | nil => rfl
  | cons row rows ih => rw [execRows, execRows, h.exec_eq, ih]

theorem execBatch_eq (h : g.Copies f) (rows : List (List Value)) :
    g.execBatch rows = f.execBatch rows := by
  unfold execBatch
  rw [h.batchSize]
  cases f.batchSize with
  | none => exact h.execRows_eq rows
  | some n => exact h.execChunks_eq n none rows

/-- A copy of a function answers as the function. -/
theorem answersAs (h : g.Copies f) : g.AnswersAs f where
  id := h.id
  name := h.name
  signatures := h.signatures
  batchSize := h.batchSize
  resolveOverload types := by rw [resolveOverload, resolveOverload, h.resolve_eq]
  callExpr := h.callExpr_eq
  exec := h.exec_eq
  execBatch := h.execBatch_eq

end Copies
end BoundFunction
end Cadastre
