/-
# Look-ups by position

To resolve a call is to find the position of an overload, and what follows takes its
signature, its template or its callable from that position; the parameters left over are
those from the position after the last argument on. Here the calls are written with these
look-ups in view: a call has no result if one of them is out of range, and a failure is a
result like any other. The same goes for the lists that are gone through side by side, a
chunk's columns with the parameters and the values of a row, and for the loop over a
batch, which is written turn by turn and has no result if the turns do not come to an end.

Of a function with a template or a callable for each signature no look-up is ever out of
range, and the loop ends with the turn after the last row, whatever the size of its chunks
(`BoundFunction.positionalCallExpr_eq`, `BoundFunction.turns_eq`,
`BoundFunction.positionalExecBatch_eq`). Nothing is asked of the signatures themselves. The
position of an overload comes from the search that accepted the arguments, and these are
accepted only if they do not outnumber the parameters. What the loop keeps is that its
chunk has a column for each parameter (`BoundFunction.Fitted`).

Key definitions: `Signature.positionalAccepts?`, `BoundFunction.positionalOverload`,
`BoundFunction.positionalCallExpr`, `BoundFunction.positionalExec`,
`BoundFunction.Fitted`, `BoundFunction.turn`, `BoundFunction.positionalExecBatch`.
Key theorems: `Signature.positionalAccepts?_eq`, `BoundFunction.positionalOverload_eq`,
`BoundFunction.positionalCallExpr_eq`, `BoundFunction.positionalExec_eq`,
`BoundFunction.Fitted.push`, `BoundFunction.turns_eq`,
`BoundFunction.positionalExecBatch_eq`.
-/
import Cadastre.Proofs.HostCalls

namespace Cadastre

/-! ### Accepting arguments -/

namespace Signature

/-- The conversions of the arguments, if they are accepted. The parameters left over are
those from the position after the last argument on. -/
def positionalAccepts? (s : Signature) (args : List ColumnType) :
    Option (Option (List Conversion)) :=
  if s.parameters.length < args.length ∨ args.length < s.required then some none
  else if args.length ≤ s.parameters.length then
    if (s.parameters.drop args.length).all Parameter.hasDefault = true then
      some ((args.zip s.parameters).mapM fun a => argument? a.1 a.2)
    else some none
  else none

/-- The recursion over arguments and parameters, in one step. -/
theorem acceptsFrom?_eq (args : List ColumnType) (ps : List Parameter) :
    acceptsFrom? args ps =
      if args.length ≤ ps.length ∧ (ps.drop args.length).all Parameter.hasDefault = true then
        (args.zip ps).mapM fun a => argument? a.1 a.2
      else none := by
  induction args generalizing ps with
  | nil =>
    rw [acceptsFrom?]
    simp
  | cons arg args ih =>
    cases ps with
    | nil => rfl
    | cons p ps =>
      rw [acceptsFrom?, ih ps]
      simp only [List.length_cons, Nat.add_le_add_iff_right, List.drop_succ_cons,
        List.zip_cons_cons, List.mapM_cons]
      by_cases hleft : args.length ≤ ps.length ∧
          (ps.drop args.length).all Parameter.hasDefault = true
      · rw [if_pos hleft, if_pos hleft]
        cases argument? arg p with
        | none => rfl
        | some c => cases (args.zip ps).mapM fun a => argument? a.1 a.2 <;> rfl
      · rw [if_neg hleft, if_neg hleft]
        cases argument? arg p <;> rfl

/-- Arguments that are not too many leave parameters over that can be taken. -/
theorem positionalAccepts?_eq (s : Signature) (args : List ColumnType) :
    s.positionalAccepts? args = some (s.accepts? args) := by
  unfold positionalAccepts? accepts?
  rw [acceptsFrom?_eq]
  by_cases hmany : s.parameters.length < args.length
  · simp [hmany, Nat.not_le_of_lt hmany]
  · have hle : args.length ≤ s.parameters.length := Nat.le_of_not_lt hmany
    simp only [hmany, hle, false_or, if_true, true_and]
    by_cases hfew : args.length < s.required
    · rw [if_pos hfew, if_pos hfew]
    · rw [if_neg hfew, if_neg hfew]
      split <;> rfl

end Signature

namespace BoundFunction

/-! ### Resolving a call -/

/-- The position of the first signature that accepts the arguments, counted from
`index`, and the conversions. -/
def firstPosition (args : List ColumnType) (index : Nat) :
    List Signature → Option (Option (Nat × List Conversion))
  | [] => some none
  | s :: ss =>
    match s.positionalAccepts? args with
    | none => none
    | some (some cs) => some (some (index, cs))
    | some none => firstPosition args (index + 1) ss

theorem firstPosition_eq (args : List ColumnType) (index : Nat) (ss : List Signature) :
    firstPosition args index ss =
      some ((firstAccepting args index ss).map fun found => (found.1, found.2.2)) := by
  induction ss generalizing index with
  | nil => rfl
  | cons s ss ih =>
    rw [firstPosition, firstAccepting, Signature.positionalAccepts?_eq]
    cases s.accepts? args with
    | none => exact ih (index + 1)
    | some cs => rfl

/-- The position of the overload, and the conversions of the arguments. -/
def positionalOverload (f : BoundFunction) (args : List ColumnType) :
    Option (Except Error (Nat × List Conversion)) :=
  (firstPosition args 0 f.signatures).map fun found =>
    match found with
    | some r => .ok r
    | none => .error (.function (.noMatchingOverload f.qualifiedName args))

theorem positionalOverload_eq (f : BoundFunction) (args : List ColumnType) :
    f.positionalOverload args = some (f.resolveOverload args) := by
  unfold positionalOverload resolveOverload resolve
  rw [firstPosition_eq]
  cases firstAccepting args 0 f.signatures <;> rfl

/-- A call of the function; the template, or the signature for the type, is taken from
the position of the overload. -/
def positionalCallExpr (f : BoundFunction) (args : List Expr) : Option (Except Error Expr) :=
  (f.positionalOverload (args.map Expr.type)).bind fun found =>
    match found with
    | .error e => some (.error e)
    | .ok (i, _) =>
      match f.implementation with
      | .templates ts => ts[i]?.map fun t => .ok (t.instantiate args)
      | .callables _ => f.signatures[i]?.map fun s => .ok (.call f.ref i args s.returnType)

/-- With a template for each signature there is one for the overload. -/
theorem positionalCallExpr_eq {f : BoundFunction} (hf : f.Complete) (args : List Expr) :
    f.positionalCallExpr args = some (f.callExpr args) := by
  rw [positionalCallExpr, positionalOverload_eq, resolveOverload, callExpr]
  cases hresolve : f.resolve (args.map Expr.type) with
  | error e => rfl
  | ok r =>
    obtain ⟨i, s, cs⟩ := r
    obtain ⟨hs, _⟩ := resolve_eq_ok hresolve
    simp only [Except.map, Option.bind_some]
    cases himplementation : f.implementation with
    | callables cs => simp [hs]
    | templates ts =>
      have hi : i < ts.length := by
        rw [hf.templates ts himplementation]
        exact (List.getElem?_eq_some_iff.1 hs).1
      simp [List.getElem?_eq_getElem hi]

/-! ### Executing rows -/

/-- The position of the overload of a row of values, and the values, converted to the
parameters of the signature there. -/
def positionalRow (f : BoundFunction) (row : List Value) :
    Option (Except Error (Nat × List Value)) :=
  (f.positionalOverload (row.map Value.type)).bind fun found =>
    match found with
    | .error e => some (.error e)
    | .ok (i, cs) =>
      f.signatures[i]?.map fun s => (convertArgs s.parameters cs row).map fun vs => (i, vs)

theorem positionalRow_eq (f : BoundFunction) (row : List Value) :
    f.positionalRow row = some ((f.resolveRow row).map fun x => (x.1, x.2.2)) := by
  rw [positionalRow, positionalOverload_eq, resolveOverload, resolveRow]
  cases hresolve : f.resolve (row.map Value.type) with
  | error e => rfl
  | ok r =>
    obtain ⟨i, s, cs⟩ := r
    obtain ⟨hs, _⟩ := resolve_eq_ok hresolve
    simp only [Except.map, Option.bind_some, hs, Option.map_some]
    cases convertArgs s.parameters cs row <;> rfl

/-- The callable at the position of an overload; a template has none to look for. -/
def positionalCallable (f : BoundFunction) (overload : Nat) : Option (Except Error Callable) :=
  match f.implementation with
  | .callables cs => cs[overload]?.map .ok
  | .templates _ => some (.error (.function (.notCallable f.qualifiedName)))

theorem positionalCallable_eq {f : BoundFunction} (hf : f.Complete) {i : Nat} {s : Signature}
    (hs : f.signatures[i]? = some s) : f.positionalCallable i = some (f.callable i) := by
  unfold positionalCallable callable
  cases himplementation : f.implementation with
  | templates ts => rfl
  | callables cs =>
    have hi : i < cs.length := by
      rw [hf.callables cs himplementation]
      exact (List.getElem?_eq_some_iff.1 hs).1
    simp [List.getElem?_eq_getElem hi]

/-- Calls the function on a row of values. -/
def positionalExec (f : BoundFunction) (row : List Value) : Option (Except Error Value) :=
  (f.positionalRow row).bind fun found =>
    match found with
    | .error e => some (.error e)
    | .ok (i, vs) => (f.positionalCallable i).map fun callable => callable.bind fun c => c.call vs

theorem positionalExec_eq {f : BoundFunction} (hf : f.Complete) (row : List Value) :
    f.positionalExec row = some (f.exec row) := by
  rw [positionalExec, positionalRow_eq, exec]
  cases hrow : f.resolveRow row with
  | error e => rfl
  | ok x =>
    obtain ⟨i, s, vs⟩ := x
    have hs : f.signatures[i]? = some s := (passes_of_resolveRow hrow).1
    simp only [Except.map, Option.bind_some, positionalCallable_eq hf hs, Option.map_some]
    cases f.callable i <;> rfl

/-- Executes row after row. -/
def positionalExecRows (f : BoundFunction) : List (List Value) → Option (Except Error (List Value))
  | [] => some (.ok [])
  | row :: rows =>
    (f.positionalExec row).bind fun result =>
      match result with
      | .error e => some (.error e)
      | .ok v => (positionalExecRows f rows).map fun rest => rest.map fun vs => v :: vs

theorem positionalExecRows_eq {f : BoundFunction} (hf : f.Complete) (rows : List (List Value)) :
    f.positionalExecRows rows = some (f.execRows rows) := by
  induction rows with
  | nil => rfl
  | cons row rows ih =>
    rw [positionalExecRows, positionalExec_eq hf, execRows, ih]
    cases f.exec row with
    | error e => rfl
    | ok v => cases f.execRows rows <;> rfl

/-! ### Executing chunks -/

/-- `f.Fitted call`: the call is for an overload of the function and has a column for
each parameter of it, of as many values as it should have. -/
def Fitted (f : BoundFunction) (call : HostCall) : Prop :=
  ∃ s, f.signatures[call.overload]? = some s ∧
    List.Forall₂ (Parameter.Fills call.rows) s.parameters call.columns

variable {f : BoundFunction} {c : Chunk} {i : Nat} {s : Signature} {vs : List Value}

theorem fitted_row {row : List Value} (h : f.resolveRow row = .ok (i, s, vs)) :
    f.Fitted (.row i vs) := by
  obtain ⟨hs, _, hpasses⟩ := passes_of_resolveRow h
  exact ⟨s, hs, Chunk.fills_map_singleton hpasses.length_eq⟩

theorem fitted_ofRow {row : List Value} (h : f.resolveRow row = .ok (i, s, vs)) :
    f.Fitted (.chunk (.ofRow i vs)) := fitted_row h

/-- A chunk stays fitted if a row of its overload joins. -/
theorem Fitted.push (hc : f.Fitted (.chunk c)) {row : List Value}
    (h : f.resolveRow row = .ok (i, s, vs)) (hi : i = c.overload) :
    f.Fitted (.chunk (c.push s vs)) := by
  obtain ⟨t, ht, hfills⟩ := hc
  obtain ⟨hs, _, hpasses⟩ := passes_of_resolveRow h
  rw [hi] at hs
  obtain rfl : s = t := Option.some.inj (hs.symm.trans ht)
  exact ⟨s, hs, Chunk.fills_extend hfills hpasses.length_eq⟩

/-- Whether a row fits a chunk. The parameters, the columns and the values are gone
through side by side, and none of them may run out before the others. -/
def positionalFits (c : Chunk) (i : Nat) (s : Signature) (vs : List Value) : Option Bool :=
  if i = c.overload then
    if c.columns.length = s.parameters.length ∧ vs.length = s.parameters.length then
      some (c.fits i s vs)
    else none
  else some false

theorem positionalFits_eq (hc : f.Fitted (.chunk c)) {row : List Value}
    (h : f.resolveRow row = .ok (i, s, vs)) : positionalFits c i s vs = some (c.fits i s vs) := by
  obtain ⟨t, ht, hfills⟩ := hc
  obtain ⟨hs, _, hpasses⟩ := passes_of_resolveRow h
  unfold positionalFits
  by_cases hi : i = c.overload
  · rw [hi] at hs
    obtain rfl : s = t := Option.some.inj (hs.symm.trans ht)
    rw [if_pos hi, if_pos ⟨hfills.length_eq.symm, hpasses.length_eq⟩]
  · simp [hi, Chunk.fits]

/-- Calls a chunk. -/
def positionalCallChunk (f : BoundFunction) (c : Chunk) : Option (Except Error (List Value)) :=
  (f.positionalCallable c.overload).map fun callable =>
    callable.bind fun callable =>
      (callable.callBatch c.columns c.rows).bind fun out =>
        if out.length = c.rows then .ok out
        else .error (.function (.batchResultLength f.qualifiedName c.rows out.length))

theorem positionalCallChunk_eq (hf : f.Complete) (hc : f.Fitted (.chunk c)) :
    f.positionalCallChunk c = some (f.callChunk c) := by
  obtain ⟨s, hs, _⟩ := hc
  have hs : f.signatures[c.overload]? = some s := hs
  rw [positionalCallChunk, positionalCallable_eq hf hs, callChunk, Option.map_some]
  cases f.callable c.overload with
  | error e => rfl
  | ok callable =>
    show some ((callable.callBatch c.columns c.rows).bind _) = _
    dsimp only
    cases callable.callBatch c.columns c.rows <;> rfl

/-- The loop over the rows of a batch, between two turns. -/
structure Batching where
  /-- The rows to come. -/
  rows : List (List Value)
  /-- The rows that have not been called yet. -/
  chunk : Option Chunk
  /-- The results so far. -/
  results : List Value

/-- A turn of the loop takes the next row in or, after the last one, ends the loop. The
signature by which the row fits the chunk is taken from the position of its overload. -/
def turn (f : BoundFunction) (size : Nat) :
    Batching → Option (Batching ⊕ Except Error (List Value))
  | ⟨[], none, results⟩ => some (.inr (.ok results))
  | ⟨[], some c, results⟩ =>
    (f.positionalCallChunk c).map fun answer => .inr (answer.map fun out => results ++ out)
  | ⟨row :: rows, chunk, results⟩ =>
    (f.positionalRow row).bind fun found =>
      match found with
      | .error e => some (.inr (.error e))
      | .ok (i, vs) =>
        f.signatures[i]?.bind fun s =>
          match chunk with
          | none => some (.inl ⟨rows, some (.ofRow i vs), results⟩)
          | some c =>
            (positionalFits c i s vs).bind fun fits =>
              if c.rows < size ∧ fits = true then
                some (.inl ⟨rows, some (c.push s vs), results⟩)
              else
                (f.positionalCallChunk c).map fun answer =>
                  match answer with
                  | .error e => .inr (.error e)
                  | .ok out => .inl ⟨rows, some (.ofRow i vs), results ++ out⟩

/-- At most so many turns, up to the end of the loop. -/
def turns (f : BoundFunction) (size : Nat) :
    Nat → Batching → Option (Batching ⊕ Except Error (List Value))
  | 0, b => some (.inl b)
  | n + 1, b =>
    (f.turn size b).bind fun next =>
      match next with
      | .inl b => turns f size n b
      | .inr result => some (.inr result)

/-- The loop ends after a turn for each row and one more, for any size of the chunks. Its
chunk is fitted all along. -/
theorem turns_eq (hf : f.Complete) (size : Nat) (rows : List (List Value)) {chunk : Option Chunk}
    (hchunk : ∀ c ∈ chunk, f.Fitted (.chunk c)) (results : List Value) :
    f.turns size (rows.length + 1) ⟨rows, chunk, results⟩ =
      some (.inr ((f.execChunks size chunk rows).map fun out => results ++ out)) := by
  induction rows generalizing chunk results with
  | nil =>
    cases chunk with
    | none => simp [turns, turn, execChunks, Except.map]
    | some c => simp [turns, turn, execChunks, positionalCallChunk_eq hf (hchunk c rfl)]
  | cons row rows ih =>
    rw [List.length_cons, turns, turn, positionalRow_eq]
    cases hrow : f.resolveRow row with
    | error e => cases chunk <;> simp [execChunks, hrow, Except.map]
    | ok x =>
      obtain ⟨i, s, vs⟩ := x
      have hs : f.signatures[i]? = some s := (passes_of_resolveRow hrow).1
      have hnew : ∀ c ∈ some (Chunk.ofRow i vs), f.Fitted (.chunk c) := by
        intro c hc
        rw [← Option.some.inj hc]
        exact fitted_ofRow hrow
      simp only [Except.map, Option.bind_some, hs]
      cases chunk with
      | none => simp only [execChunks, hrow, Option.bind_some, ih hnew, Except.map]
      | some c =>
        have hc := hchunk c rfl
        simp only [execChunks, hrow, positionalFits_eq hc hrow, Option.bind_some]
        by_cases hjoin : c.rows < size ∧ c.fits i s vs = true
        · have hpush : ∀ d ∈ some (c.push s vs), f.Fitted (.chunk d) := by
            intro d hd
            rw [← Option.some.inj hd]
            exact hc.push hrow (Chunk.overload_eq_of_fits hjoin.2)
          rw [if_pos hjoin, if_pos hjoin]
          exact ih hpush results
        · rw [if_neg hjoin, if_neg hjoin, positionalCallChunk_eq hf hc]
          cases f.callChunk c with
          | error e => rfl
          | ok out =>
            simp only [Option.map_some, Option.bind_some, ih hnew]
            cases f.execChunks size (some (.ofRow i vs)) rows <;> simp [Except.map]

/-- Calls the function on many rows. There is no result either if the loop takes more
turns than one for each row and one to end. -/
def positionalExecBatch (f : BoundFunction) (rows : List (List Value)) :
    Option (Except Error (List Value)) :=
  match f.batchSize with
  | some n => (f.turns n (rows.length + 1) ⟨rows, none, []⟩).bind Sum.getRight?
  | none => f.positionalExecRows rows

theorem positionalExecBatch_eq (hf : f.Complete) (rows : List (List Value)) :
    f.positionalExecBatch rows = some (f.execBatch rows) := by
  unfold positionalExecBatch execBatch
  cases f.batchSize with
  | none => exact positionalExecRows_eq hf rows
  | some n =>
    dsimp only
    rw [turns_eq hf n rows (fun c hc => by cases hc) []]
    cases f.execChunks n none rows <;> rfl

end BoundFunction
end Cadastre
