/-
# Loaded functions are safe to call

The record of a stored function may have been written by anyone. What it says of its
signatures, templates, flags and batch size is taken as it stands, and few contradictions
are refused on loading: a record needs signatures, and a template an expression for each.
This is enough (`BoundFunction.Complete.safe`). A loaded function that is called on
whatever types, expressions or values looks nothing up out of range, so the error for an
unknown overload is never its own, only at most one that the host's code reports
(`BoundFunction.Failure`).

A batch size of any number does no harm either. A chunk takes a row in whether or not it
may have one, so no chunk is empty, and the chunks that are called have no more rows
between them than there are. With a size of 0 no row can join another, as with a size of 1
(`Agenda.ofChunks_zero`).

Key definitions: `HostCall.totalRows`, `BoundFunction.Failure`, `BoundFunction.Safe`.
Key theorems: `Agenda.totalRows_ofChunks_le`, `Agenda.ofChunks_zero`,
`BoundFunction.failure_of_carryOut`, `BoundFunction.Failure.unknownOverload`,
`BoundFunction.Complete.safe`, `Catalog.safeLoading`.
-/
import Cadastre.Proofs.Positions

namespace Cadastre

/-! ### How many rows are called -/

namespace HostCall

/-- How many rows the calls are made for. -/
def totalRows : List HostCall → Nat
  | [] => 0
  | call :: calls => call.rows + totalRows calls

theorem totalRows_append (calls more : List HostCall) :
    totalRows (calls ++ more) = totalRows calls + totalRows more := by
  induction calls with
  | nil => exact (Nat.zero_add _).symm
  | cons call calls ih => rw [List.cons_append, totalRows, totalRows, ih, Nat.add_assoc]

/-- Calls that are made for a row at least are no more than the rows. -/
theorem length_le_totalRows {calls : List HostCall} (h : ∀ call ∈ calls, 0 < call.rows) :
    calls.length ≤ totalRows calls := by
  induction calls with
  | nil => exact Nat.le_refl 0
  | cons call calls ih =>
    obtain ⟨hcall, hcalls⟩ := List.forall_mem_cons.1 h
    have hle := ih hcalls
    rw [totalRows, List.length_cons]
    omega

end HostCall

open HostCall (totalRows)

namespace Agenda

variable {resolve : List Value → Except Error ResolvedRow} {size : Nat} {open? : Option Chunk}
  {rows : List (List Value)} {e : Error}

theorem totalRows_ofRows_le : totalRows (ofRows resolve rows).calls ≤ rows.length := by
  induction rows with
  | nil => exact Nat.le_refl 0
  | cons row rows ih =>
    rw [ofRows]
    cases resolve row with
    | error e => exact Nat.zero_le _
    | ok x =>
      simp only [cons, totalRows, List.length_cons, HostCall.rows]
      omega

/-- The chunks have the rows of the open chunk between them, and at most those that follow. -/
theorem totalRows_ofChunks_le :
    totalRows (ofChunks resolve size open? rows).calls ≤
      (open?.map Chunk.rows).getD 0 + rows.length := by
  induction rows generalizing open? with
  | nil => cases open? <;> simp [ofChunks, totalRows, HostCall.rows]
  | cons row rows ih =>
    cases hx : resolve row with
    | error e => cases open? <;> simp [ofChunks, totalRows, hx]
    | ok x =>
      have hnew := @ih (some (.ofRow x.overload x.values))
      simp only [Option.map_some, Option.getD_some, Chunk.ofRow] at hnew
      cases open? with
      | none =>
        simp only [ofChunks, hx, Chunk.ofRow, Option.map_none, Option.getD_none, List.length_cons]
        omega
      | some c =>
        simp only [ofChunks, hx, Option.map_some, Option.getD_some, List.length_cons]
        split
        · have hpush := @ih (some (c.push x.signature x.values))
          simp only [Option.map_some, Option.getD_some, Chunk.push] at hpush ⊢
          omega
        · simp only [cons, totalRows, HostCall.rows, Chunk.ofRow]
          omega

/-- Where no row may join a chunk, none joins one that has a row. -/
theorem ofChunks_zero (hopen : ∀ c ∈ open?, 0 < c.rows) :
    ofChunks resolve 0 open? rows = ofChunks resolve 1 open? rows := by
  induction rows generalizing open? with
  | nil => cases open? <;> rfl
  | cons row rows ih =>
    have hnew : ∀ x : ResolvedRow, ∀ c ∈ some (Chunk.ofRow x.overload x.values), 0 < c.rows := by
      intro x c hc
      rw [← Option.some.inj hc]
      exact Nat.one_pos
    cases hx : resolve row with
    | error e => cases open? <;> simp [ofChunks, hx]
    | ok x =>
      cases open? with
      | none => simp only [ofChunks, hx, ih (hnew x)]
      | some c =>
        have hc := hopen c rfl
        have hzero : ¬ c.rows < 0 := Nat.not_lt_zero _
        have hone : ¬ c.rows < 1 := by omega
        simp only [ofChunks, hx, hzero, hone, false_and, if_false, ih (hnew x)]

/-- The error that comes after the calls is that of a row. -/
theorem exists_row_of_error_ofRows (h : (ofRows resolve rows).error = some e) :
    ∃ row ∈ rows, resolve row = .error e := by
  induction rows with
  | nil => cases h
  | cons row rows ih =>
    rw [ofRows] at h
    cases hx : resolve row with
    | error e' =>
      rw [hx] at h
      cases h
      exact ⟨row, List.mem_cons_self, hx⟩
    | ok x =>
      rw [hx] at h
      obtain ⟨row', hrow', he⟩ := ih h
      exact ⟨row', List.mem_cons_of_mem _ hrow', he⟩

theorem exists_row_of_error_ofChunks (h : (ofChunks resolve size open? rows).error = some e) :
    ∃ row ∈ rows, resolve row = .error e := by
  induction rows generalizing open? with
  | nil => cases open? <;> cases h
  | cons row rows ih =>
    cases hx : resolve row with
    | error e' =>
      have he : e' = e := by cases open? <;> simpa [ofChunks, hx] using h
      exact ⟨row, List.mem_cons_self, he ▸ hx⟩
    | ok x =>
      have hrest : ∃ open?, (ofChunks resolve size open? rows).error = some e := by
        cases open? with
        | none => exact ⟨_, by simpa [ofChunks, hx] using h⟩
        | some c =>
          simp only [ofChunks, hx] at h
          split at h
          · exact ⟨_, h⟩
          · exact ⟨_, h⟩
      obtain ⟨_, hrest⟩ := hrest
      obtain ⟨row', hrow', he⟩ := ih hrest
      exact ⟨row', List.mem_cons_of_mem _ hrow', he⟩

end Agenda

namespace BoundFunction

variable {f : BoundFunction} {rows : List (List Value)} {calls : List HostCall} {e : Error}

/-- The calls that are made are the first of those that are due. -/
theorem exists_made_append (f : BoundFunction) (calls : List HostCall) :
    ∃ rest, f.made calls ++ rest = calls := by
  induction calls with
  | nil => exact ⟨[], rfl⟩
  | cons call calls ih =>
    rw [made]
    cases f.answer call with
    | error e => exact ⟨calls, rfl⟩
    | ok out =>
      obtain ⟨rest, hrest⟩ := ih
      exact ⟨rest, congrArg (call :: ·) hrest⟩

/-- The calls that a batch makes are for different rows of it. -/
theorem totalRows_execBatchCalls_le (f : BoundFunction) (rows : List (List Value)) :
    totalRows (f.execBatchCalls rows) ≤ rows.length := by
  have hdue : totalRows (f.batchAgenda rows).calls ≤ rows.length := by
    unfold batchAgenda
    cases f.batchSize with
    | none => exact Agenda.totalRows_ofRows_le
    | some size =>
      refine Nat.le_trans Agenda.totalRows_ofChunks_le ?_
      simp
  obtain ⟨rest, hrest⟩ := exists_made_append f (f.batchAgenda rows).calls
  rw [← hrest, HostCall.totalRows_append] at hdue
  exact Nat.le_trans (Nat.le_add_right _ _) hdue

/-! ### The calls are fitted -/

/-- Every call that is due for a batch is fitted, and for at least one row. -/
theorem fitted_of_mem_batchAgenda :
    ∀ call ∈ (f.batchAgenda rows).calls, f.Fitted call ∧ 0 < call.rows := by
  unfold batchAgenda
  cases f.batchSize with
  | none =>
    exact Agenda.forall_mem_ofRows fun _ _ x hx => ⟨fitted_row hx, Nat.one_pos⟩
  | some size =>
    intro call hcall
    have hchunks := Agenda.forall_mem_ofChunks
      (P := fun c => f.Fitted (.chunk c) ∧ 0 < c.rows)
      (fun c (hc : c ∈ none) => by cases hc)
      (fun _ _ x hx => ⟨fitted_ofRow hx, Nat.one_pos⟩)
      (fun _ _ x c hx hc _ hfits => ⟨hc.1.push hx (Chunk.overload_eq_of_fits hfits), Nat.succ_pos _⟩)
      call hcall
    obtain ⟨c, rfl, hc⟩ := hchunks
    exact hc

/-- No chunk has more rows than the size, or one. -/
theorem rows_le_of_mem_batchAgenda {size : Nat} (hsize : f.batchSize = some size) :
    ∀ call ∈ (f.batchAgenda rows).calls, call.rows ≤ max size 1 := by
  unfold batchAgenda
  rw [hsize]
  intro call hcall
  have hchunks := Agenda.forall_mem_ofChunks (P := fun c => c.rows ≤ max size 1)
    (fun c (hc : c ∈ none) => by cases hc)
    (fun _ _ x _ => Nat.le_max_right _ _)
    (fun _ _ x c _ _ hlt _ => Nat.le_trans hlt (Nat.le_max_left _ _))
    call hcall
  obtain ⟨c, rfl, hc⟩ := hchunks
  exact hc

end BoundFunction

/-! ### How a call fails -/

/-- What the callable gives back. -/
def Callable.run (c : Callable) : HostCall → Except Error (List Value)
  | .row _ args => (c.call args).map fun v => [v]
  | .chunk chunk => c.callBatch chunk.columns chunk.rows

namespace BoundFunction

variable {f : BoundFunction} {rows : List (List Value)} {calls : List HostCall} {e : Error}

/-- How the rows of a function fail, if `calls` are the calls that they make. -/
inductive Failure (f : BoundFunction) (rows : List (List Value)) (calls : List HostCall) :
    Error → Prop
  /-- No overload accepts the values of a row. -/
  | unmatched {row : List Value} (hrow : row ∈ rows) :
      Failure f rows calls
        (.function (.noMatchingOverload f.qualifiedName (row.map Value.type)))
  /-- An image of a row outgrows memory on its way to a parameter, or does not fill its own
  size. -/
  | outgrown {row : List Value} {c : Conversion} {v : Value} {e : Error} (hrow : row ∈ rows)
      (hv : v ∈ row) (houtgrown : c.Outgrown v e) : Failure f rows calls e
  /-- The function is a template. -/
  | template (htemplate : f.isTemplate = true) :
      Failure f rows calls (.function (.notCallable f.qualifiedName))
  /-- The host's code fails. -/
  | host {call : HostCall} {c : Callable} {e : Error} (hcall : call ∈ calls)
      (hc : f.callable call.overload = .ok c) (hrun : c.run call = .error e) : Failure f rows calls e
  /-- The host's code gives more or fewer results than the call has rows. -/
  | miscounted {call : HostCall} {out : List Value} (hcall : call ∈ calls)
      (hreply : f.reply call = .ok out) (hcount : out.length ≠ call.rows) :
      Failure f rows calls
        (.function (.batchResultLength f.qualifiedName call.rows out.length))

/-- Types are refused if no overload accepts them, and for nothing else. -/
theorem resolve_error {types : List ColumnType} (h : f.resolve types = .error e) :
    e = .function (.noMatchingOverload f.qualifiedName types) := by
  unfold resolve at h
  split at h
  · cases h
  · cases h
    rfl

/-- The error of a row that is not resolved. -/
theorem failure_of_resolveRow {row : List Value} (hrow : row ∈ rows)
    (h : f.resolveRow row = .error e) : f.Failure rows calls e := by
  unfold resolveRow at h
  split at h
  · rename_i e' hresolve
    cases h
    rw [resolve_error hresolve]
    exact .unmatched hrow
  · rename_i i s cs hresolve
    obtain ⟨_, haccepts⟩ := resolve_eq_ok hresolve
    rcases convertArgs_cases (Signature.acceptsFrom_of_accepts haccepts) with
      ⟨vs, hvs, _⟩ | ⟨e', he', c, v, hmem, houtgrown⟩
    · rw [hvs] at h
      cases h
    · rw [he'] at h
      cases h
      exact .outgrown hrow (List.of_mem_zip hmem).2 houtgrown

/-- The callable of an overload is wanting in templates only. -/
theorem template_of_callable (hf : f.Complete) {i : Nat} {s : Signature}
    (hs : f.signatures[i]? = some s) (h : f.callable i = .error e) :
    f.isTemplate = true ∧ e = .function (.notCallable f.qualifiedName) := by
  have hposition := positionalCallable_eq hf hs
  rw [h] at hposition
  unfold positionalCallable at hposition
  unfold isTemplate
  cases himplementation : f.implementation with
  | templates ts =>
    rw [himplementation] at hposition
    cases hposition
    exact ⟨rfl, rfl⟩
  | callables cs =>
    rw [himplementation] at hposition
    obtain ⟨c, _, hc⟩ := Option.map_eq_some_iff.1 hposition
    cases hc

theorem reply_eq (f : BoundFunction) (call : HostCall) :
    f.reply call = (f.callable call.overload).bind fun c => c.run call := by
  cases call <;> rfl

/-- The error of a fitted call that is not answered. -/
theorem failure_of_answer (hf : f.Complete) {call : HostCall} (hcall : call ∈ calls)
    (hfitted : f.Fitted call) (h : f.answer call = .error e) : f.Failure rows calls e := by
  obtain ⟨s, hs, _⟩ := hfitted
  cases hreply : f.reply call with
  | ok out =>
    rw [answer_of_reply hreply] at h
    split at h
    · cases h
    · rename_i hcount
      cases h
      exact .miscounted hcall hreply hcount
  | error e' =>
    have he : e' = e := by
      rw [answer, hreply] at h
      exact Except.error.inj h
    rw [reply_eq] at hreply
    cases hcallable : f.callable call.overload with
    | error e'' =>
      obtain ⟨htemplate, hnone⟩ := template_of_callable hf hs hcallable
      rw [hcallable] at hreply
      rw [← he, ← Except.error.inj hreply, hnone]
      exact .template htemplate
    | ok c =>
      rw [hcallable] at hreply
      exact .host hcall hcallable (he ▸ hreply)

/-- Calls fail with the first that is not answered. -/
theorem exists_call_of_callAll (h : f.callAll calls = .error e) :
    ∃ call ∈ f.made calls, f.answer call = .error e := by
  induction calls with
  | nil => cases h
  | cons call calls ih =>
    rw [callAll] at h
    rw [made]
    cases hanswer : f.answer call with
    | error e' =>
      rw [hanswer] at h
      cases h
      exact ⟨call, List.mem_cons_self, hanswer⟩
    | ok out =>
      rw [hanswer] at h
      have hrest : f.callAll calls = .error e := by
        cases hrest : f.callAll calls with
        | error e' =>
          simp only [Except.bind, hrest, Except.map] at h
          exact h
        | ok more => simp [Except.bind, hrest, Except.map] at h
      obtain ⟨call', hcall', he⟩ := ih hrest
      exact ⟨call', List.mem_cons_of_mem _ hcall', he⟩

/-- The calls that are due fail as one of them does, or as a row that is not resolved. -/
theorem failure_of_carryOut (hf : f.Complete) {a : Agenda}
    (hfitted : ∀ call ∈ a.calls, f.Fitted call)
    (hrows : ∀ e, a.error = some e → ∃ row ∈ rows, f.resolveRow row = .error e)
    (h : f.carryOut a = .error e) : f.Failure rows (f.made a.calls) e := by
  unfold carryOut at h
  cases hcalls : f.callAll a.calls with
  | error e' =>
    rw [hcalls] at h
    cases h
    obtain ⟨call, hcall, hanswer⟩ := exists_call_of_callAll hcalls
    exact failure_of_answer hf hcall (hfitted call (mem_of_mem_made hcall)) hanswer
  | ok out =>
    rw [hcalls] at h
    cases herror : a.error with
    | none => simp [Except.bind, herror] at h
    | some e' =>
      simp only [Except.bind, herror] at h
      cases h
      obtain ⟨row, hrow, hresolve⟩ := hrows _ herror
      exact failure_of_resolveRow hrow hresolve

theorem failure_of_exec (hf : f.Complete) {row : List Value} (h : f.exec row = .error e) :
    f.Failure [row] (f.execCalls row) e := by
  have hcarry := f.exec_eq_carryOut row
  rw [h] at hcarry
  exact failure_of_carryOut hf (Agenda.forall_mem_ofRows fun _ _ _ hx => fitted_row hx)
    (fun _ => Agenda.exists_row_of_error_ofRows) hcarry.symm

theorem failure_of_execBatch (hf : f.Complete) (h : f.execBatch rows = .error e) :
    f.Failure rows (f.execBatchCalls rows) e := by
  rw [execBatch_eq_carryOut] at h
  refine failure_of_carryOut hf (fun call hcall => (fitted_of_mem_batchAgenda call hcall).1) ?_ h
  intro e he
  unfold batchAgenda at he
  cases hsize : f.batchSize with
  | none =>
    rw [hsize] at he
    exact Agenda.exists_row_of_error_ofRows he
  | some size =>
    rw [hsize] at he
    exact Agenda.exists_row_of_error_ofChunks he

/-- An error with the code for unknown overloads is one that the host's code reports. -/
theorem Failure.unknownOverload (h : f.Failure rows calls e) (he : e.code = "TYPE_011") :
    ∃ call ∈ calls, ∃ c, f.callable call.overload = .ok c ∧ c.run call = .error e := by
  cases h with
  | unmatched => exact absurd (show "TYPE_010" = "TYPE_011" from he) (by decide)
  | outgrown _ _ houtgrown =>
    cases houtgrown with
    | tooLarge => exact absurd (show "TYPE_008" = "TYPE_011" from he) (by decide)
    | breakdown => exact absurd (show "panic" = "TYPE_011" from he) (by decide)
    | outOfRange => exact absurd (show "panic" = "TYPE_011" from he) (by decide)
  | template => exact absurd (show "EXECUTION_002" = "TYPE_011" from he) (by decide)
  | host hcall hc hrun => exact ⟨_, hcall, _, hc, hrun⟩
  | miscounted => exact absurd (show "EXECUTION_001" = "TYPE_011" from he) (by decide)

/-! ### Safe functions -/

/-- `f.Safe`: whatever the function is called on, nothing is looked up out of range, no
overload is unknown, and a batch comes to an end after at most one call per row. -/
structure Safe (f : BoundFunction) : Prop where
  /-- Every look-up of a call is in range. -/
  resolveOverload_eq : ∀ types, f.positionalOverload types = some (f.resolveOverload types)
  callExpr_eq : ∀ args, f.positionalCallExpr args = some (f.callExpr args)
  exec_eq : ∀ row, f.positionalExec row = some (f.exec row)
  /-- So is every look-up for a batch, and the loop over its rows comes to an end. -/
  execBatch_eq : ∀ rows, f.positionalExecBatch rows = some (f.execBatch rows)
  /-- A call of the host's code has a column per parameter, with a value for each row if
  the parameter is batched and one value if it is not. -/
  execCalls_fitted : ∀ row, ∀ call ∈ f.execCalls row, f.Fitted call
  execBatchCalls_fitted : ∀ rows, ∀ call ∈ f.execBatchCalls rows, f.Fitted call
  /-- A call is refused if no overload accepts it, and for nothing else. -/
  resolveOverload_error : ∀ types e, f.resolveOverload types = .error e →
    e = .function (.noMatchingOverload f.qualifiedName types)
  callExpr_error : ∀ args e, f.callExpr args = .error e →
    e = .function (.noMatchingOverload f.qualifiedName (args.map Expr.type))
  exec_error : ∀ row e, f.exec row = .error e → f.Failure [row] (f.execCalls row) e
  execBatch_error : ∀ rows e, f.execBatch rows = .error e →
    f.Failure rows (f.execBatchCalls rows) e
  /-- The error for unknown overloads is one that the host's code reports. -/
  exec_unknown : ∀ row e, f.exec row = .error e → e.code = "TYPE_011" →
    ∃ call ∈ f.execCalls row, ∃ c, f.callable call.overload = .ok c ∧ c.run call = .error e
  execBatch_unknown : ∀ rows e, f.execBatch rows = .error e → e.code = "TYPE_011" →
    ∃ call ∈ f.execBatchCalls rows, ∃ c,
      f.callable call.overload = .ok c ∧ c.run call = .error e
  /-- There is at most one call per row: each is for rows of its own, and for one at least. -/
  calls_le : ∀ rows, (f.execBatchCalls rows).length ≤ rows.length
  totalRows_le : ∀ rows, totalRows (f.execBatchCalls rows) ≤ rows.length
  rows_pos : ∀ rows, ∀ call ∈ f.execBatchCalls rows, 0 < call.rows
  /-- No call is for more rows than the batch size, or one. -/
  rows_le : ∀ size, f.batchSize = some size →
    ∀ rows, ∀ call ∈ f.execBatchCalls rows, call.rows ≤ max size 1
  /-- A batch size of 0 does what one of 1 does. -/
  batchSize_zero : f.batchSize = some 0 → ∀ rows, f.execBatch rows = f.execChunks 1 none rows

theorem resolveOverload_error {types : List ColumnType} (h : f.resolveOverload types = .error e) :
    e = .function (.noMatchingOverload f.qualifiedName types) := by
  unfold resolveOverload at h
  cases hresolve : f.resolve types with
  | error e' =>
    rw [hresolve] at h
    cases h
    exact resolve_error hresolve
  | ok r =>
    rw [hresolve] at h
    cases h

theorem callExpr_error (hf : f.Complete) {args : List Expr} (h : f.callExpr args = .error e) :
    e = .function (.noMatchingOverload f.qualifiedName (args.map Expr.type)) := by
  have hposition := positionalCallExpr_eq hf args
  rw [h, positionalCallExpr, positionalOverload_eq, Option.bind_some] at hposition
  cases hresolve : f.resolveOverload (args.map Expr.type) with
  | error e' =>
    rw [hresolve] at hposition
    cases hposition
    exact resolveOverload_error hresolve
  | ok r =>
    rw [hresolve] at hposition
    dsimp only at hposition
    split at hposition
    · obtain ⟨_, _, hcall⟩ := Option.map_eq_some_iff.1 hposition
      cases hcall
    · obtain ⟨_, _, hcall⟩ := Option.map_eq_some_iff.1 hposition
      cases hcall

/-- A function with a template or a callable for each signature is safe, whatever its
signatures, flags and batch size. -/
theorem Complete.safe (hf : f.Complete) : f.Safe where
  resolveOverload_eq := f.positionalOverload_eq
  callExpr_eq := positionalCallExpr_eq hf
  exec_eq := positionalExec_eq hf
  execBatch_eq := positionalExecBatch_eq hf
  execCalls_fitted row call hcall :=
    Agenda.forall_mem_ofRows (fun _ _ _ hx => fitted_row hx) call (mem_of_mem_made hcall)
  execBatchCalls_fitted rows call hcall :=
    (fitted_of_mem_batchAgenda call (mem_of_mem_made hcall)).1
  resolveOverload_error _ _ := resolveOverload_error
  callExpr_error _ _ := callExpr_error hf
  exec_error _ _ := failure_of_exec hf
  execBatch_error _ _ := failure_of_execBatch hf
  exec_unknown _ _ h := (failure_of_exec hf h).unknownOverload
  execBatch_unknown _ _ h := (failure_of_execBatch hf h).unknownOverload
  calls_le rows := by
    refine Nat.le_trans (HostCall.length_le_totalRows fun call hcall => ?_)
      (f.totalRows_execBatchCalls_le rows)
    exact (fitted_of_mem_batchAgenda call (mem_of_mem_made hcall)).2
  totalRows_le := f.totalRows_execBatchCalls_le
  rows_pos rows call hcall := (fitted_of_mem_batchAgenda call (mem_of_mem_made hcall)).2
  rows_le size hsize rows call hcall :=
    rows_le_of_mem_batchAgenda hsize call (mem_of_mem_made hcall)
  batchSize_zero hsize rows := by
    rw [execBatch, hsize]
    dsimp only
    rw [execChunks_eq_carryOut, execChunks_eq_carryOut,
      Agenda.ofChunks_zero fun c hc => by cases hc]

end BoundFunction

/-- Whatever the record of a function says and whatever the loader makes of its body, a
function that is loaded is safe. -/
theorem Catalog.safeLoading {c : Catalog} {id : FunctionId} {load : CallableLoader}
    {f : BoundFunction} (h : (c.loadFunction id load).result = .ok f) : f.Safe :=
  (BoundFunction.Obtained.loaded h).complete.safe

namespace Sample

/-- The record of a function that no declaration leads to: a batch size of 0, a batched
parameter but no batched result, and a template that is not called for. -/
def stalledRecord : Record where
  dir := none
  content := .obj [("md", .obj [
    ("batch_size", .int 0),
    ("kind", .str "callable"),
    ("name", .str "stalled"),
    ("signatures", .arr [
      .obj [
        ("parameters", .arr [.obj [
          ("col_type", .obj [("type", .str "int")]),
          ("is_batched", .bool true),
          ("name", .str "start")]]),
        ("return_type", .obj [("type", .str "int")])],
      .obj [
        ("parameters", .arr []),
        ("return_type", .obj [("type", .str "string")])]]),
    ("templates", .arr [.obj [
      ("expr", .obj [
        ("col_type", .obj [("type", .str "int")]),
        ("kind", .str "column"),
        ("name", .str "a")]),
      ("signature", .obj [
        ("parameters", .arr []),
        ("return_type", .obj [("type", .str "int")])])]])])]
  body := some [7]
  runtimeVersion := none

/-- A catalog that holds the record and nothing else. -/
def stalling : Catalog :=
  { start with store := SortedMap.insert .empty (.function (.ofNat 9)) stalledRecord }

/-- What is loaded of it. -/
def stalled : BoundFunction where
  id := .ofNat 9
  name := "stalled"
  path := none
  signatures := [⟨[⟨"start", .int, none, true⟩], .int, false⟩, ⟨[], .string, false⟩]
  implementation := .callables [lastArgument, lastArgument]
  batchSize := some 0
  isMethod := false
  isProperty := false
  pool := none

end Sample

/-- The record is loaded as it stands, and the function is safe. -/
theorem Sample.safeLoading_stalled :
    (Sample.stalling.loadFunction (.ofNat 9) fun _ => .ok Sample.lastArgument).result =
        .ok Sample.stalled ∧
      Sample.stalled.Safe := by
  have hload : (Sample.stalling.loadFunction (.ofNat 9) fun _ => .ok Sample.lastArgument).result =
      .ok Sample.stalled := rfl
  exact ⟨hload, Catalog.safeLoading hload⟩

end Cadastre
