/-
# The calls of the host's code

To execute a function on rows is to call the host's code. Which calls are due, with
which values and in which order, is settled before the first of them is made: a row's
types choose the overload, its values are converted, and the rows are called one by one
(`Agenda.ofRows`) or collected in chunks (`Agenda.ofChunks`). None of this looks at a
callable. The calls are then made in order up to the first that is not answered
(`BoundFunction.made`), and the answers are joined. An execution is no more than that
(`BoundFunction.exec_eq_carryOut`, `BoundFunction.execBatch_eq_carryOut`), and so the
host's code matters by its answers to the calls that are made and by nothing else
(`BoundFunction.execBatch_congr`).

The call of a chunk passes the values of the rows that were collected in it: a batched
parameter's column has the value of every row, in order, and any other column the value
of the first row (`Chunk.Carries`). All these rows are of the chunk's overload
(`BoundFunction.Gathers`).

Key definitions: `HostCall`, `Agenda`, `Agenda.ofRows`, `Agenda.ofChunks`,
`BoundFunction.answer`, `BoundFunction.made`, `BoundFunction.execCalls`,
`BoundFunction.execBatchCalls`, `Chunk.Carries`, `BoundFunction.Gathers`.
Key theorems: `BoundFunction.exec_eq_carryOut`, `BoundFunction.execBatch_eq_carryOut`,
`BoundFunction.execBatch_congr`, `Chunk.Carries.push`, `BoundFunction.Gathers.push`.
-/
import Cadastre.Proofs.BatchedExecution

namespace Cadastre

/-! ### Calls that are due -/

/-- What a row is resolved to: its overload, the signature of that, and its values,
converted and with the defaults of the parameters left over. -/
abbrev ResolvedRow := Nat × Signature × List Value

namespace ResolvedRow

abbrev overload (x : ResolvedRow) : Nat := x.1

abbrev signature (x : ResolvedRow) : Signature := x.2.1

abbrev values (x : ResolvedRow) : List Value := x.2.2

end ResolvedRow

/-- A call of the host's code. -/
inductive HostCall where
  /-- With the values of one row. -/
  | row (overload : Nat) (args : List Value)
  /-- With the columns of the rows of a chunk. -/
  | chunk (c : Chunk)

namespace HostCall

def overload : HostCall → Nat
  | row i _ => i
  | chunk c => c.overload

/-- How many rows the call is made for. -/
def rows : HostCall → Nat
  | row .. => 1
  | chunk c => c.rows

/-- The values that are passed, by parameter. -/
def columns : HostCall → List (List Value)
  | row _ args => args.map fun v => [v]
  | chunk c => c.columns

end HostCall

/-- The calls that are due, in order, and the error that comes after them, if any. -/
structure Agenda where
  calls : List HostCall
  error : Option Error

namespace Agenda

/-- One call more, before the others. -/
def cons (call : HostCall) (a : Agenda) : Agenda := ⟨call :: a.calls, a.error⟩

/-- A call for each row, up to the first that is not resolved. -/
def ofRows (resolve : List Value → Except Error ResolvedRow) : List (List Value) → Agenda
  | [] => ⟨[], none⟩
  | row :: rows =>
    match resolve row with
    | .error e => ⟨[], some e⟩
    | .ok x => (ofRows resolve rows).cons (.row x.overload x.values)

/-- A call for each chunk of at most `size` rows; `chunk` holds the rows that no call is
due for yet. It is not called if the next row is not resolved. -/
def ofChunks (resolve : List Value → Except Error ResolvedRow) (size : Nat) :
    Option Chunk → List (List Value) → Agenda
  | none, [] => ⟨[], none⟩
  | some c, [] => ⟨[.chunk c], none⟩
  | none, row :: rows =>
    match resolve row with
    | .error e => ⟨[], some e⟩
    | .ok x => ofChunks resolve size (some (.ofRow x.overload x.values)) rows
  | some c, row :: rows =>
    match resolve row with
    | .error e => ⟨[], some e⟩
    | .ok x =>
      if c.rows < size ∧ c.fits x.overload x.signature x.values = true then
        ofChunks resolve size (some (c.push x.signature x.values)) rows
      else (ofChunks resolve size (some (.ofRow x.overload x.values)) rows).cons (.chunk c)

variable {resolve : List Value → Except Error ResolvedRow} {size : Nat} {open? : Option Chunk}
  {rows : List (List Value)}

/-- What holds of the call of every row that is resolved holds of all calls. -/
theorem forall_mem_ofRows {P : HostCall → Prop}
    (hrow : ∀ row ∈ rows, ∀ x, resolve row = .ok x → P (.row x.overload x.values)) :
    ∀ call ∈ (ofRows resolve rows).calls, P call := by
  induction rows with
  | nil => simp [ofRows]
  | cons row rows ih =>
    obtain ⟨hfirst, hrest⟩ := List.forall_mem_cons.1 hrow
    rw [ofRows]
    cases hx : resolve row with
    | error e => simp
    | ok x => exact List.forall_mem_cons.2 ⟨hfirst x hx, ih hrest⟩

/-- What holds of the open chunk and of every new one, and goes on to hold as rows join,
holds of all chunks that are called. -/
theorem forall_mem_ofChunks {P : Chunk → Prop} (hopen : ∀ c ∈ open?, P c)
    (hnew : ∀ row ∈ rows, ∀ x, resolve row = .ok x → P (.ofRow x.overload x.values))
    (hpush : ∀ row ∈ rows, ∀ x c, resolve row = .ok x → P c → c.rows < size →
      c.fits x.overload x.signature x.values = true → P (c.push x.signature x.values)) :
    ∀ call ∈ (ofChunks resolve size open? rows).calls, ∃ c, call = .chunk c ∧ P c := by
  induction rows generalizing open? with
  | nil =>
    cases open? with
    | none => simp [ofChunks]
    | some c => simpa [ofChunks] using hopen c rfl
  | cons row rows ih =>
    obtain ⟨hnewFirst, hnewRest⟩ := List.forall_mem_cons.1 hnew
    obtain ⟨hpushFirst, hpushRest⟩ := List.forall_mem_cons.1 hpush
    cases hx : resolve row with
    | error e => cases open? <;> simp [ofChunks, hx]
    | ok x =>
      have hafter : ∀ call ∈ (ofChunks resolve size (some (.ofRow x.overload x.values)) rows).calls,
          ∃ c, call = .chunk c ∧ P c := by
        refine ih (fun c hc => ?_) hnewRest hpushRest
        rw [← Option.some.inj hc]
        exact hnewFirst x hx
      cases open? with
      | none =>
        rw [ofChunks, hx]
        exact hafter
      | some c =>
        rw [ofChunks, hx]
        dsimp only
        by_cases hjoin : c.rows < size ∧ c.fits x.overload x.signature x.values = true
        · rw [if_pos hjoin]
          refine ih (fun d hd => ?_) hnewRest hpushRest
          rw [← Option.some.inj hd]
          exact hpushFirst x c hx (hopen c rfl) hjoin.1 hjoin.2
        · rw [if_neg hjoin]
          exact List.forall_mem_cons.2 ⟨⟨c, rfl, hopen c rfl⟩, hafter⟩

end Agenda

/-! ### Calls that are made -/

namespace BoundFunction

variable (f : BoundFunction)

/-- What the host's code gives back. -/
def reply : HostCall → Except Error (List Value)
  | .row i args => (f.callable i).bind fun c => (c.call args).map fun v => [v]
  | .chunk c => (f.callable c.overload).bind fun callable => callable.callBatch c.columns c.rows

/-- It counts as an answer if it has a value per row. -/
def answer (call : HostCall) : Except Error (List Value) :=
  (f.reply call).bind fun out =>
    if out.length = call.rows then .ok out
    else .error (.function (.batchResultLength f.qualifiedName call.rows out.length))

/-- Makes the calls in order, up to the first that is not answered. -/
def callAll (f : BoundFunction) : List HostCall → Except Error (List Value)
  | [] => .ok []
  | call :: calls => (f.answer call).bind fun out => (f.callAll calls).map fun more => out ++ more

/-- The calls that are made: all up to the first that is not answered. -/
def made (f : BoundFunction) : List HostCall → List HostCall
  | [] => []
  | call :: calls =>
    call :: match f.answer call with
      | .ok _ => f.made calls
      | .error _ => []

/-- Makes the calls that are due and then fails, if an error comes after them. -/
def carryOut (a : Agenda) : Except Error (List Value) :=
  (f.callAll a.calls).bind fun out =>
    match a.error with
    | none => .ok out
    | some e => .error e

/-- The calls that are due for rows. -/
def batchAgenda (rows : List (List Value)) : Agenda :=
  match f.batchSize with
  | some n => .ofChunks f.resolveRow n none rows
  | none => .ofRows f.resolveRow rows

/-- The calls that the execution of a row makes. -/
def execCalls (row : List Value) : List HostCall := f.made (Agenda.ofRows f.resolveRow [row]).calls

/-- The calls that the execution of many rows makes. -/
def execBatchCalls (rows : List (List Value)) : List HostCall := f.made (f.batchAgenda rows).calls

variable {f : BoundFunction} {row : List Value} {rows : List (List Value)}

theorem mem_of_mem_made {call : HostCall} {calls : List HostCall} (h : call ∈ f.made calls) :
    call ∈ calls := by
  induction calls with
  | nil => exact h
  | cons first calls ih =>
    rw [made] at h
    rcases List.mem_cons.1 h with rfl | h
    · exact List.mem_cons_self
    · cases hfirst : f.answer first with
      | error e => simp [hfirst] at h
      | ok out =>
        rw [hfirst] at h
        exact List.mem_cons_of_mem _ (ih h)

theorem answer_of_reply {call : HostCall} {out : List Value} (hreply : f.reply call = .ok out) :
    f.answer call = if out.length = call.rows then .ok out
      else .error (.function (.batchResultLength f.qualifiedName call.rows out.length)) := by
  rw [answer, hreply]
  rfl

/-! ### An execution makes the calls that are due -/

theorem carryOut_cons (call : HostCall) (a : Agenda) : f.carryOut (a.cons call) =
    (f.answer call).bind fun out => (f.carryOut a).map fun more => out ++ more := by
  unfold carryOut
  rw [Agenda.cons, callAll]
  cases f.answer call with
  | error e => rfl
  | ok out =>
    cases f.callAll a.calls with
    | error e => rfl
    | ok more => cases a.error <;> rfl

/-- A row that is resolved is answered as it is executed. -/
theorem answer_row {i : Nat} {s : Signature} {vs : List Value}
    (h : f.resolveRow row = .ok (i, s, vs)) :
    f.answer (.row i vs) = (f.exec row).map fun v => [v] := by
  rw [exec_eq h, answer, reply]
  cases f.callable i with
  | error e => rfl
  | ok c =>
    show ((c.call vs).map fun v => [v]).bind _ = (c.call vs).map fun v => [v]
    cases c.call vs <;> rfl

theorem answer_chunk (c : Chunk) : f.answer (.chunk c) = f.callChunk c := by
  rw [answer, reply, callChunk]
  cases f.callable c.overload with
  | error e => rfl
  | ok callable =>
    show (callable.callBatch c.columns c.rows).bind _ = _
    dsimp only
    cases callable.callBatch c.columns c.rows <;> rfl

theorem execRows_eq_carryOut :
    f.execRows rows = f.carryOut (Agenda.ofRows f.resolveRow rows) := by
  induction rows with
  | nil => rfl
  | cons row rows ih =>
    rw [execRows, Agenda.ofRows]
    cases hrow : f.resolveRow row with
    | error e =>
      have hexec : f.exec row = .error e := by rw [exec, hrow]
      rw [hexec]
      rfl
    | ok x =>
      obtain ⟨i, s, vs⟩ := x
      dsimp only
      rw [carryOut_cons, answer_row hrow, ← ih]
      cases f.exec row with
      | error e => rfl
      | ok v => cases f.execRows rows <;> rfl

theorem execChunks_eq_carryOut (size : Nat) (open? : Option Chunk) :
    f.execChunks size open? rows = f.carryOut (Agenda.ofChunks f.resolveRow size open? rows) := by
  induction rows generalizing open? with
  | nil =>
    cases open? with
    | none => rfl
    | some c =>
      have hlast : Agenda.mk [.chunk c] none = (Agenda.mk [] none).cons (.chunk c) := rfl
      rw [execChunks, Agenda.ofChunks, hlast, carryOut_cons, answer_chunk]
      cases f.callChunk c with
      | error e => rfl
      | ok out => exact congrArg Except.ok (List.append_nil out).symm
  | cons row rows ih =>
    cases open? with
    | none =>
      rw [execChunks, Agenda.ofChunks]
      cases f.resolveRow row with
      | error e => rfl
      | ok x => exact ih _
    | some c =>
      rw [execChunks, Agenda.ofChunks]
      cases f.resolveRow row with
      | error e => rfl
      | ok x =>
        obtain ⟨i, s, vs⟩ := x
        dsimp only
        by_cases hjoin : c.rows < size ∧ c.fits i s vs = true
        · rw [if_pos hjoin, if_pos hjoin, ih]
        · rw [if_neg hjoin, if_neg hjoin, carryOut_cons, answer_chunk, ← ih]
          cases f.callChunk c with
          | error e => rfl
          | ok out => cases f.execChunks size (some (.ofRow i vs)) rows <;> rfl

/-- Executing a row makes the call that is due for it. -/
theorem exec_eq_carryOut (f : BoundFunction) (row : List Value) :
    ((f.exec row).map fun v => [v]) = f.carryOut (Agenda.ofRows f.resolveRow [row]) := by
  rw [← execRows_eq_carryOut, execRows]
  cases f.exec row <;> rfl

/-- Executing many rows makes the calls that are due for them. -/
theorem execBatch_eq_carryOut (f : BoundFunction) (rows : List (List Value)) :
    f.execBatch rows = f.carryOut (f.batchAgenda rows) := by
  unfold execBatch batchAgenda
  cases f.batchSize with
  | none => exact execRows_eq_carryOut
  | some n => exact execChunks_eq_carryOut n none

/-! ### The host's code matters by its answers to the calls that are made -/

section Congruence

variable {g : BoundFunction}

theorem callAll_congr {calls : List HostCall}
    (h : ∀ call ∈ f.made calls, g.answer call = f.answer call) :
    g.callAll calls = f.callAll calls := by
  induction calls with
  | nil => rfl
  | cons call calls ih =>
    rw [made] at h
    obtain ⟨hcall, hcalls⟩ := List.forall_mem_cons.1 h
    rw [callAll, callAll, hcall]
    cases hanswer : f.answer call with
    | error e => rfl
    | ok out =>
      rw [hanswer] at hcalls
      rw [ih hcalls]

/-- Whatever else the host's code does, a row is executed as it is. -/
theorem exec_congr (hresolve : g.resolveRow = f.resolveRow)
    (h : ∀ call ∈ f.execCalls row, g.answer call = f.answer call) : g.exec row = f.exec row := by
  have hcarry : (g.exec row).map (fun v => [v]) = (f.exec row).map fun v => [v] := by
    rw [exec_eq_carryOut, exec_eq_carryOut, hresolve, carryOut, carryOut, callAll_congr h]
  cases hf : f.exec row <;> cases hg : g.exec row <;> rw [hf, hg] at hcarry <;> cases hcarry <;> rfl

/-- The same of many rows. -/
theorem execBatch_congr (hresolve : g.resolveRow = f.resolveRow) (hsize : g.batchSize = f.batchSize)
    (h : ∀ call ∈ f.execBatchCalls rows, g.answer call = f.answer call) :
    g.execBatch rows = f.execBatch rows := by
  have hagenda : g.batchAgenda rows = f.batchAgenda rows := by
    rw [batchAgenda, batchAgenda, hresolve, hsize]
  rw [execBatch_eq_carryOut, execBatch_eq_carryOut, hagenda, carryOut, carryOut, callAll_congr h]

end Congruence

end BoundFunction

/-! ### What the call of a chunk passes -/

namespace Chunk

variable {c : Chunk} {s : Signature} {ps : List Parameter} {columns : List (List Value)}
  {vs : List Value} {argss : List (List Value)}

theorem length_extend : (extend ps columns vs).length = columns.length := by
  fun_induction extend ps columns vs with
  | case1 p ps c cs v vs ih => simp [ih]
  | case2 => rfl

/-- A batched parameter's column grows by the value of the row, any other stays. -/
theorem getElem?_extend {k : Nat} {p : Parameter} {column : List Value} {v : Value}
    (hp : ps[k]? = some p) (hcolumn : columns[k]? = some column) (hv : vs[k]? = some v) :
    (extend ps columns vs)[k]? = some (if p.batched then column ++ [v] else column) := by
  induction ps generalizing columns vs k with
  | nil => cases hp
  | cons q ps ih =>
    cases columns with
    | nil => cases hcolumn
    | cons first columns =>
      cases vs with
      | nil => cases hv
      | cons w vs =>
        cases k with
        | zero =>
          cases hp
          cases hcolumn
          cases hv
          rfl
        | succ k => exact ih hp hcolumn hv

/-- `c.Carries s argss`: the chunk passes the values `argss` of consecutive rows, the
values of each of them in the order of the parameters. -/
structure Carries (c : Chunk) (s : Signature) (argss : List (List Value)) : Prop where
  rows : c.rows = argss.length
  /-- There is a column per parameter. -/
  columns : c.columns.length = s.parameters.length
  /-- Every row has a value per parameter. -/
  values : ∀ args ∈ argss, args.length = s.parameters.length
  /-- A batched parameter's column has its value in every row, in order. -/
  batched : ∀ (k : Nat) (p : Parameter), s.parameters[k]? = some p → p.batched = true →
    ∃ column : List Value, c.columns[k]? = some column ∧ column.map some = argss.map fun args => args[k]?
  /-- Any other column has one value, which is that of the first row. -/
  shared : ∀ (k : Nat) (p : Parameter), s.parameters[k]? = some p → p.batched = false →
    ∃ v : Value, c.columns[k]? = some [v] ∧ ∃ args ∈ argss.head?, args[k]? = some v

theorem exists_getElem? {k : Nat} {p : Parameter} (hvs : vs.length = ps.length)
    (hp : ps[k]? = some p) : ∃ v, vs[k]? = some v := by
  have hk : k < vs.length := by
    rw [hvs]
    exact (List.getElem?_eq_some_iff.1 hp).1
  exact ⟨vs[k], List.getElem?_eq_getElem hk⟩

/-- A new chunk carries its row. -/
theorem carries_ofRow (i : Nat) (hvs : vs.length = s.parameters.length) :
    (ofRow i vs).Carries s [vs] where
  rows := rfl
  columns := by simpa [ofRow] using hvs
  values := by simpa using hvs
  batched k p hp _ := by
    obtain ⟨v, hv⟩ := exists_getElem? hvs hp
    exact ⟨[v], by simp [ofRow, hv], by simp [hv]⟩
  shared k p hp _ := by
    obtain ⟨v, hv⟩ := exists_getElem? hvs hp
    exact ⟨v, by simp [ofRow, hv], vs, rfl, hv⟩

/-- A row that joins a chunk is carried after the others. -/
theorem Carries.push (h : c.Carries s argss) (hvs : vs.length = s.parameters.length) :
    (c.push s vs).Carries s (argss ++ [vs]) where
  rows := by
    have hrows := h.rows
    simp [Chunk.push, hrows]
  columns := by
    have hcolumns := h.columns
    simp [Chunk.push, length_extend, hcolumns]
  values args hargs := by
    rcases List.mem_append.1 hargs with hargs | hargs
    · exact h.values args hargs
    · rw [List.mem_singleton.1 hargs, hvs]
  batched k p hp hbatched := by
    obtain ⟨column, hcolumn, hvalues⟩ := h.batched k p hp hbatched
    obtain ⟨v, hv⟩ := exists_getElem? hvs hp
    have hextend := getElem?_extend hp hcolumn hv
    rw [if_pos hbatched] at hextend
    exact ⟨column ++ [v], hextend, by simp [hvalues, hv]⟩
  shared k p hp hbatched := by
    obtain ⟨w, hw, args, hfirst, hargs⟩ := h.shared k p hp hbatched
    obtain ⟨v, hv⟩ := exists_getElem? hvs hp
    have hextend := getElem?_extend hp hw hv
    rw [hbatched, if_neg Bool.false_ne_true] at hextend
    have hhead : args ∈ (argss ++ [vs]).head? := by
      rw [List.head?_append, Option.mem_def.1 hfirst]
      rfl
    exact ⟨w, hextend, args, hhead, hargs⟩

/-- Every value that is passed is one of a row that is carried. -/
theorem Carries.exists_row (h : c.Carries s argss) {k : Nat} {p : Parameter}
    (hp : s.parameters[k]? = some p) {column : List Value} (hcolumn : c.columns[k]? = some column)
    {v : Value} (hv : v ∈ column) : ∃ args ∈ argss, args[k]? = some v := by
  cases hbatched : p.batched with
  | true =>
    obtain ⟨column', hcolumn', hvalues⟩ := h.batched k p hp hbatched
    obtain rfl : column = column' := Option.some.inj (hcolumn.symm.trans hcolumn')
    have hmem : some v ∈ argss.map fun args => args[k]? := by
      rw [← hvalues]
      exact List.mem_map_of_mem hv
    exact List.mem_map.1 hmem
  | false =>
    obtain ⟨w, hw, args, hfirst, hargs⟩ := h.shared k p hp hbatched
    obtain rfl : column = [w] := Option.some.inj (hcolumn.symm.trans hw)
    obtain rfl : v = w := List.mem_singleton.1 hv
    exact ⟨args, List.mem_of_mem_head? hfirst, hargs⟩

end Chunk

/-! ### Runs of rows -/

namespace BoundFunction

variable {f : BoundFunction} {c : Chunk} {x : ResolvedRow} {run : List ResolvedRow} {s : Signature}

/-- The row is of an overload of the function, with a value for each parameter of it. -/
structure Offers (f : BoundFunction) (x : ResolvedRow) : Prop where
  signature : f.signatures[x.overload]? = some x.signature
  values : x.values.length = x.signature.parameters.length

theorem offers_of_resolveRow {row : List Value} (h : f.resolveRow row = .ok x) : f.Offers x := by
  obtain ⟨hs, _, hpasses⟩ := passes_of_resolveRow h
  exact ⟨hs, hpasses.length_eq⟩

/-- The signature of a row is that of its overload. -/
theorem Offers.signature_eq (hx : f.Offers x) {i : Nat} (hi : x.overload = i)
    (hs : f.signatures[i]? = some s) : x.signature = s := by
  have hsignature := hx.signature
  rw [hi, hs] at hsignature
  exact (Option.some.inj hsignature).symm

/-- The chunk passes the values of the rows of the run, which are all of its overload. -/
structure Gathers (f : BoundFunction) (c : Chunk) (run : List ResolvedRow) : Prop where
  offers : ∀ x ∈ run, f.Offers x
  overload : ∀ x ∈ run, x.overload = c.overload
  exists_carries : ∃ s, f.signatures[c.overload]? = some s ∧
    c.Carries s (run.map ResolvedRow.values)

theorem gathers_ofRow (hx : f.Offers x) : f.Gathers (.ofRow x.overload x.values) [x] where
  offers y hy := by
    rw [List.mem_singleton.1 hy]
    exact hx
  overload y hy := by
    rw [List.mem_singleton.1 hy]
    rfl
  exists_carries := ⟨x.signature, hx.signature, Chunk.carries_ofRow x.overload hx.values⟩

theorem Gathers.push (h : f.Gathers c run) (hx : f.Offers x) (hoverload : x.overload = c.overload) :
    f.Gathers (c.push x.signature x.values) (run ++ [x]) where
  offers y hy := by
    rcases List.mem_append.1 hy with hy | hy
    · exact h.offers y hy
    · rw [List.mem_singleton.1 hy]
      exact hx
  overload y hy := by
    rcases List.mem_append.1 hy with hy | hy
    · exact h.overload y hy
    · rw [List.mem_singleton.1 hy]
      exact hoverload
  exists_carries := by
    obtain ⟨s, hs, hcarries⟩ := h.exists_carries
    obtain rfl := hx.signature_eq hoverload hs
    refine ⟨x.signature, hs, ?_⟩
    rw [List.map_append]
    exact hcarries.push hx.values

end BoundFunction
end Cadastre
