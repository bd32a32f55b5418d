/-
# A row by itself and a batch of one

A row can be executed by itself or as a batch of one, by a function with a batch size.
Either way the host's code for batches is called on columns of one value, or its code
for rows on the values (`Callable.Made.call_eq`); so the two ways differ only in what
they make of the results. A batch is answered if there is exactly one, and fails
otherwise. The row by itself is answered with the last one, or with none if there are
none: the number is not looked at (`BoundFunction.singleRow`).

So the two agree on a row exactly if the code gives one result for it. Code for rows
always does (`Callable.RowWise.callBatch_one`), but code for batches need not
(`Sample.unanswered_mute`).

Key definitions: `Callable.Made`, `BoundFunction.results`.
Key theorems: `Callable.RowWise.callBatch_one`, `Callable.Made.call_eq`,
`BoundFunction.exec_eq_results`, `BoundFunction.execBatch_singleton`,
`BoundFunction.singleRow`.
-/
import Cadastre.Proofs.HostCalls

namespace Cadastre

/-! ### The ways to make a callable -/

namespace Callable

/-- The callables that can be made of the host's code. -/
inductive Made : Callable → Prop
  | scalar (instanceId : Nat) (f : List Value → Except Error Value) : Made (.scalar instanceId f)
  | batch (instanceId : Nat) (f : List (List Value) → Nat → Except Error (List Value)) :
      Made (.batch instanceId f)
  | withBody {c : Callable} (hc : Made c) (instanceId : Nat) (body : List UInt8) :
      Made (c.withBody instanceId body)

/-- The result that counts when a batch of one is called. -/
def lastResult (out : List Value) : Value := out.getLast?.getD .none

/-- Code for rows gives one result for a row. -/
theorem RowWise.callBatch_one {c : Callable} (hc : c.RowWise) (args : List Value) :
    c.callBatch (args.map fun v => [v]) 1 = (c.call args).map fun v => [v] := by
  rw [hc]
  show (c.call (rowArgs (args.map fun v => [v]) 0)).bind (fun v => .ok [v]) = _
  rw [rowArgs_map_singleton]
  cases c.call args <;> rfl

/-- To call a row is to call a batch of one and to take the last result. -/
theorem Made.call_eq {c : Callable} (hc : c.Made) (args : List Value) :
    c.call args = (c.callBatch (args.map fun v => [v]) 1).map lastResult := by
  induction hc with
  | scalar instanceId f =>
    rw [(rowWise_scalar instanceId f).callBatch_one]
    show f args = ((f args).map fun v => [v]).map lastResult
    cases f args <;> rfl
  | batch instanceId f => rfl
  | withBody _ instanceId body ih => exact ih

end Callable

open Callable (Made lastResult)

namespace BoundFunction

variable {f : BoundFunction}

/-- What the host's code gives for a row as a batch of one. -/
def results (f : BoundFunction) (row : List Value) : Except Error (List Value) :=
  (f.resolveRow row).bind fun (x : ResolvedRow) => f.reply (.chunk (.ofRow x.overload x.values))

theorem exec_eq_results (hmade : ∀ i c, f.callable i = .ok c → c.Made) (row : List Value) :
    f.exec row = (f.results row).map lastResult := by
  rw [results]
  cases hrow : f.resolveRow row with
  | error e =>
    rw [exec, hrow]
    rfl
  | ok x =>
    obtain ⟨i, s, vs⟩ := x
    rw [exec_eq hrow]
    show _ = (f.reply (.chunk (.ofRow i vs))).map lastResult
    rw [reply]
    show _ = ((f.callable i).bind _).map lastResult
    cases hcallable : f.callable i with
    | error e => rfl
    | ok c => exact (hmade i c hcallable).call_eq vs

/-- A batch of one is answered if there is one result. -/
theorem execBatch_singleton {size : Nat} (hbatch : f.batchSize = some size) (row : List Value) :
    f.execBatch [row] = (f.results row).bind fun out =>
      if out.length = 1 then .ok out
      else .error (.function (.batchResultLength f.qualifiedName 1 out.length)) := by
  rw [execBatch, hbatch, results]
  dsimp only
  rw [execChunks]
  cases f.resolveRow row with
  | error e => rfl
  | ok x =>
    obtain ⟨i, s, vs⟩ := x
    show f.execChunks size (some (.ofRow i vs)) [] = (f.reply (.chunk (.ofRow i vs))).bind _
    rw [execChunks, ← answer_chunk]
    rfl

/-- A row by itself is answered with the last of the results that the code gives for it,
whatever their number; as a batch of one, it is answered if there is one result, and
fails otherwise. The two agree exactly if the code does not give more or fewer. -/
theorem singleRow {size : Nat} (hbatch : f.batchSize = some size)
    (hmade : ∀ i c, f.callable i = .ok c → c.Made) (row : List Value) :
    f.exec row = (f.results row).map lastResult ∧
      (f.execBatch [row] = (f.results row).bind fun out =>
        if out.length = 1 then .ok out
        else .error (.function (.batchResultLength f.qualifiedName 1 out.length))) ∧
      ((∀ v, f.exec row = .ok v ↔ f.execBatch [row] = .ok [v]) ↔
        ∀ out, f.results row = .ok out → out.length = 1) := by
  have hexec := exec_eq_results hmade row
  have hone := execBatch_singleton hbatch row
  refine ⟨hexec, hone, ?_⟩
  rw [hexec, hone]
  cases hresults : f.results row with
  | error e => exact ⟨fun _ => nofun, fun _ v => ⟨nofun, nofun⟩⟩
  | ok out =>
    show (∀ v, Except.ok (lastResult out) = .ok v ↔
      (if out.length = 1 then .ok out else .error _ : Except Error (List Value)) = .ok [v]) ↔ _
    by_cases hlength : out.length = 1
    · obtain ⟨w, rfl⟩ := List.length_eq_one_iff.1 hlength
      simp [lastResult]
    · rw [if_neg hlength]
      constructor
      · intro h
        cases (h (lastResult out)).1 rfl
      · intro h
        exact absurd (h out rfl) hlength

end BoundFunction

namespace Sample

/-- Code for batches that gives no results. -/
def silence : Callable := .batch 5 fun _ _ => .ok []

/-- A function of batches of numbers that gives no results. -/
def mute : BoundFunction where
  id := .ofNat 3
  name := "stride"
  path := none
  signatures := [⟨[⟨"start", .int, none, true⟩, ⟨"step", .float, none, false⟩], .float, true⟩]
  implementation := .callables [silence]
  batchSize := some 4
  isMethod := false
  isProperty := false
  pool := none

theorem obtained_mute : mute.Obtained := by
  have hbind : (Registry.bind SortedMap.empty (.ofNat 3) (strideDescriptor .float) silence
      { batchSize := some 4 }).1.result = .ok mute := rfl
  exact .bound (fun _ _ h => by cases h) hbind

/-- Its only callable is made of code for batches. -/
theorem made_mute {i : Nat} {c : Callable} (h : mute.callable i = .ok c) : c.Made := by
  cases i with
  | zero =>
    obtain rfl : silence = c := Except.ok.inj h
    exact .batch 5 _
  | succ i => cases h

end Sample

/-- A row of the function that gives no results. -/
theorem Sample.singleRow_mute :
    Sample.mute.batchSize = some 4 ∧ (∀ i c, Sample.mute.callable i = .ok c → c.Made) ∧
      Sample.mute.results [.int 1, .float 0.5] = .ok [] ∧
      Sample.mute.exec [.int 1, .float 0.5] =
        (Sample.mute.results [.int 1, .float 0.5]).map lastResult ∧
      ((∀ v, Sample.mute.exec [.int 1, .float 0.5] = .ok v ↔
          Sample.mute.execBatch [[.int 1, .float 0.5]] = .ok [v]) ↔
        ∀ out, Sample.mute.results [.int 1, .float 0.5] = .ok out → out.length = 1) := by
  have hmade : ∀ i c, Sample.mute.callable i = .ok c → c.Made := fun _ _ => Sample.made_mute
  obtain ⟨hexec, _, hagree⟩ :=
    BoundFunction.singleRow (f := Sample.mute) rfl hmade [.int 1, .float 0.5]
  exact ⟨rfl, hmade, rfl, hexec, hagree⟩

/-- The row by itself is answered with none, and the batch of it fails. -/
theorem Sample.unanswered_mute :
    Sample.mute.Obtained ∧ Sample.mute.batchSize = some 4 ∧
      (∀ i c, Sample.mute.callable i = .ok c → c.Made) ∧
      Sample.mute.exec [.int 1, .float 0.5] = .ok .none ∧
      ∃ e, Sample.mute.execBatch [[.int 1, .float 0.5]] = .error e ∧ e.code = "EXECUTION_001" :=
  ⟨Sample.obtained_mute, rfl, fun _ _ => Sample.made_mute, rfl, _, rfl, rfl⟩

end Cadastre
