/-
# The types of what a callable is passed

A callable is passed one value per parameter of the overload that was chosen for its
row, or one column of values per parameter in the call of a chunk. A value that was
given has been converted to the parameter's type (`Conversion.apply_argument`), so it
is none or of that type. A parameter for which none was given takes its default, and
this is passed as it was declared: neither the declaration nor the call converts it, or
compares it with the type. So all that is passed is typed where the defaults are
(`BoundFunction.TypedCall.conforms`), and a default that is text reaches a callable of
timestamps as text, which it would not as an argument (`Sample.untyped_default`).

An execution is the calls that are due and nothing else, and any code that answers the
calls that are made alike can take the place of the host's. So what the host's code sees
of a row is what these calls pass (`BoundFunction.typedCalls`).

The rows of a chunk are collected before it is called, and the column of a batched
parameter has a value of each; so what is known of the values of a row is known of the
columns because every value in them is of one of the rows (`Chunk.Carries.exists_row`).

Key definitions: `Parameter.Receives`, `BoundFunction.TypedCall`,
`BoundFunction.Assembles`, `BoundFunction.DefaultsTyped`.
Key theorems: `Parameter.Passes.receives`, `BoundFunction.assembles_of_mem_ofChunks`,
`BoundFunction.TypedCall.conforms`, `BoundFunction.typedCalls`.
-/
import Cadastre.Proofs.HostCalls

namespace Cadastre

/-! ### What a parameter receives -/

/-- What the parameter in place `k` receives of a row. -/
inductive Parameter.Receives (p : Parameter) (k : Nat) (row : List Value) (v : Value) : Prop
  /-- The value in its place, converted to its type. -/
  | converted {w : Value} {c : Conversion} (hw : row[k]? = some w) (hv : c.apply w = .ok v)
      (hconforms : v.Conforms p.type) : Receives p k row v
  /-- Its default as it was declared, if the row ends before its place. -/
  | filled (hk : row.length ≤ k) (hv : p.default = some v) : Receives p k row v

namespace Parameter

variable {p : Parameter} {k : Nat} {row : List Value} {v : Value}

/-- A value behind others is received as it is without them. -/
theorem Receives.cons (h : p.Receives k row v) (w : Value) : p.Receives (k + 1) (w :: row) v := by
  cases h with
  | converted hw hv hconforms => exact .converted hw hv hconforms
  | filled hk hv => exact .filled (Nat.succ_le_succ hk) hv

/-- What is received is typed if it is not a default that is not. -/
theorem Receives.conforms (h : p.Receives k row v)
    (hdefault : ∀ w, p.default = some w → w.Conforms p.type) : v.Conforms p.type := by
  cases h with
  | converted _ _ hconforms => exact hconforms
  | filled _ hv => exact hdefault v hv

/-- Every value in the column is none or of the parameter's type. -/
def AllConform (p : Parameter) (column : List Value) : Prop := ∀ v ∈ column, v.Conforms p.type

/-- The values that are passed are received by the parameters in their places. -/
theorem Passes.receives {ps : List Parameter} {cs : List Conversion} {vs : List Value}
    (h : Passes ps cs row vs) (hp : ps[k]? = some p) (hv : vs[k]? = some v) :
    p.Receives k row v := by
  induction h generalizing k with
  | @defaults ps hdefaults =>
    have hisSome := hdefaults p (List.mem_of_getElem? hp)
    obtain ⟨w, hw⟩ := Option.isSome_iff_exists.1 hisSome
    have hvw : v = w := by simpa [hp, hw] using hv.symm
    exact .filled (Nat.zero_le k) (hvw ▸ hw)
  | @cons q ps c cs w w' row ws hw hconforms _ ih =>
    cases k with
    | zero =>
      obtain rfl : q = p := Option.some.inj hp
      obtain rfl : w' = v := Option.some.inj hv
      exact .converted rfl hw hconforms
    | succ k => exact (ih hp hv).cons w

end Parameter

/-! ### What a call passes -/

namespace BoundFunction

variable {f : BoundFunction} {rows all : List (List Value)} {call : HostCall}

/-- `f.TypedCall rows call`: the call has a column per parameter of one overload of the
function, and every value in the column of a parameter is received by it of a row for
which the overload was chosen. -/
def TypedCall (f : BoundFunction) (rows : List (List Value)) (call : HostCall) : Prop :=
  ∃ s, f.signatures[call.overload]? = some s ∧ call.columns.length = s.parameters.length ∧
    ∀ (k : Nat) (p : Parameter) (column : List Value),
      s.parameters[k]? = some p → call.columns[k]? = some column → ∀ v ∈ column,
        ∃ row ∈ rows, (∃ vs, f.resolveRow row = .ok (call.overload, s, vs)) ∧ p.Receives k row v

/-- The call of a row passes what the parameters receive of it. -/
theorem typedCall_row {row : List Value} (hrow : row ∈ rows) {x : ResolvedRow}
    (hx : f.resolveRow row = .ok x) : f.TypedCall rows (.row x.overload x.values) := by
  obtain ⟨hs, _, hpasses⟩ := passes_of_resolveRow hx
  refine ⟨x.signature, hs, ?_, ?_⟩
  · show (x.values.map fun v => [v]).length = _
    rw [List.length_map]
    exact hpasses.length_eq
  · intro k p column hp hcolumn v hv
    obtain ⟨w, hw, rfl⟩ := Option.map_eq_some_iff.1 (List.getElem?_map.symm.trans hcolumn)
    obtain rfl : v = w := List.mem_singleton.1 hv
    exact ⟨row, hrow, ⟨x.values, hx⟩, hpasses.receives hp hw⟩

/-- `f.Assembles rows c`: the chunk passes the values of a run of rows that are all
resolved from `rows`. -/
def Assembles (f : BoundFunction) (rows : List (List Value)) (c : Chunk) : Prop :=
  ∃ run, f.Gathers c run ∧ ∀ x ∈ run, ∃ row ∈ rows, f.resolveRow row = .ok x

/-- The call of a chunk passes what the parameters receive of its rows. -/
theorem Assembles.typedCall {c : Chunk} (h : f.Assembles rows c) :
    f.TypedCall rows (.chunk c) := by
  obtain ⟨run, hgathers, hrun⟩ := h
  obtain ⟨s, hs, hcarries⟩ := hgathers.exists_carries
  refine ⟨s, hs, hcarries.columns, ?_⟩
  intro k p column hp hcolumn v hv
  obtain ⟨args, hargs, hvalue⟩ := hcarries.exists_row hp hcolumn hv
  obtain ⟨⟨i, t, vs⟩, hx, rfl⟩ := List.mem_map.1 hargs
  obtain ⟨row, hrow, hresolve⟩ := hrun _ hx
  obtain ⟨ht, _, hpasses⟩ := passes_of_resolveRow hresolve
  obtain rfl : i = c.overload := hgathers.overload _ hx
  obtain rfl : t = s := Option.some.inj (ht.symm.trans hs)
  exact ⟨row, hrow, ⟨vs, hresolve⟩, hpasses.receives hp hvalue⟩

theorem assembles_ofRow {row : List Value} (hrow : row ∈ all) {x : ResolvedRow}
    (hx : f.resolveRow row = .ok x) : f.Assembles all (.ofRow x.overload x.values) := by
  refine ⟨[x], gathers_ofRow (offers_of_resolveRow hx), fun y hy => ?_⟩
  rw [List.mem_singleton.1 hy]
  exact ⟨row, hrow, hx⟩

theorem Assembles.push {c : Chunk} (h : f.Assembles all c) {row : List Value} (hrow : row ∈ all)
    {x : ResolvedRow} (hx : f.resolveRow row = .ok x)
    (hfits : c.fits x.overload x.signature x.values = true) :
    f.Assembles all (c.push x.signature x.values) := by
  obtain ⟨run, hgathers, hrun⟩ := h
  have hoverload : x.overload = c.overload := Chunk.overload_eq_of_fits hfits
  refine ⟨run ++ [x], hgathers.push (offers_of_resolveRow hx) hoverload, fun y hy => ?_⟩
  rcases List.mem_append.1 hy with hy | hy
  · exact hrun y hy
  · rw [List.mem_singleton.1 hy]
    exact ⟨row, hrow, hx⟩

/-- Every chunk that is due is assembled of the rows. -/
theorem assembles_of_mem_ofChunks {size : Nat} :
    ∀ call ∈ (Agenda.ofChunks f.resolveRow size none rows).calls,
      ∃ c, call = .chunk c ∧ f.Assembles rows c := by
  refine Agenda.forall_mem_ofChunks (fun c hc => by cases hc) ?_ ?_
  · intro row hrow x hx
    exact assembles_ofRow hrow hx
  · intro row hrow x c hx hc _ hfits
    exact hc.push hrow hx hfits

/-- The call that a row is executed by is typed. -/
theorem typedCall_of_mem_execCalls {row : List Value} (h : call ∈ f.execCalls row) :
    f.TypedCall [row] call :=
  Agenda.forall_mem_ofRows (fun _ hrow _ hx => typedCall_row hrow hx) call (mem_of_mem_made h)

/-- The calls that many rows are executed by are typed. -/
theorem typedCall_of_mem_execBatchCalls (h : call ∈ f.execBatchCalls rows) :
    f.TypedCall rows call := by
  have hdue : call ∈ (f.batchAgenda rows).calls := mem_of_mem_made h
  unfold batchAgenda at hdue
  cases hsize : f.batchSize with
  | none =>
    rw [hsize] at hdue
    exact Agenda.forall_mem_ofRows (fun _ hrow _ hx => typedCall_row hrow hx) call hdue
  | some size =>
    rw [hsize] at hdue
    obtain ⟨c, rfl, hc⟩ := assembles_of_mem_ofChunks call hdue
    exact hc.typedCall

/-- Every default is none or of its parameter's type. -/
def DefaultsTyped (f : BoundFunction) : Prop :=
  ∀ s ∈ f.signatures, ∀ p ∈ s.parameters, ∀ v, p.default = some v → v.Conforms p.type

/-- All that is passed is typed if the defaults are. -/
theorem TypedCall.conforms (h : f.TypedCall rows call) (hdefaults : f.DefaultsTyped) :
    ∃ s, f.signatures[call.overload]? = some s ∧
      List.Forall₂ Parameter.AllConform s.parameters call.columns := by
  obtain ⟨s, hs, hlength, hvalues⟩ := h
  refine ⟨s, hs, List.forall₂_iff_get.2 ⟨hlength.symm, fun k hk hk' v hv => ?_⟩⟩
  obtain ⟨_, _, _, hreceives⟩ := hvalues k _ _ (List.getElem?_eq_getElem hk)
    (List.getElem?_eq_getElem hk') v hv
  exact hreceives.conforms
    (hdefaults s (List.mem_of_getElem? hs) _ (List.getElem_mem hk))

/-- Whatever rows a function is executed on, one by one or in a batch, it makes the calls
that are due for them, and is executed as it is by any code that answers these calls
alike. A call passes one value, or one column, per parameter of the overload that was
chosen for it; every value is converted and none or of the parameter's type, or is the
default of the parameter, and so all are typed if the defaults are. -/
theorem typedCalls (f : BoundFunction) :
    (∀ row, ((f.exec row).map fun v => [v]) = f.carryOut (.ofRows f.resolveRow [row]) ∧
      (∀ g : BoundFunction, g.resolveRow = f.resolveRow →
        (∀ call ∈ f.execCalls row, g.answer call = f.answer call) → g.exec row = f.exec row) ∧
      ∀ call ∈ f.execCalls row, f.TypedCall [row] call) ∧
    (∀ rows, f.execBatch rows = f.carryOut (f.batchAgenda rows) ∧
      (∀ g : BoundFunction, g.resolveRow = f.resolveRow → g.batchSize = f.batchSize →
        (∀ call ∈ f.execBatchCalls rows, g.answer call = f.answer call) →
          g.execBatch rows = f.execBatch rows) ∧
      ∀ call ∈ f.execBatchCalls rows, f.TypedCall rows call) ∧
    ∀ rows call, f.TypedCall rows call → f.DefaultsTyped →
      ∃ s, f.signatures[call.overload]? = some s ∧
        List.Forall₂ Parameter.AllConform s.parameters call.columns :=
  ⟨fun row => ⟨exec_eq_carryOut f row, fun _ => exec_congr,
      fun _ => typedCall_of_mem_execCalls⟩,
    fun rows => ⟨execBatch_eq_carryOut f rows, fun _ => execBatch_congr,
      fun _ => typedCall_of_mem_execBatchCalls⟩,
    fun _ _ => TypedCall.conforms⟩

end BoundFunction

namespace Sample

/-- A declaration over times, with a text as the default. -/
def publishedDescriptor : FunctionDescriptor where
  name := "published"
  module := none
  qualifiedName := "published"
  params := [⟨"time", .known .timestamp, some (.string "2024-01-01T00:00:00"), false⟩]
  result := ⟨.known .timestamp, false⟩

/-- A function that answers the time it is given. -/
def published : BoundFunction where
  id := .ofNat 4
  name := "published"
  path := none
  signatures := [⟨[⟨"time", .timestamp, some (.string "2024-01-01T00:00:00"), false⟩],
    .timestamp, false⟩]
  implementation := .callables [firstArgument]
  batchSize := none
  isMethod := false
  isProperty := false
  pool := none

theorem obtained_published : published.Obtained := by
  have hbind : (Registry.bind SortedMap.empty (.ofNat 4) publishedDescriptor firstArgument {}
      ).1.result = .ok published := rfl
  exact .bound (fun _ _ h => by cases h) hbind

/-- The same with a callable that fails on anything but a time. -/
def dated : BoundFunction where
  __ := published
  implementation := .callables [.scalar 5 fun
    | [.timestamp t] => .ok (.timestamp t)
    | _ => .error (.host (Diagnostic.plain "DATED_001" "not a time"))]

end Sample

/-- A time that is given as text is passed as a time, so a callable that takes nothing but
times answers as well. A batch of two rows passes their two starts and the step that they
share. -/
theorem Sample.typedCalls_published :
    (∃ t, Sample.published.execCalls [.string "2024-01-01T00:00:00"] = [.row 0 [.timestamp t]] ∧
      Sample.published.TypedCall [[.string "2024-01-01T00:00:00"]] (.row 0 [.timestamp t]) ∧
      Sample.dated.answer (.row 0 [.timestamp t]) =
        Sample.published.answer (.row 0 [.timestamp t])) ∧
      Sample.dated.exec [.string "2024-01-01T00:00:00"] =
        Sample.published.exec [.string "2024-01-01T00:00:00"] ∧
      (Sample.stride .float).execBatchCalls [[.int 1, .float 2.5], [.int 2, .float 2.5]] =
        [.chunk ⟨0, [[.int 1, .int 2], [.float 2.5]], 2⟩] ∧
      (Sample.stride .float).DefaultsTyped ∧
      ∃ s, (Sample.stride .float).signatures[0]? = some s ∧
        List.Forall₂ Parameter.AllConform s.parameters
          [[.int 1, .int 2], [.float 2.5]] := by
  obtain ⟨hrow, _, _⟩ := BoundFunction.typedCalls Sample.published
  obtain ⟨_, hsame, htyped⟩ := hrow [.string "2024-01-01T00:00:00"]
  obtain ⟨t, hcalls⟩ : ∃ t, Sample.published.execCalls [.string "2024-01-01T00:00:00"] =
      [.row 0 [.timestamp t]] := ⟨_, rfl⟩
  have hanswer : Sample.dated.answer (.row 0 [.timestamp t]) =
      Sample.published.answer (.row 0 [.timestamp t]) := rfl
  rw [hcalls] at hsame htyped
  have hdefaults : (Sample.stride .float).DefaultsTyped := by
    intro s hs p hp v hv
    obtain rfl := List.mem_singleton.1 hs
    rcases List.mem_pair.1 hp with rfl | rfl <;> cases hv
  obtain ⟨_, hbatch, hconforms⟩ := BoundFunction.typedCalls (Sample.stride .float)
  obtain ⟨_, _, hchunk⟩ := hbatch [[.int 1, .float 2.5], [.int 2, .float 2.5]]
  have hchunks : (Sample.stride .float).execBatchCalls
      [[.int 1, .float 2.5], [.int 2, .float 2.5]] =
        [.chunk ⟨0, [[.int 1, .int 2], [.float 2.5]], 2⟩] := rfl
  rw [hchunks] at hchunk
  exact ⟨⟨t, hcalls, htyped _ List.mem_cons_self, hanswer⟩,
    hsame Sample.dated rfl (List.forall_mem_singleton.2 hanswer), hchunks, hdefaults,
    hconforms _ _ (hchunk _ List.mem_cons_self) hdefaults⟩

/-- A function of times that is called without one is passed the text of its default, as
text; the same text given as an argument is converted. -/
theorem Sample.untyped_default :
    Sample.published.Obtained ∧ Sample.published.isTemplate = false ∧
      Sample.published.execCalls [] = [.row 0 [.string "2024-01-01T00:00:00"]] ∧
      (∃ s p, Sample.published.signatures[0]? = some s ∧ s.parameters = [p] ∧
        p.type = .timestamp ∧ ¬ (Value.string "2024-01-01T00:00:00").Conforms p.type) ∧
      Sample.published.exec [] = .ok (.string "2024-01-01T00:00:00") ∧
      ∃ t, Sample.published.exec [.string "2024-01-01T00:00:00"] = .ok (.timestamp t) := by
  refine ⟨Sample.obtained_published, rfl, rfl, ⟨_, _, rfl, rfl, rfl, ?_⟩, rfl, ?_⟩
  · rintro (h | h)
    · cases h
    · cases h
  · exact ⟨_, rfl⟩

end Cadastre
