/-
# Chunks are maximal runs of rows

A batch is cut into runs of consecutive rows, and each run is called once. Nothing is
lost, duplicated or reordered by it: the runs are the rows, put together in order
(`ResolvedRow.MaximalRuns.flatten`). The rows of a run share a call: they are of one
overload and have equal values in every parameter that is not batched, as values
compare. A run ends for one of two reasons only, that it is full or that the next row
shares no call with any of its rows (`ResolvedRow.MaximalRuns.maximal`). The code
compares that row with the first one of the run alone; that this is as good as
comparing it with all of them is because equality of values is symmetric and transitive
(`ResolvedRow.shares_iff`), though a NaN is not equal to itself.

The invariant of the loop is on its open chunk: it passes the values of a run that may
still grow (`BoundFunction.Pending`). The loop ends with all rows in a run and no error
to come, if every row was resolved (`BoundFunction.exists_maximalRuns`). The calls are
then made in order. If each gives as many results as its run has rows, the batch is
answered with all results in order; the first that does not is the last that is made,
and the batch fails (`BoundFunction.CallsEnd`).

Key definitions: `ResolvedRow.Shares`, `ResolvedRow.MaximalRuns`,
`BoundFunction.Pending`, `BoundFunction.CallsEnd`.
Key theorems: `BoundFunction.Gathers.fits_iff`, `BoundFunction.Pending.push`,
`BoundFunction.Pending.ends`, `BoundFunction.exists_maximalRuns`,
`BoundFunction.callsEnd`, `BoundFunction.batchChunking`.
-/
import Cadastre.Proofs.HostCalls

namespace Cadastre

/-! ### Rows that share a call -/

namespace ResolvedRow

/-- One call can be made for both rows. -/
structure Shares (x y : ResolvedRow) : Prop where
  overload : x.overload = y.overload
  /-- Their values are equal in every parameter that is not batched. -/
  constants : ∀ (k : Nat) (p : Parameter) (v w : Value),
    x.signature.parameters[k]? = some p → p.batched = false →
      x.values[k]? = some v → y.values[k]? = some w → v.same w = true

/-- `MaximalRuns size rows runs`: the rows are cut into the runs, of at most `size` rows
that share a call, and no run ends too early. -/
structure MaximalRuns (size : Nat) (rows : List ResolvedRow) (runs : List (List ResolvedRow)) :
    Prop where
  flatten : runs.flatten = rows
  nonempty : ∀ run ∈ runs, run ≠ []
  length_le : ∀ run ∈ runs, run.length ≤ size
  shares : ∀ run ∈ runs, run.Pairwise Shares
  /-- The next run starts because the run is full or its first row shares no call with
  any row of the run. -/
  maximal : runs.IsChain fun run next =>
    run.length = size ∨ ∀ x ∈ run, ∀ y ∈ next.head?, ¬ x.Shares y

end ResolvedRow

namespace ResolvedRow

open BoundFunction (Offers)

variable {f : BoundFunction} {x y z : ResolvedRow}

/-- Rows that share a call have one signature. -/
theorem Shares.signature_eq (hx : f.Offers x) (hy : f.Offers y) (h : x.Shares y) :
    x.signature = y.signature := hx.signature_eq h.overload hy.signature

theorem Shares.symm (hx : f.Offers x) (hy : f.Offers y) (h : x.Shares y) : y.Shares x where
  overload := h.overload.symm
  constants k p v w hp hbatched hv hw := by
    rw [← h.signature_eq hx hy] at hp
    exact Value.same_symm (h.constants k p w v hp hbatched hw hv)

theorem Shares.trans (hx : f.Offers x) (hy : f.Offers y) (h : x.Shares y) (h' : y.Shares z) :
    x.Shares z where
  overload := h.overload.trans h'.overload
  constants k p u w hp hbatched hu hw := by
    have hp' := hp
    rw [h.signature_eq hx hy] at hp'
    obtain ⟨v, hv⟩ := Chunk.exists_getElem? hy.values hp'
    exact Value.same_trans (h.constants k p u v hp hbatched hu hv)
      (h'.constants k p v w hp' hbatched hv hw)

/-- What shares a call with the first row of a run does so with every row of it. -/
theorem shares_iff {rest : List ResolvedRow} (hoffers : ∀ a ∈ x :: rest, f.Offers a)
    (hrun : (x :: rest).Pairwise Shares) (hy : y ∈ x :: rest) : x.Shares z ↔ y.Shares z := by
  rcases List.mem_cons.1 hy with rfl | hrest
  · rfl
  have hx := hoffers x List.mem_cons_self
  have hxy : x.Shares y := (List.pairwise_cons.1 hrun).1 y hrest
  exact ⟨(hxy.symm hx (hoffers y hy)).trans (hoffers y hy) hx, hxy.trans hx (hoffers y hy)⟩

/-- A run can be set before others, if it does not end too early for them. -/
theorem MaximalRuns.cons {size : Nat} {run next rows : List ResolvedRow}
    {runs : List (List ResolvedRow)} (h : MaximalRuns size rows (next :: runs)) (hrun : run ≠ [])
    (hle : run.length ≤ size) (hshares : run.Pairwise Shares)
    (hmaximal : run.length = size ∨ ∀ x ∈ run, ∀ y ∈ next.head?, ¬ x.Shares y) :
    MaximalRuns size (run ++ rows) (run :: next :: runs) where
  flatten := by rw [List.flatten_cons, h.flatten]
  nonempty := List.forall_mem_cons.2 ⟨hrun, h.nonempty⟩
  length_le := List.forall_mem_cons.2 ⟨hle, h.length_le⟩
  shares := List.forall_mem_cons.2 ⟨hshares, h.shares⟩
  maximal := List.isChain_cons_cons.2 ⟨hmaximal, h.maximal⟩

end ResolvedRow

open ResolvedRow (Shares MaximalRuns)

/-! ### When a row joins a chunk -/

/-- A row agrees with the columns if it does in each that is not batched. -/
theorem Chunk.agrees_iff {ps : List Parameter} {columns : List (List Value)} {vs : List Value}
    (hcolumns : columns.length = ps.length) (hvs : vs.length = ps.length) :
    agrees ps columns vs = true ↔ ∀ (k : Nat) (p : Parameter) (column : List Value) (w : Value),
      ps[k]? = some p → p.batched = false → columns[k]? = some column → vs[k]? = some w →
        ∃ v, column.head? = some v ∧ v.same w = true := by
  induction ps generalizing columns vs with
  | nil =>
    rw [List.length_eq_zero_iff.1 hcolumns]
    refine ⟨fun _ k p _ _ hp => ?_, fun _ => rfl⟩
    cases hp
  | cons p ps ih =>
    rcases columns with - | ⟨column, columns⟩
    · cases hcolumns
    rcases vs with - | ⟨w, vs⟩
    · cases hvs
    rw [agrees, Bool.and_eq_true, ih (Nat.succ.inj hcolumns) (Nat.succ.inj hvs)]
    constructor
    · rintro ⟨hhead, htail⟩ k q c u hq hbatched hc hu
      cases k with
      | zero =>
        cases hq
        cases hc
        cases hu
        rw [hbatched, Bool.false_or] at hhead
        cases hfirst : column.head? with
        | none => simp [hfirst] at hhead
        | some v => exact ⟨v, rfl, by simpa [hfirst] using hhead⟩
      | succ k => exact htail k q c u hq hbatched hc hu
    · intro h
      refine ⟨?_, fun k q c u hq hbatched hc hu => h (k + 1) q c u hq hbatched hc hu⟩
      cases hbatched : p.batched with
      | true => rfl
      | false =>
        obtain ⟨v, hv, hsame⟩ := h 0 p column w rfl hbatched rfl rfl
        simp [hv, hsame]

namespace BoundFunction

variable {f : BoundFunction} {c : Chunk} {x y : ResolvedRow} {run : List ResolvedRow}

theorem Gathers.rows_eq (h : f.Gathers c run) : c.rows = run.length := by
  obtain ⟨_, _, hcarries⟩ := h.exists_carries
  rw [hcarries.rows, List.length_map]

/-- A row fits a chunk if it shares a call with the first row of its run. -/
theorem Gathers.fits_iff {rest : List ResolvedRow} (h : f.Gathers c (x :: rest))
    (hy : f.Offers y) : c.fits y.overload y.signature y.values = true ↔ x.Shares y := by
  have hx := h.offers x List.mem_cons_self
  have hoverload : x.overload = c.overload := h.overload x List.mem_cons_self
  obtain ⟨s, hs, hcarries⟩ := h.exists_carries
  obtain rfl := hx.signature_eq hoverload hs
  rw [Chunk.fits, Bool.and_eq_true, beq_iff_eq]
  constructor
  · rintro ⟨hsame, hagrees⟩
    have hxy : x.overload = y.overload := hoverload.trans hsame.symm
    have hsignature := hx.signature_eq hxy hy.signature
    have hvalues := hy.values
    rw [← hsignature] at hagrees hvalues
    refine ⟨hxy, fun k p v w hp hbatched hv hw => ?_⟩
    obtain ⟨u, hu, args, hfirst, hargs⟩ := hcarries.shared k p hp hbatched
    obtain ⟨u', hu', hsame⟩ :=
      (Chunk.agrees_iff hcarries.columns hvalues).1 hagrees k p [u] w hp hbatched hu hw
    -- the column has the value of the first row of the run
    obtain rfl : x.values = args := Option.some.inj hfirst
    obtain rfl : u = v := Option.some.inj (hargs.symm.trans hv)
    obtain rfl : u = u' := Option.some.inj hu'
    exact hsame
  · intro hxy
    have hsignature := hxy.signature_eq hx hy
    have hvalues := hy.values
    rw [← hsignature] at hvalues
    refine ⟨hxy.overload.symm.trans hoverload, ?_⟩
    rw [← hsignature, Chunk.agrees_iff hcarries.columns hvalues]
    intro k p column w hp hbatched hcolumn hw
    obtain ⟨u, hu, args, hfirst, hargs⟩ := hcarries.shared k p hp hbatched
    obtain rfl : column = [u] := Option.some.inj (hcolumn.symm.trans hu)
    obtain rfl : x.values = args := Option.some.inj hfirst
    exact ⟨u, rfl, hxy.constants k p u w hp hbatched hargs hw⟩

/-! ### The runs of a batch -/

/-- The chunk gathers a run that later rows may join. -/
structure Pending (f : BoundFunction) (size : Nat) (c : Chunk) (run : List ResolvedRow) :
    Prop where
  gathers : f.Gathers c run
  nonempty : run ≠ []
  length_le : run.length ≤ size
  shares : run.Pairwise Shares

variable {size : Nat}

theorem pending_ofRow (hsize : 0 < size) (hx : f.Offers x) :
    f.Pending size (.ofRow x.overload x.values) [x] where
  gathers := gathers_ofRow hx
  nonempty := by simp
  length_le := hsize
  shares := List.pairwise_singleton _ _

/-- A row that fits shares a call with every row of the run, and no other row does so
with any. -/
theorem Pending.fits_iff (h : f.Pending size c run) (hy : f.Offers y) (hx : x ∈ run) :
    c.fits y.overload y.signature y.values = true ↔ x.Shares y := by
  obtain ⟨first, rest, rfl⟩ := List.exists_cons_of_ne_nil h.nonempty
  rw [h.gathers.fits_iff hy]
  exact ResolvedRow.shares_iff h.gathers.offers h.shares hx

/-- A row joins the run. -/
theorem Pending.push (h : f.Pending size c run) (hy : f.Offers y) (hrows : c.rows < size)
    (hfits : c.fits y.overload y.signature y.values = true) :
    f.Pending size (c.push y.signature y.values) (run ++ [y]) where
  gathers := h.gathers.push hy (Chunk.overload_eq_of_fits hfits)
  nonempty := by simp
  length_le := by
    have hlength := h.gathers.rows_eq
    rw [List.length_append, List.length_singleton]
    omega
  shares := by
    refine List.pairwise_append.2 ⟨h.shares, List.pairwise_singleton _ _, fun x hx z hz => ?_⟩
    rw [List.mem_singleton.1 hz]
    exact (h.fits_iff hy hx).1 hfits

/-- A row does not join the run: it is full, or the row shares no call with it. -/
theorem Pending.ends (h : f.Pending size c run) (hy : f.Offers y)
    (hjoin : ¬ (c.rows < size ∧ c.fits y.overload y.signature y.values = true)) :
    run.length = size ∨ ∀ x ∈ run, ¬ x.Shares y := by
  have hlength := h.gathers.rows_eq
  have hle := h.length_le
  by_cases hfull : run.length = size
  · exact .inl hfull
  · exact .inr fun x hx hxy => hjoin ⟨by omega, (h.fits_iff hy hx).2 hxy⟩

/-- The rows that follow the run of the open chunk are cut into runs: the first of them
may go on with that run. Each run is gathered in a chunk, and the chunks are called. -/
theorem exists_maximalRuns (hsize : 0 < size) {rows : List (List Value)}
    {resolved : List ResolvedRow}
    (hrows : List.Forall₂ (fun row x => f.resolveRow row = .ok x) rows resolved)
    (hc : f.Pending size c run) :
    ∃ more runs chunks, MaximalRuns size (run ++ resolved) ((run ++ more) :: runs) ∧
      List.Forall₂ f.Gathers chunks ((run ++ more) :: runs) ∧
      Agenda.ofChunks f.resolveRow size (some c) rows = ⟨chunks.map .chunk, none⟩ := by
  induction hrows generalizing c run with
  | nil =>
    refine ⟨[], [], [c], ⟨?_, ?_, ?_, ?_, .singleton _⟩, ?_, rfl⟩
    · simp
    · simpa using hc.nonempty
    · simpa using hc.length_le
    · simpa using hc.shares
    · simpa using hc.gathers
  | @cons row y rows resolved hrow _ ih =>
    have hy := offers_of_resolveRow hrow
    rw [Agenda.ofChunks, hrow]
    dsimp only
    by_cases hjoin : c.rows < size ∧ c.fits y.overload y.signature y.values = true
    · -- the run goes on
      obtain ⟨more, runs, chunks, hruns, hchunks, hagenda⟩ := ih (hc.push hy hjoin.1 hjoin.2)
      rw [List.append_assoc, List.append_assoc] at hruns
      rw [List.append_assoc] at hchunks
      rw [if_pos hjoin]
      exact ⟨y :: more, runs, chunks, hruns, hchunks, hagenda⟩
    · -- the run is complete, and the row begins the next one
      obtain ⟨more, runs, chunks, hruns, hchunks, hagenda⟩ := ih (pending_ofRow hsize hy)
      have hmaximal : run.length = size ∨ ∀ x ∈ run, ∀ z ∈ ([y] ++ more).head?, ¬ x.Shares z := by
        refine (hc.ends hy hjoin).imp_right fun hends x hx z hz => ?_
        rw [← Option.some.inj hz]
        exact hends x hx
      refine ⟨[], ([y] ++ more) :: runs, c :: chunks, ?_, ?_, ?_⟩
      · rw [List.append_nil]
        exact hruns.cons hc.nonempty hc.length_le hc.shares hmaximal
      · rw [List.append_nil]
        exact .cons hc.gathers hchunks
      · rw [if_neg hjoin, hagenda]
        rfl

/-! ### What becomes of the calls -/

/-- `f.CallsEnd calls made result`: of the calls that are due, `made` are made, with the
result. -/
inductive CallsEnd (f : BoundFunction) (calls made : List HostCall) :
    Except Error (List Value) → Prop
  /-- All are made, each gives a result per row, and these are joined. -/
  | answered {outs : List (List Value)} (hmade : made = calls)
      (houts : List.Forall₂ (fun call out => f.reply call = .ok out ∧ out.length = call.rows)
        calls outs) : CallsEnd f calls made (.ok outs.flatten)
  /-- The last that is made is the first that gives more or fewer results. -/
  | miscounted {before after : List HostCall} {call : HostCall} {out : List Value}
      (hcalls : calls = before ++ call :: after) (hmade : made = before ++ [call])
      (hbefore : ∀ earlier ∈ before, ∃ out, f.reply earlier = .ok out ∧
        out.length = earlier.rows)
      (hreply : f.reply call = .ok out) (hcount : out.length ≠ call.rows) :
      CallsEnd f calls made
        (.error (.function (.batchResultLength f.qualifiedName call.rows out.length)))

/-- Calls of which all that are made succeed end so. -/
theorem callsEnd {calls : List HostCall}
    (h : ∀ call ∈ f.made calls, ∃ out, f.reply call = .ok out) :
    f.CallsEnd calls (f.made calls) (f.callAll calls) := by
  induction calls with
  | nil => exact .answered rfl .nil
  | cons call calls ih =>
    rw [made] at h ⊢
    obtain ⟨⟨out, hreply⟩, hcalls⟩ := List.forall_mem_cons.1 h
    have hanswer := answer_of_reply hreply
    rw [callAll]
    by_cases hcount : out.length = call.rows
    · rw [if_pos hcount] at hanswer
      rw [hanswer] at hcalls ⊢
      have hend := ih hcalls
      show f.CallsEnd _ (call :: f.made calls) ((f.callAll calls).map fun more => out ++ more)
      generalize f.callAll calls = result at hend
      cases hend with
      | @answered outs hmade houts =>
        rw [hmade]
        exact .answered rfl (.cons ⟨hreply, hcount⟩ houts)
      | miscounted hcalls' hmade hbefore hreply' hcount' =>
        rw [hmade, hcalls']
        rw [← List.cons_append, ← List.cons_append]
        exact .miscounted rfl rfl (List.forall_mem_cons.2 ⟨⟨out, hreply, hcount⟩, hbefore⟩)
          hreply' hcount'
    · rw [if_neg hcount] at hanswer
      rw [hanswer]
      exact .miscounted (List.nil_append _).symm rfl (List.forall_mem_nil _) hreply hcount

/-- Calls end badly if one of those that are made gives more or fewer results. -/
theorem CallsEnd.fails_iff {calls made : List HostCall} {result : Except Error (List Value)}
    (h : f.CallsEnd calls made result) :
    (∃ e, result = .error e ∧ e.code = "EXECUTION_001") ↔
      ∃ call ∈ made, ∃ out, f.reply call = .ok out ∧ out.length ≠ call.rows := by
  cases h with
  | answered hmade houts =>
    constructor
    · rintro ⟨e, he, _⟩
      cases he
    · rintro ⟨call, hcall, out, hreply, hcount⟩
      rw [hmade] at hcall
      obtain ⟨k, hk, rfl⟩ := List.getElem_of_mem hcall
      obtain ⟨hreply', hcount'⟩ := houts.get hk (houts.length_eq ▸ hk)
      rw [List.get_eq_getElem, hreply] at hreply'
      rw [← Except.ok.inj hreply'] at hcount'
      exact absurd hcount' hcount
  | miscounted hcalls hmade hbefore hreply hcount =>
    refine ⟨fun _ => ⟨_, ?_, _, hreply, hcount⟩, fun _ => ⟨_, rfl, rfl⟩⟩
    rw [hmade]
    exact List.mem_append_right _ List.mem_cons_self

/-- As many results are joined as there are rows in the runs. -/
theorem length_flatten_of_gathers {chunks : List Chunk} {runs : List (List ResolvedRow)}
    {outs : List (List Value)} (hchunks : List.Forall₂ f.Gathers chunks runs)
    (houts : List.Forall₂ (fun call out => f.reply call = .ok out ∧ out.length = call.rows)
      (chunks.map .chunk) outs) : outs.flatten.length = runs.flatten.length := by
  induction hchunks generalizing outs with
  | nil =>
    cases houts
    rfl
  | @cons c run chunks runs hc _ ih =>
    obtain ⟨out, outs, ⟨_, hcount⟩, hrest, rfl⟩ := List.forall₂_cons_left_iff.1 houts
    have hlength : out.length = run.length := hcount.trans hc.rows_eq
    rw [List.flatten_cons, List.flatten_cons, List.length_append, List.length_append, hlength,
      ih hrest]

/-- The rows of a batch are cut into maximal runs, and the chunks of these are called in
order. If all calls that are made succeed, the batch is answered with a result per row,
or fails at the first call that gives more or fewer. -/
theorem batchChunking (hbatch : f.batchSize = some size) (hsize : 0 < size)
    {rows : List (List Value)} {resolved : List ResolvedRow}
    (hrows : List.Forall₂ (fun row x => f.resolveRow row = .ok x) rows resolved)
    (hcalls : ∀ call ∈ f.execBatchCalls rows, ∃ out, f.reply call = .ok out) :
    ∃ runs chunks, MaximalRuns size resolved runs ∧ List.Forall₂ f.Gathers chunks runs ∧
      f.CallsEnd (chunks.map .chunk) (f.execBatchCalls rows) (f.execBatch rows) ∧
      (∀ out, f.execBatch rows = .ok out → out.length = rows.length) ∧
      ((∃ e, f.execBatch rows = .error e ∧ e.code = "EXECUTION_001") ↔
        ∃ call ∈ f.execBatchCalls rows, ∃ out, f.reply call = .ok out ∧
          out.length ≠ call.rows) := by
  obtain ⟨runs, chunks, hruns, hchunks, hagenda⟩ : ∃ runs chunks,
      MaximalRuns size resolved runs ∧ List.Forall₂ f.Gathers chunks runs ∧
        f.batchAgenda rows = ⟨chunks.map .chunk, none⟩ := by
    rw [batchAgenda, hbatch]
    dsimp only
    cases hrows with
    | nil =>
      have hnil : MaximalRuns size [] [] :=
        ⟨rfl, List.forall_mem_nil _, List.forall_mem_nil _, List.forall_mem_nil _, .nil⟩
      exact ⟨[], [], hnil, .nil, rfl⟩
    | @cons row x rows resolved hrow hrows =>
      obtain ⟨more, runs, chunks, hruns, hchunks, hagenda⟩ :=
        exists_maximalRuns hsize hrows (pending_ofRow hsize (offers_of_resolveRow hrow))
      refine ⟨_, chunks, hruns, hchunks, ?_⟩
      rw [Agenda.ofChunks, hrow]
      exact hagenda
  have hend : f.CallsEnd (chunks.map .chunk) (f.execBatchCalls rows) (f.execBatch rows) := by
    have hresult : f.execBatch rows = f.callAll (chunks.map .chunk) := by
      rw [execBatch_eq_carryOut, hagenda, carryOut]
      cases f.callAll (chunks.map .chunk) <;> rfl
    rw [execBatchCalls, hagenda] at hcalls ⊢
    rw [hresult]
    exact callsEnd hcalls
  refine ⟨runs, chunks, hruns, hchunks, hend, fun out hout => ?_, hend.fails_iff⟩
  rw [hout] at hend
  generalize hresult : (Except.ok out : Except Error (List Value)) = result at hend
  cases hend with
  | answered _ houts =>
    rw [Except.ok.inj hresult, length_flatten_of_gathers hchunks houts, hruns.flatten,
      hrows.length_eq]
  | miscounted => cases hresult

end BoundFunction

namespace Sample

/-- Five rows of one step and a row of another. -/
def strides : List (List Value) :=
  [[.int 1, .int 5], [.int 2, .int 5], [.int 3, .int 5], [.int 4, .int 5], [.int 5, .int 5],
    [.int 6, .int 7]]

def strideSignature : Signature :=
  ⟨[⟨"start", .int, none, true⟩, ⟨"step", .int, none, false⟩], .int, true⟩

/-- Its rows are called in chunks of four, one and one. -/
theorem execBatchCalls_strides : (stride .int).execBatchCalls strides =
    [.chunk ⟨0, [[.int 1, .int 2, .int 3, .int 4], [.int 5]], 4⟩,
      .chunk ⟨0, [[.int 5], [.int 5]], 1⟩, .chunk ⟨0, [[.int 6], [.int 7]], 1⟩] := rfl

end Sample

/-- A function of batches of up to four rows, all of whose calls succeed. -/
theorem Sample.batchChunking_strides :
    (Sample.stride .int).batchSize = some 4 ∧ 0 < 4 ∧
      List.Forall₂ (fun row x => (Sample.stride .int).resolveRow row = .ok x) Sample.strides
        (Sample.strides.map fun row => (0, Sample.strideSignature, row)) ∧
      (∀ call ∈ (Sample.stride .int).execBatchCalls Sample.strides,
        ∃ out, (Sample.stride .int).reply call = .ok out) ∧
      ∃ runs chunks,
        MaximalRuns 4 (Sample.strides.map fun row => (0, Sample.strideSignature, row)) runs ∧
        List.Forall₂ (Sample.stride .int).Gathers chunks runs ∧
        (Sample.stride .int).CallsEnd (chunks.map .chunk)
          ((Sample.stride .int).execBatchCalls Sample.strides)
          ((Sample.stride .int).execBatch Sample.strides) := by
  have hrows : List.Forall₂ (fun row x => (Sample.stride .int).resolveRow row = .ok x)
      Sample.strides (Sample.strides.map fun row => (0, Sample.strideSignature, row)) :=
    .cons rfl (.cons rfl (.cons rfl (.cons rfl (.cons rfl (.cons rfl .nil)))))
  have hcalls : ∀ call ∈ (Sample.stride .int).execBatchCalls Sample.strides,
      ∃ out, (Sample.stride .int).reply call = .ok out := by
    intro call hcall
    rw [Sample.execBatchCalls_strides] at hcall
    simp only [List.mem_cons, List.not_mem_nil, or_false] at hcall
    rcases hcall with rfl | rfl | rfl
    · exact ⟨[.int 5, .int 5, .int 5, .int 5], rfl⟩
    · exact ⟨[.int 5], rfl⟩
    · exact ⟨[.int 7], rfl⟩
  obtain ⟨runs, chunks, hruns, hchunks, hend, _⟩ :=
    BoundFunction.batchChunking rfl (by decide) hrows hcalls
  exact ⟨rfl, by decide, hrows, hcalls, runs, chunks, hruns, hchunks, hend⟩

end Cadastre
