/-
# Batched execution is row-wise execution

A function with a batch size collects consecutive rows in a chunk and calls its
callable once for all of them. A callable that works row by row sees of a chunk the
rows that its columns are put together from (`Chunk.Holds`): a batched parameter's
column has a value per row, and any other column one value, for all of them. So
what a chunk answers is what its rows answer one by one, provided that a row which
joins it has the very values that the chunk has for the parameters that are not
batched. Whether it joins is decided by comparing the values, and the floats `0.0` and
`-0.0` compare as equal: a chunk that starts with one of them takes in a row with the
other, whose callable then sees the wrong zero (`Sample.merged_zeros`).

Wherever equal constants are the same constants from each row to the next, the batch
answers what the rows answer, and fails if one of them does
(`BoundFunction.batchedExecution`). That is so of every function whose parameters
that are not batched hold neither floats nor free-form JSON
(`BoundFunction.tellsApart_of_exact`).

Key definitions: `Callable.RowWise`, `Parameter.constants`, `Chunk.Holds`,
`BoundFunction.TellsApart`, `BoundFunction.Collects`.
Key theorems: `Chunk.Holds.push`, `BoundFunction.callChunk_eq_ok_iff`,
`BoundFunction.execChunks_eq_ok_iff`, `BoundFunction.batchedExecution`,
`BoundFunction.tellsApart_of_exact`.
-/
import Cadastre.BoundFunction.Batch
import Cadastre.Proofs.AcceptedCalls
import Cadastre.Proofs.Sameness

namespace Cadastre

/-- What relates to a list that is put together is put together of what relates to
its parts. -/
theorem forall₂_append_left_iff {α β : Type} {R : α → β → Prop} {l₁ l₂ : List α} {m : List β} :
    List.Forall₂ R (l₁ ++ l₂) m ↔
      ∃ m₁ m₂, List.Forall₂ R l₁ m₁ ∧ List.Forall₂ R l₂ m₂ ∧ m₁ ++ m₂ = m := by
  constructor
  · intro h
    induction l₁ generalizing m with
    | nil => exact ⟨[], m, .nil, h, rfl⟩
    | cons a l₁ ih =>
      cases h with
      | cons hab h =>
        obtain ⟨m₁, m₂, h₁, h₂, rfl⟩ := ih h
        exact ⟨_ :: m₁, m₂, .cons hab h₁, h₂, rfl⟩
  · rintro ⟨m₁, m₂, h₁, h₂, rfl⟩
    exact List.rel_append h₁ h₂

/-! ### Callables that work row by row -/

namespace Callable

/-- A batch is called row by row. -/
def RowWise (c : Callable) : Prop := ∀ columns rows,
  c.callBatch columns rows = callRows c.call columns (List.range rows)

theorem rowWise_scalar (instanceId : Nat) (f : List Value → Except Error Value) :
    (scalar instanceId f).RowWise := fun _ _ => rfl

theorem rowArgs_cons (column : List Value) (columns : List (List Value)) (j : Nat) :
    rowArgs (column :: columns) j =
      (column[j]?).getD (column.head?.getD .none) :: rowArgs columns j := rfl

/-- A column of one value has it for every row. -/
theorem rowArgs_singleton_cons (v : Value) (columns : List (List Value)) (j : Nat) :
    rowArgs ([v] :: columns) j = v :: rowArgs columns j := by
  rw [rowArgs_cons]
  cases j <;> rfl

theorem rowArgs_map_singleton (vs : List Value) (j : Nat) :
    rowArgs (vs.map fun v => [v]) j = vs := by
  induction vs with
  | nil => rfl
  | cons v vs ih => rw [List.map_cons, rowArgs_singleton_cons, ih]

/-- Rows are answered if each of them is. -/
theorem callRows_eq_ok_iff {call : List Value → Except Error Value} {columns : List (List Value)}
    {rows : List Nat} {vs : List Value} : callRows call columns rows = .ok vs ↔
      List.Forall₂ (fun args v => call args = .ok v) (rows.map (rowArgs columns)) vs := by
  induction rows generalizing vs with
  | nil =>
    rw [List.map_nil, List.forall₂_nil_left_iff]
    exact ⟨fun h => (Except.ok.inj h).symm, fun h => h ▸ rfl⟩
  | cons row rows ih =>
    rw [List.map_cons, List.forall₂_cons_left_iff]
    constructor
    · intro h
      obtain ⟨v, hv, h⟩ := bind_eq_ok_iff.1 h
      obtain ⟨ws, hws, h⟩ := bind_eq_ok_iff.1 h
      cases h
      exact ⟨v, ws, hv, ih.1 hws, rfl⟩
    · rintro ⟨v, ws, hv, hws, rfl⟩
      exact bind_eq_ok_iff.2 ⟨v, hv, bind_eq_ok_iff.2 ⟨ws, ih.2 hws, rfl⟩⟩

end Callable

/-! ### What a chunk holds -/

/-- The values of the parameters that are not batched. -/
def Parameter.constants : List Parameter → List Value → List Value
  | p :: ps, v :: vs => if p.batched then constants ps vs else v :: constants ps vs
  | _, _ => []

/-- A batched parameter's column has a value per row, any other has one. -/
def Parameter.Fills (rows : Nat) (p : Parameter) (column : List Value) : Prop :=
  column.length = if p.batched then rows else 1

open Parameter (constants Fills)

namespace Chunk

open Callable (rowArgs rowArgs_cons rowArgs_singleton_cons rowArgs_map_singleton)

variable {n : Nat} {ps : List Parameter} {columns : List (List Value)} {vs : List Value}

/-- The columns of one row. -/
theorem fills_map_singleton (hvs : vs.length = ps.length) :
    List.Forall₂ (Fills 1) ps (vs.map fun v => [v]) := by
  induction ps generalizing vs with
  | nil =>
    rw [List.length_eq_zero_iff.1 hvs]
    exact .nil
  | cons p ps ih =>
    cases vs with
    | nil => cases hvs
    | cons v vs => exact .cons (by simp [Fills]) (ih (Nat.succ.inj hvs))

/-- The columns with one row more. -/
theorem fills_extend (h : List.Forall₂ (Fills n) ps columns) (hvs : vs.length = ps.length) :
    List.Forall₂ (Fills (n + 1)) ps (extend ps columns vs) := by
  induction h generalizing vs with
  | nil => exact .nil
  | @cons p column ps columns hp _ ih =>
    cases vs with
    | nil => cases hvs
    | cons v vs =>
      refine .cons ?_ (ih (Nat.succ.inj hvs))
      unfold Fills at hp ⊢
      by_cases hbatched : p.batched = true
      · rw [if_pos hbatched] at hp ⊢
        rw [if_pos hbatched, List.length_append, hp, List.length_singleton]
      · rw [if_neg hbatched] at hp ⊢
        rw [if_neg hbatched, hp]

/-- The rows that are there stay. -/
theorem rowArgs_extend_of_lt (h : List.Forall₂ (Fills n) ps columns) {j : Nat} (hj : j < n) :
    rowArgs (extend ps columns vs) j = rowArgs columns j := by
  induction h generalizing vs with
  | nil => rfl
  | @cons p column ps columns hp _ ih =>
    cases vs with
    | nil => rfl
    | cons v vs =>
      rw [extend, rowArgs_cons, rowArgs_cons, ih]
      unfold Fills at hp
      by_cases hbatched : p.batched = true
      · rw [if_pos hbatched] at hp ⊢
        have hlt : j < column.length := hp ▸ hj
        simp [hlt, List.getElem?_append_left hlt]
      · rw [if_neg hbatched]

/-- The new row is the last one, if it has the constants of one that is there. -/
theorem rowArgs_extend_self (h : List.Forall₂ (Fills n) ps columns) (hvs : vs.length = ps.length)
    {j : Nat} (hconstants : constants ps (rowArgs columns j) = constants ps vs) :
    rowArgs (extend ps columns vs) n = vs := by
  induction h generalizing vs with
  | nil => exact (List.length_eq_zero_iff.1 hvs).symm
  | @cons p column ps columns hp _ ih =>
    cases vs with
    | nil => cases hvs
    | cons v vs =>
      have hvs : vs.length = ps.length := Nat.succ.inj hvs
      unfold Fills at hp
      by_cases hbatched : p.batched = true
      · rw [if_pos hbatched] at hp
        rw [rowArgs_cons, constants, constants, if_pos hbatched, if_pos hbatched] at hconstants
        have hlast : (column ++ [v])[n]? = some v := by
          rw [← hp]
          exact List.getElem?_concat_length
        rw [extend, if_pos hbatched, rowArgs_cons, hlast, ih hvs hconstants]
        rfl
      · rw [if_neg hbatched] at hp
        obtain ⟨w, rfl⟩ := List.length_eq_one_iff.1 hp
        rw [rowArgs_singleton_cons, constants, constants, if_neg hbatched, if_neg hbatched]
          at hconstants
        obtain ⟨hhead, htail⟩ := List.cons.inj hconstants
        rw [extend, if_neg hbatched, rowArgs_singleton_cons, hhead, ih hvs htail]

/-- A row agrees with the columns if its constants are the same as those of a row
that is there. -/
theorem agrees_eq_allSame (h : List.Forall₂ (Fills n) ps columns) (hvs : vs.length = ps.length)
    (j : Nat) : agrees ps columns vs =
      allSame Value.same (constants ps (rowArgs columns j)) (constants ps vs) := by
  induction h generalizing vs with
  | nil => rfl
  | @cons p column ps columns hp _ ih =>
    cases vs with
    | nil => cases hvs
    | cons v vs =>
      rw [agrees, ih (Nat.succ.inj hvs)]
      unfold Fills at hp
      by_cases hbatched : p.batched = true
      · rw [rowArgs_cons, constants, constants, if_pos hbatched, if_pos hbatched, hbatched,
          Bool.true_or, Bool.true_and]
      · rw [if_neg hbatched] at hp
        obtain ⟨w, rfl⟩ := List.length_eq_one_iff.1 hp
        rw [rowArgs_singleton_cons, constants, constants, if_neg hbatched, if_neg hbatched,
          allSame, Bool.eq_false_iff.2 hbatched, Bool.false_or]
        rfl

/-- `c.Holds s argss`: the columns of the chunk are those of the signature, and what
a callable sees of them row by row are the arguments `argss`. -/
structure Holds (c : Chunk) (s : Signature) (argss : List (List Value)) : Prop where
  fills : List.Forall₂ (Fills c.rows) s.parameters c.columns
  rows : (List.range c.rows).map (rowArgs c.columns) = argss

variable {c : Chunk} {s : Signature} {argss : List (List Value)} {args : List Value}

theorem holds_ofRow (i : Nat) (hvs : vs.length = s.parameters.length) :
    (ofRow i vs).Holds s [vs] where
  fills := fills_map_singleton hvs
  rows := by
    show [rowArgs (vs.map fun v => [v]) 0] = [vs]
    rw [rowArgs_map_singleton]

theorem Holds.exists_rowArgs (h : c.Holds s argss) (hargs : args ∈ argss) :
    ∃ j < c.rows, rowArgs c.columns j = args := by
  rw [← h.rows] at hargs
  obtain ⟨j, hj, heq⟩ := List.mem_map.1 hargs
  exact ⟨j, List.mem_range.1 hj, heq⟩

/-- A row that fits a chunk is of its overload. -/
theorem overload_eq_of_fits {i : Nat} (h : c.fits i s vs = true) : i = c.overload := by
  unfold fits at h
  exact eq_of_beq (Bool.and_eq_true_iff.1 h).1

/-- A row fits a chunk of its overload if its constants are the same as those of any
row of the chunk. -/
theorem Holds.fits_iff (h : c.Holds s argss) (hargs : args ∈ argss)
    (hvs : vs.length = s.parameters.length) {i : Nat} : c.fits i s vs = true ↔
      i = c.overload ∧
        allSame Value.same (constants s.parameters args) (constants s.parameters vs) = true := by
  obtain ⟨j, _, rfl⟩ := h.exists_rowArgs hargs
  rw [fits, agrees_eq_allSame h.fills hvs j, Bool.and_eq_true, beq_iff_eq]

/-- A row that has the constants of the chunk joins it as it is. -/
theorem Holds.push (h : c.Holds s argss) (hargs : args ∈ argss)
    (hvs : vs.length = s.parameters.length)
    (hconstants : constants s.parameters args = constants s.parameters vs) :
    (c.push s vs).Holds s (argss ++ [vs]) where
  fills := fills_extend h.fills hvs
  rows := by
    obtain ⟨j, _, rfl⟩ := h.exists_rowArgs hargs
    have hbefore : (List.range c.rows).map (rowArgs (extend s.parameters c.columns vs)) = argss := by
      rw [← h.rows]
      exact List.map_congr_left fun k hk =>
        rowArgs_extend_of_lt h.fills (List.mem_range.1 hk)
    have hlast := rowArgs_extend_self h.fills hvs hconstants
    show (List.range (c.rows + 1)).map (rowArgs (extend s.parameters c.columns vs)) = argss ++ [vs]
    rw [List.range_succ, List.map_append, hbefore, List.map_singleton, hlast]

end Chunk

theorem Parameter.Passes.length_eq {ps : List Parameter} {cs : List Conversion}
    {row vs : List Value} (h : Passes ps cs row vs) : vs.length = ps.length := by
  induction h with
  | defaults => exact List.length_map _
  | cons _ _ _ ih => exact congrArg (· + 1) ih

/-! ### Executing in chunks -/

namespace BoundFunction

variable {f : BoundFunction} {row row' : List Value} {rows : List (List Value)}

/-- Every callable of the function works row by row. -/
def RowWise (f : BoundFunction) : Prop := ∀ i c, f.callable i = .ok c → c.RowWise

/-- If the two rows are of one overload and their constants compare as equal, then
the constants are the same. -/
def TellsApart (f : BoundFunction) (row row' : List Value) : Prop :=
  ∀ i s vs vs', f.resolveRow row = .ok (i, s, vs) → f.resolveRow row' = .ok (i, s, vs') →
    allSame Value.same (constants s.parameters vs) (constants s.parameters vs') = true →
      constants s.parameters vs = constants s.parameters vs'

/-- The values of a row that is resolved are passed to the parameters of an overload. -/
theorem passes_of_resolveRow {i : Nat} {s : Signature} {vs : List Value}
    (h : f.resolveRow row = .ok (i, s, vs)) :
    f.signatures[i]? = some s ∧ ∃ cs, Parameter.Passes s.parameters cs row vs := by
  unfold resolveRow at h
  split at h
  · cases h
  · rename_i cs hresolve
    obtain ⟨ws, hws, heq⟩ := map_eq_ok_iff.1 h
    cases heq
    obtain ⟨hs, haccepts⟩ := resolve_eq_ok hresolve
    refine ⟨hs, cs, ?_⟩
    rcases convertArgs_cases (Signature.acceptsFrom_of_accepts haccepts) with
      ⟨vs', hvs', hpasses⟩ | ⟨e, he, _⟩
    · rw [hws] at hvs'
      cases hvs'
      exact hpasses
    · rw [hws] at he
      cases he

theorem exec_eq {i : Nat} {s : Signature} {vs : List Value}
    (h : f.resolveRow row = .ok (i, s, vs)) :
    f.exec row = (f.callable i).bind fun c => c.call vs := by
  unfold exec
  rw [h]
  cases hcallable : f.callable i <;> simp [hcallable, Except.bind]

/-- `f.Collects c rows`: the chunk holds the rows, resolved. -/
def Collects (f : BoundFunction) (c : Chunk) (rows : List (List Value)) : Prop :=
  ∃ s argss, c.Holds s argss ∧
    List.Forall₂ (fun row args => f.resolveRow row = .ok (c.overload, s, args)) rows argss

theorem collects_ofRow {i : Nat} {s : Signature} {vs : List Value}
    (h : f.resolveRow row = .ok (i, s, vs)) : f.Collects (.ofRow i vs) [row] := by
  obtain ⟨_, _, hpasses⟩ := passes_of_resolveRow h
  exact ⟨s, [vs], Chunk.holds_ofRow i hpasses.length_eq, .cons h .nil⟩

/-- A chunk that takes a row in holds it after the others, if it is told apart from
the last of them. -/
theorem Collects.push {c : Chunk} {seen : List (List Value)} (h : f.Collects c (seen ++ [row]))
    (hrows : f.TellsApart row row') {i : Nat} {s : Signature} {vs : List Value}
    (hrow' : f.resolveRow row' = .ok (i, s, vs)) (hfits : c.fits i s vs = true) :
    f.Collects (c.push s vs) (seen ++ [row] ++ [row']) := by
  obtain ⟨t, argss, hholds, hresolved⟩ := h
  obtain ⟨hs, _, hpasses⟩ := passes_of_resolveRow hrow'
  obtain ⟨before, last, hbefore, hlast, rfl⟩ := forall₂_append_left_iff.1 hresolved
  cases hlast with
  | @cons _ args _ _ hargs hnil =>
    cases hnil
    obtain rfl := Chunk.overload_eq_of_fits hfits
    obtain rfl : t = s := by
      have ht := (passes_of_resolveRow hargs).1
      exact Option.some.inj (ht.symm.trans hs)
    have hmem : args ∈ before ++ [args] := by simp
    have hsame := ((hholds.fits_iff hmem hpasses.length_eq).1 hfits).2
    have hconstants := hrows _ _ _ _ hargs hrow' hsame
    refine ⟨t, before ++ [args] ++ [vs], hholds.push hmem hpasses.length_eq hconstants, ?_⟩
    exact List.rel_append hresolved (.cons hrow' .nil)

/-- A chunk answers what its rows answer one by one. -/
theorem callChunk_eq_ok_iff (hf : f.RowWise) {c : Chunk} {seen : List (List Value)}
    (hc : f.Collects c seen) (hseen : seen ≠ []) (out : List Value) :
    f.callChunk c = .ok out ↔ List.Forall₂ (fun row v => f.exec row = .ok v) seen out := by
  obtain ⟨s, argss, hholds, hresolved⟩ := hc
  cases hcallable : f.callable c.overload with
  | error e =>
    have hchunk : f.callChunk c = .error e := by rw [callChunk, hcallable]
    rw [hchunk]
    refine ⟨nofun, fun h => ?_⟩
    -- the first row is refused for want of a callable as well
    cases h with
    | nil => exact absurd rfl hseen
    | cons hexec _ =>
      cases hresolved with
      | cons hrow _ =>
        rw [exec_eq hrow, hcallable] at hexec
        cases hexec
  | ok callable =>
    have hcall : ∀ vs, callable.callBatch c.columns c.rows = .ok vs ↔
        List.Forall₂ (fun args v => callable.call args = .ok v) argss vs := by
      intro vs
      rw [hf _ _ hcallable, Callable.callRows_eq_ok_iff, hholds.rows]
    have hlength : ∀ vs, callable.callBatch c.columns c.rows = .ok vs → vs.length = c.rows := by
      intro vs hvs
      rw [← ((hcall vs).1 hvs).length_eq, ← hholds.rows, List.length_map, List.length_range]
    have hchunk : f.callChunk c = .ok out ↔ callable.callBatch c.columns c.rows = .ok out := by
      unfold callChunk
      simp only [hcallable]
      cases hbatch : callable.callBatch c.columns c.rows with
      | error e => simp
      | ok vs => simp [hlength vs hbatch]
    have hrows : List.Forall₂ (fun row args => ∀ v, f.exec row = .ok v ↔ callable.call args = .ok v)
        seen argss := by
      refine hresolved.imp fun row args hrow v => ?_
      rw [exec_eq hrow, hcallable]
      rfl
    rw [hchunk, hcall]
    clear hcall hlength hchunk hholds hresolved hseen
    induction hrows generalizing out with
    | nil => simp
    | cons hrow _ ih => simp only [List.forall₂_cons_left_iff, hrow, ih]

/-- Rows that follow a chunk are answered with it as they are one by one. -/
theorem execChunks_eq_ok_iff (hf : f.RowWise) {size : Nat} {c : Chunk} (seen : List (List Value))
    (hc : f.Collects c (seen ++ [row])) (hrows : (row :: rows).IsChain f.TellsApart)
    (out : List Value) : f.execChunks size (some c) rows = .ok out ↔
      List.Forall₂ (fun row v => f.exec row = .ok v) (seen ++ [row] ++ rows) out := by
  induction rows generalizing c seen row out with
  | nil =>
    rw [execChunks, List.append_nil]
    exact callChunk_eq_ok_iff hf hc (by simp) out
  | cons row' rows ih =>
    obtain ⟨hpair, hrest⟩ := List.isChain_cons_cons.1 hrows
    rw [execChunks]
    cases hrow' : f.resolveRow row' with
    | error e =>
      refine ⟨nofun, fun h => ?_⟩
      -- the row is not answered by itself either
      obtain ⟨_, _, _, h, _⟩ := forall₂_append_left_iff.1 h
      cases h with
      | cons hexec _ =>
        rw [exec, hrow'] at hexec
        cases hexec
    | ok r =>
      obtain ⟨i, s, vs⟩ := r
      dsimp only
      by_cases hjoin : c.rows < size ∧ c.fits i s vs = true
      · rw [if_pos hjoin, ih _ (hc.push hpair hrow' hjoin.2) hrest]
        simp only [List.append_assoc, List.cons_append, List.nil_append]
      · rw [if_neg hjoin, forall₂_append_left_iff]
        have hchunk := callChunk_eq_ok_iff hf hc (by simp)
        have hmore := ih [] (collects_ofRow hrow') hrest
        simp only [List.nil_append, List.singleton_append] at hmore
        simp only [← hchunk, ← hmore]
        cases f.callChunk c with
        | error e => simp
        | ok first =>
          dsimp only
          cases f.execChunks size (some (.ofRow i vs)) rows with
          | error e => simp
          | ok more => simp

/-- A batch of rows of which each tells its constants apart from those of the next
answers what the rows answer one by one, and fails if one of them fails. -/
theorem batchedExecution {size : Nat} (hsize : f.batchSize = some size) (hf : f.RowWise)
    (hrows : rows.IsChain f.TellsApart) :
    (∀ out, f.execBatch rows = .ok out ↔
        List.Forall₂ (fun row v => f.exec row = .ok v) rows out) ∧
      ∀ row ∈ rows, ∀ e, f.exec row = .error e → ∃ e', f.execBatch rows = .error e' := by
  have hanswers : ∀ out, f.execBatch rows = .ok out ↔
      List.Forall₂ (fun row v => f.exec row = .ok v) rows out := by
    intro out
    rw [execBatch, hsize]
    dsimp only
    cases rows with
    | nil =>
      rw [execChunks, List.forall₂_nil_left_iff]
      exact ⟨fun h => (Except.ok.inj h).symm, fun h => h ▸ rfl⟩
    | cons row rows =>
      rw [execChunks]
      cases hrow : f.resolveRow row with
      | error e =>
        refine ⟨nofun, fun h => ?_⟩
        cases h with
        | cons hexec _ =>
          rw [exec, hrow] at hexec
          cases hexec
      | ok r =>
        obtain ⟨i, s, vs⟩ := r
        exact execChunks_eq_ok_iff hf [] (collects_ofRow hrow) hrows out
  refine ⟨hanswers, fun row hrow e he => ?_⟩
  cases hbatch : f.execBatch rows with
  | error e' => exact ⟨e', rfl⟩
  | ok out =>
    have hout := (hanswers out).1 hbatch
    obtain ⟨before, after, rfl⟩ := List.append_of_mem hrow
    obtain ⟨_, _, _, hrest, _⟩ := forall₂_append_left_iff.1 hout
    cases hrest with
    | cons hv _ =>
      rw [he] at hv
      cases hv

end BoundFunction

/-! ### Where equal constants are the same -/

/-- The value that a parameter is passed is of its type, or its default. -/
def Parameter.Takes (p : Parameter) (v : Value) : Prop :=
  v.Conforms p.type ∨ v = p.default.getD .none

theorem Parameter.Passes.takes {ps : List Parameter} {cs : List Conversion}
    {row vs : List Value} (h : Passes ps cs row vs) : List.Forall₂ Takes ps vs := by
  induction h with
  | defaults =>
    rw [List.forall₂_map_right_iff, List.forall₂_same]
    exact fun p _ => .inr rfl
  | cons _ hconforms _ ih => exact .cons (.inl hconforms) ih

theorem Parameter.Takes.eq_of_same {p : Parameter} {v w : Value} (hv : p.Takes v)
    (hw : p.Takes w) (hp : p.type.isExact = true) (h : v.same w = true) : v = w := by
  rcases hv with hv | hv
  · exact Value.eq_of_same h (.inl (hv.isExact hp))
  · rcases hw with hw | hw
    · exact Value.eq_of_same h (.inr (hw.isExact hp))
    · rw [hv, hw]

theorem Parameter.constants_eq_of_same {ps : List Parameter} {vs ws : List Value}
    (hps : ∀ p ∈ ps, p.batched = false → p.type.isExact = true)
    (hvs : List.Forall₂ Takes ps vs) (hws : List.Forall₂ Takes ps ws)
    (h : allSame Value.same (constants ps vs) (constants ps ws) = true) :
    constants ps vs = constants ps ws := by
  induction hvs generalizing ws with
  | nil => rfl
  | @cons p v ps vs hv _ ih =>
    cases hws with
    | @cons _ w _ ws hw hws =>
      obtain ⟨hp, hps⟩ := List.forall_mem_cons.1 hps
      rw [constants, constants] at h ⊢
      by_cases hbatched : p.batched = true
      · rw [if_pos hbatched, if_pos hbatched] at h ⊢
        exact ih hps hws h
      · rw [if_neg hbatched, if_neg hbatched] at h ⊢
        obtain ⟨hsame, hrest⟩ := Bool.and_eq_true_iff.1 h
        have hexact := hp (Bool.eq_false_iff.2 hbatched)
        rw [hv.eq_of_same hw hexact hsame, ih hps hws hrest]

/-- Rows are told apart by a function that holds floats and free-form JSON in batched
parameters only. -/
theorem BoundFunction.tellsApart_of_exact {f : BoundFunction}
    (hf : ∀ s ∈ f.signatures, ∀ p ∈ s.parameters, p.batched = false → p.type.isExact = true)
    (row row' : List Value) : f.TellsApart row row' := by
  intro i s vs ws hvs hws hsame
  obtain ⟨hs, _, hpasses⟩ := passes_of_resolveRow hvs
  obtain ⟨_, _, hpasses'⟩ := passes_of_resolveRow hws
  exact Parameter.constants_eq_of_same (hf s (List.mem_of_getElem? hs)) hpasses.takes
    hpasses'.takes hsame

namespace Sample

/-- A callable that answers its last argument. -/
def lastArgument : Callable := .scalar 1 fun args => .ok (args.getLast?.getD .none)

/-- A declaration over batches of numbers and a step of a type. -/
def strideDescriptor (t : ColumnType) : FunctionDescriptor where
  name := "stride"
  module := none
  qualifiedName := "stride"
  params := [⟨"start", .known .int, none, true⟩, ⟨"step", .known t, none, false⟩]
  result := ⟨.known t, true⟩

/-- A function that answers the step that it is given, for up to four rows at once. -/
def stride (t : ColumnType) : BoundFunction where
  id := .ofNat 3
  name := "stride"
  path := none
  signatures := [⟨[⟨"start", .int, none, true⟩, ⟨"step", t, none, false⟩], t, true⟩]
  implementation := .callables [lastArgument]
  batchSize := some 4
  isMethod := false
  isProperty := false
  pool := none

theorem obtained_stride : (stride .float).Obtained := by
  have hbind : (Registry.bind SortedMap.empty (.ofNat 3) (strideDescriptor .float) lastArgument
      { batchSize := some 4 }).1.result = .ok (stride .float) := rfl
  exact .bound (fun _ _ h => by cases h) hbind

theorem rowWise_stride (t : ColumnType) : (stride t).RowWise := by
  intro i c h
  have hc : c = lastArgument := by
    cases i with
    | zero => exact (Except.ok.inj h).symm
    | succ i => cases h
  rw [hc]
  exact Callable.rowWise_scalar _ _

end Sample

/-- Two rows of one step and a row of another are executed in two chunks. -/
theorem Sample.batchedExecution_stride :
    (Sample.stride .int).batchSize = some 4 ∧ (Sample.stride .int).RowWise ∧
      [[.int 1, .int 5], [.int 2, .int 5], [.int 3, .int 6]].IsChain
        (Sample.stride .int).TellsApart ∧
      (∀ out, (Sample.stride .int).execBatch
          [[.int 1, .int 5], [.int 2, .int 5], [.int 3, .int 6]] = .ok out ↔
        List.Forall₂ (fun row v => (Sample.stride .int).exec row = .ok v)
          [[.int 1, .int 5], [.int 2, .int 5], [.int 3, .int 6]] out) ∧
      ∀ row ∈ [[.int 1, .int 5], [.int 2, .int 5], [.int 3, .int 6]],
        ∀ e, (Sample.stride .int).exec row = .error e →
          ∃ e', (Sample.stride .int).execBatch
            [[.int 1, .int 5], [.int 2, .int 5], [.int 3, .int 6]] = .error e' := by
  have hexact : ∀ s ∈ (Sample.stride .int).signatures, ∀ p ∈ s.parameters,
      p.batched = false → p.type.isExact = true := by decide +kernel
  have hapart := BoundFunction.tellsApart_of_exact hexact
  have hrows : [[.int 1, .int 5], [.int 2, .int 5], [.int 3, .int 6]].IsChain
      (Sample.stride .int).TellsApart :=
    .cons_cons (hapart _ _) (.cons_cons (hapart _ _) (.singleton _))
  exact ⟨rfl, Sample.rowWise_stride .int, hrows,
    BoundFunction.batchedExecution rfl (Sample.rowWise_stride .int) hrows⟩

/-- Of two rows with the steps `0.0` and `-0.0` the second is answered with the step of
the first, although the callable tells them apart. -/
theorem Sample.merged_zeros :
    (Sample.stride .float).Obtained ∧ (Sample.stride .float).batchSize = some 4 ∧
      (Sample.stride .float).RowWise ∧
      (Sample.stride .float).exec [.int 1, .float 0.0] = .ok (.float 0.0) ∧
      (Sample.stride .float).exec [.int 2, .float (-0.0)] = .ok (.float (-0.0)) ∧
      (Sample.stride .float).execBatch [[.int 1, .float 0.0], [.int 2, .float (-0.0)]] =
        .ok [.float 0.0, .float 0.0] ∧
      (Value.float 0.0) ≠ .float (-0.0) := by
  refine ⟨Sample.obtained_stride, rfl, Sample.rowWise_stride .float, rfl, rfl, rfl, ?_⟩
  intro h
  have hbits : (0.0 : Float).toBits = (-0.0 : Float).toBits :=
    congrArg Float.toBits (Value.float.inj h)
  exact absurd hbits (by decide)

end Cadastre
