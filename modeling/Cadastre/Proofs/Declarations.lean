/-
# What a declaration becomes

The parameters of a signature are those of the declaration, in their order: each
keeps its name, its default and its batching, and gets a type that is valid; no two
have one name (`FunctionDescriptor.parameters_spec`).

Whether a function is batched is decided once for all of its overloads. A function
with a batch size has a batched result and a batched parameter in each overload, and
the size is positive; a function without has no batched parameter. The binding of a
plain declaration checks this, and only this, of its signature
(`Signature.checkBatching_eq_ok_iff`). Type substitutions exclude a batch size, but
the signatures that they give are not checked, so that a parameter that is declared
batched stays batched in all of them (`Registry.batching`, `Sample.unchecked_echo`).

Key definitions: `ParamSpec.Declares`, `Signature.HasBatchedParameter`,
`Signature.Batches`, `FunctionDescriptor.HasBatchedParameter`.
Key theorems: `FunctionDescriptor.parameters_spec`,
`Signature.checkBatching_eq_ok_iff`, `BindOptions.signatures_spec`,
`Registry.batching`.
-/
import Cadastre.Proofs.BatchedExecution
import Cadastre.Proofs.StoredFunctions
import Mathlib.Data.List.Forall2

namespace Cadastre

/-! ### Parameters -/

/-- A parameter is the declared one, with a type. -/
structure ParamSpec.Declares (q : ParamSpec) (p : Parameter) : Prop where
  name : p.name = q.name
  default : p.default = q.default
  batched : p.batched = q.batched
  typed : p.type.isInvalid = false

theorem ParamSpec.declares_of_resolve {q : ParamSpec} {function : String}
    {explicit : Option ColumnType} {σ : TypeSubstitution} {p : Parameter}
    (h : q.resolve function explicit σ = .ok p) : q.Declares p := by
  cases explicit <;>
  · obtain ⟨t, _, h⟩ := bind_eq_ok_iff.1 h
    obtain ⟨htyped, h⟩ := guard_eq_ok_iff.1 h
    cases h
    exact ⟨rfl, rfl, rfl, htyped⟩

/-- The parameters are the declared ones, and none has a name that is taken. -/
theorem resolveParams_spec {function : String} {σ : TypeSubstitution} {seen : List String}
    {specs : List (ParamSpec × Option ColumnType)} {ps : List Parameter}
    (h : resolveParams function σ seen specs = .ok ps) :
    List.Forall₂ (fun q p => q.1.Declares p) specs ps ∧ (∀ p ∈ ps, p.name ∉ seen) ∧
      (ps.map Parameter.name).Nodup := by
  induction specs generalizing seen ps with
  | nil =>
    cases h
    exact ⟨.nil, List.forall_mem_nil _, List.nodup_nil⟩
  | cons q specs ih =>
    obtain ⟨q, t⟩ := q
    rw [resolveParams, guard_eq_ok_iff] at h
    obtain ⟨hnew, h⟩ := h
    obtain ⟨p, hp, h⟩ := bind_eq_ok_iff.1 h
    obtain ⟨ps, hps, h⟩ := bind_eq_ok_iff.1 h
    cases h
    have hdeclares := ParamSpec.declares_of_resolve hp
    have hnotMem : p.name ∉ seen := by
      rw [hdeclares.name]
      simpa using hnew
    obtain ⟨hall, hseen, hnodup⟩ := ih hps
    refine ⟨.cons hdeclares hall, ?_, ?_⟩
    · rintro p' (_ | ⟨_, hp'⟩)
      · exact hnotMem
      · exact fun hmem => hseen p' hp' (List.mem_cons_of_mem _ hmem)
    · rw [List.map_cons, List.nodup_cons]
      refine ⟨fun hmem => ?_, hnodup⟩
      obtain ⟨p', hp', hname⟩ := List.mem_map.1 hmem
      exact hseen p' hp' (by rw [hname, hdeclares.name]; exact List.mem_cons_self)

namespace FunctionDescriptor

variable {d : FunctionDescriptor} {function : String} {explicit : Option (List ColumnType)}
  {σ : TypeSubstitution}

theorem parameters_spec {ps : List Parameter} (h : d.parameters function explicit σ = .ok ps) :
    List.Forall₂ ParamSpec.Declares d.params ps ∧ (ps.map Parameter.name).Nodup := by
  unfold parameters at h
  split at h
  · obtain ⟨hall, _, hnodup⟩ := resolveParams_spec h
    rw [List.forall₂_map_left_iff] at hall
    exact ⟨hall, hnodup⟩
  · rename_i types
    split at h
    · rename_i hlength
      obtain ⟨hall, _, hnodup⟩ := resolveParams_spec h
      refine ⟨?_, hnodup⟩
      -- the explicit types are as many as the declared parameters
      have hmap : (d.params.zip (types.map some)).map Prod.fst = d.params :=
        List.map_fst_zip (by rw [List.length_map, hlength])
      rw [← hmap]
      exact List.forall₂_map_left_iff.2 hall
    · cases h

theorem signature_spec {explicitReturn : Option ColumnType} {s : Signature}
    (h : d.signature function explicit explicitReturn σ = .ok s) :
    List.Forall₂ ParamSpec.Declares d.params s.parameters ∧
      (s.parameters.map Parameter.name).Nodup ∧ s.batched = d.result.batched := by
  obtain ⟨ps, hps, h⟩ := bind_eq_ok_iff.1 h
  obtain ⟨hall, hnodup⟩ := parameters_spec hps
  cases explicitReturn <;>
  · obtain ⟨t, _, h⟩ := bind_eq_ok_iff.1 h
    cases h
    exact ⟨hall, hnodup, rfl⟩

end FunctionDescriptor

/-! ### Batching -/

/-- A parameter of the signature is batched. -/
def Signature.HasBatchedParameter (s : Signature) : Prop := ∃ p ∈ s.parameters, p.batched = true

/-- A parameter is declared as batched. -/
def FunctionDescriptor.HasBatchedParameter (d : FunctionDescriptor) : Prop :=
  ∃ q ∈ d.params, q.batched = true

/-- The signature is one of a function with the batch size. -/
def Signature.Batches (s : Signature) : Option Nat → Prop
  | some n => 1 ≤ n ∧ s.batched = true ∧ s.HasBatchedParameter
  | none => ¬ s.HasBatchedParameter

theorem Signature.batchedParameters_eq_nil_iff {s : Signature} :
    s.batchedParameters = [] ↔ ¬ s.HasBatchedParameter := by
  simp [batchedParameters, HasBatchedParameter]

theorem Signature.checkBatching_eq_ok_iff {s : Signature} {function : String}
    {batchSize : Option Nat} :
    s.checkBatching function batchSize = .ok () ↔ s.Batches batchSize := by
  rcases batchSize with - | - | n
  · rw [Batches, ← batchedParameters_eq_nil_iff]
    unfold checkBatching
    cases s.batchedParameters <;> simp
  · simp [checkBatching, Batches]
  · have hsome : s.batchedParameters.isEmpty = false ↔ s.HasBatchedParameter := by
      rw [← not_iff_not, ← batchedParameters_eq_nil_iff]
      simp
    have hcheck : s.checkBatching function (some (n + 1)) =
        if (!s.batched) = true then .error (.function (.batchReturnNotBatched function))
        else if s.batchedParameters.isEmpty = true then
          .error (.function (.batchWithoutBatchedParameter function))
        else .ok () := rfl
    rw [hcheck, guard_eq_ok_iff, guard_eq_ok_iff, hsome, Batches]
    simp

theorem hasBatchedParameter_iff_of_declares {qs : List ParamSpec} {ps : List Parameter}
    (h : List.Forall₂ ParamSpec.Declares qs ps) :
    (∃ p ∈ ps, p.batched = true) ↔ ∃ q ∈ qs, q.batched = true := by
  induction h with
  | nil => simp
  | cons hdeclares _ ih =>
    simp only [List.mem_cons, exists_eq_or_imp]
    rw [hdeclares.batched, ih]

/-- A signature has a batched parameter if one is declared. -/
theorem FunctionDescriptor.hasBatchedParameter_iff_of_signature {d : FunctionDescriptor}
    {function : String} {explicit : Option (List ColumnType)}
    {explicitReturn : Option ColumnType} {σ : TypeSubstitution} {s : Signature}
    (h : d.signature function explicit explicitReturn σ = .ok s) :
    s.HasBatchedParameter ↔ d.HasBatchedParameter :=
  hasBatchedParameter_iff_of_declares (signature_spec h).1

namespace BindOptions

variable {o : BindOptions} {d : FunctionDescriptor} {ss : List Signature}

/-- Each substitution gives a signature of the declaration. -/
theorem exists_signature_of_substituted {l : List TypeSubstitution}
    (h : o.substitutedSignatures d l = .ok ss) {s : Signature} (hs : s ∈ ss) :
    ∃ σ ∈ l, d.signature (o.qualifiedName d) o.paramTypes o.returnType σ = .ok s := by
  induction l generalizing ss with
  | nil =>
    cases h
    cases hs
  | cons σ l ih =>
    obtain ⟨t, ht, h⟩ := bind_eq_ok_iff.1 h
    obtain ⟨rest, hrest, h⟩ := bind_eq_ok_iff.1 h
    cases h
    rcases List.mem_cons.1 hs with rfl | hs
    · exact ⟨σ, List.mem_cons_self, ht⟩
    · obtain ⟨σ', hσ', hs⟩ := ih hrest hs
      exact ⟨σ', List.mem_cons_of_mem _ hσ', hs⟩

theorem batchSize_of_checkSubstitutions {l : List TypeSubstitution}
    (h : o.checkSubstitutions d l = .ok ()) : o.batchSize = none := by
  unfold checkSubstitutions at h
  split at h
  · cases h
  · obtain ⟨hbatchSize, _⟩ := guard_eq_ok_iff.1 h
    exact Option.isSome_eq_false_iff.1 hbatchSize |> Option.isNone_iff_eq_none.1

/-- The signatures of a plain declaration are of a function with the batch size;
those of substitutions have the declared batching, and there is no batch size. -/
theorem signatures_spec (h : o.signatures d = .ok ss) :
    (o.typeSubstitutions = none ∧ ∀ s ∈ ss, s.Batches o.batchSize) ∨
      (o.typeSubstitutions.isSome = true ∧ o.batchSize = none ∧
        ∀ s ∈ ss, s.HasBatchedParameter ↔ d.HasBatchedParameter) := by
  unfold signatures at h
  split at h
  · rename_i hplain
    obtain ⟨s, _, h⟩ := bind_eq_ok_iff.1 h
    obtain ⟨_, hbatching, h⟩ := bind_eq_ok_iff.1 h
    obtain ⟨_, _, h⟩ := bind_eq_ok_iff.1 h
    cases h
    refine .inl ⟨hplain, fun t ht => ?_⟩
    rw [List.mem_singleton.1 ht]
    exact Signature.checkBatching_eq_ok_iff.1 hbatching
  · rename_i l hsubstitutions
    obtain ⟨_, hcheck, h⟩ := bind_eq_ok_iff.1 h
    refine .inr ⟨by rw [hsubstitutions]; rfl, batchSize_of_checkSubstitutions hcheck,
      fun s hs => ?_⟩
    obtain ⟨σ, _, hsignature⟩ := exists_signature_of_substituted h hs
    exact FunctionDescriptor.hasBatchedParameter_iff_of_signature hsignature

end BindOptions

/-- A function that a callable is bound to, and that was not there before, has a
batch size that is positive and a batched result and parameter in each overload; or
it has no batch size and no batched parameter, unless type substitutions are given
for a declaration with one. -/
theorem Registry.batching {r : Registry} {id : FunctionId} {d : FunctionDescriptor}
    {callable : Callable} {o : BindOptions} {f : BoundFunction}
    (h : (r.bind id d callable o).1.result = .ok f) (hnew : ∀ path, r.lookup path ≠ some f) :
    (∀ n, f.batchSize = some n →
      1 ≤ n ∧ ∀ s ∈ f.signatures, s.batched = true ∧ s.HasBatchedParameter) ∧
    (f.batchSize = none → ∀ s ∈ f.signatures,
      s.HasBatchedParameter ↔ o.typeSubstitutions.isSome = true ∧ d.HasBatchedParameter) := by
  have hmade : BoundFunction.ofDescriptor id d callable o = .ok f := by
    cases hmake : BoundFunction.ofDescriptor id d callable o with
    | error e =>
      rw [bind, hmake] at h
      cases h
    | ok g =>
      rw [bind, hmake] at h
      rcases eq_or_lookup_of_registerResult h with rfl | ⟨path, _, hlookup, _⟩
      · rfl
      · exact absurd hlookup (hnew path)
  obtain ⟨ss, hss, hmade⟩ := bind_eq_ok_iff.1 hmade
  obtain ⟨_, _, hmade⟩ := bind_eq_ok_iff.1 hmade
  have hnonempty := BindOptions.signatures_ne_nil hss
  cases hmade
  rcases BindOptions.signatures_spec hss with ⟨hplain, hall⟩ | ⟨hsubstitutions, hsize, hall⟩
  · refine ⟨fun n hn => ?_, fun hn s hs => ?_⟩
    · have hsize : o.batchSize = some n := hn
      rw [hsize] at hall
      obtain ⟨s, hs⟩ := List.exists_mem_of_ne_nil ss hnonempty
      exact ⟨(hall s hs).1, fun t ht => (hall t ht).2⟩
    · have hsize : o.batchSize = none := hn
      rw [hsize] at hall
      refine iff_of_false (hall s hs) fun h => ?_
      rw [hplain] at h
      cases h.1
  · refine ⟨fun n hn => ?_, fun _ s hs => ?_⟩
    · rw [hsize] at hn
      cases hn
    · rw [hall s hs, and_iff_right hsubstitutions]

/-- A function of batches of numbers that is bound has a batched result and a batched
parameter. -/
theorem Sample.batching_stride :
    (Registry.bind SortedMap.empty (.ofNat 3) (Sample.strideDescriptor .int) Sample.lastArgument
        { batchSize := some 4 }).1.result = .ok (Sample.stride .int) ∧
      (∀ path, Registry.lookup SortedMap.empty path ≠ some (Sample.stride .int)) ∧
      (∀ n, (Sample.stride .int).batchSize = some n → 1 ≤ n ∧
        ∀ s ∈ (Sample.stride .int).signatures, s.batched = true ∧ s.HasBatchedParameter) ∧
      ((Sample.stride .int).batchSize = none → ∀ s ∈ (Sample.stride .int).signatures,
        s.HasBatchedParameter ↔ (none : Option (List TypeSubstitution)).isSome = true ∧
          (Sample.strideDescriptor .int).HasBatchedParameter) := by
  have hbind : (Registry.bind SortedMap.empty (.ofNat 3) (Sample.strideDescriptor .int)
      Sample.lastArgument { batchSize := some 4 }).1.result = .ok (Sample.stride .int) := rfl
  have hnew : ∀ path, Registry.lookup SortedMap.empty path ≠ some (Sample.stride .int) :=
    fun _ h => by cases h
  exact ⟨hbind, hnew, Registry.batching hbind hnew⟩

namespace Sample

/-- A declaration of a batched parameter of any type. -/
def echoDescriptor : FunctionDescriptor where
  name := "echo"
  module := some "udfs"
  qualifiedName := "echo"
  params := [⟨"x", .var "T", none, true⟩]
  result := ⟨.var "T", false⟩

/-- The function of the declaration for numbers. -/
def echo : BoundFunction where
  id := .ofNat 5
  name := "echo"
  path := some "udfs.echo"
  signatures := [⟨[⟨"x", .int, none, true⟩], .int, false⟩]
  implementation := .callables [firstArgument]
  batchSize := none
  isMethod := false
  isProperty := false
  pool := none

end Sample

/-- With a type substitution a function is bound that has a batched parameter and no
batch size; the same signature, given outright, is refused. -/
theorem Sample.unchecked_echo :
    (Registry.bind SortedMap.empty (.ofNat 5) Sample.echoDescriptor Sample.firstArgument
        { typeSubstitutions := some [[("T", .int)]] }).1.result = .ok Sample.echo ∧
      (∀ path, Registry.lookup SortedMap.empty path ≠ some Sample.echo) ∧
      Sample.echo.batchSize = none ∧ (∃ s ∈ Sample.echo.signatures, s.HasBatchedParameter) ∧
      (Registry.bind SortedMap.empty (.ofNat 5) Sample.echoDescriptor Sample.firstArgument
        { paramTypes := some [.int], returnType := some .int }).1.result =
        .error (.function (.batchedParameterWithoutBatchSize "udfs.echo" "x")) :=
  ⟨rfl, fun _ h => (by cases h), rfl,
    ⟨_, List.mem_singleton_self _, _, List.mem_singleton_self _, rfl⟩, rfl⟩

end Cadastre
