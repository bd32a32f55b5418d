/-
# The types of a bound signature

A signature takes each of its types from one of three places: the binding gives it, or
the descriptor declares it, or the descriptor declares a variable and a substitution
says what that stands for (`FunctionDescriptor.Returns` says so of the result). The
invalid type, which stands for a type that is not known yet, may be in any of them.

A parameter is refused with the invalid type wherever that came from
(`FunctionDescriptor.parameters_spec`), and so is the body of a template. The result of a
callable is taken as it comes: it has the invalid type exactly if that is what the place
holds that its type is taken from (`Registry.concreteTypes`, `Sample.invalid_guess`). A
function that was bound before and is compatible has the same types.

Key definitions: `Signature.Concrete`, `FunctionDescriptor.Returns`.
Key theorems: `FunctionDescriptor.returns_iff_of_signature`,
`BindOptions.signatures_forall₂`, `Registry.concreteTypes`.
-/
import Cadastre.Proofs.Expansions

namespace Cadastre

/-- The parameters of the signature and its result have types that are known. -/
structure Signature.Concrete (s : Signature) : Prop where
  parameters : ∀ p ∈ s.parameters, p.type ≠ .invalid
  result : s.returnType ≠ .invalid

/-! ### Where the type of a result comes from -/

/-- The result has the type `t` if the first argument is the type that is given for it,
and `σ` what the variables stand for. -/
inductive FunctionDescriptor.Returns (d : FunctionDescriptor) (σ : TypeSubstitution) :
    Option ColumnType → ColumnType → Prop
  | given {t : ColumnType} : Returns d σ (some t) t
  | declared {t : ColumnType} (h : d.result.type = .known t) : Returns d σ none t
  | substituted {x : String} {t : ColumnType} (h : d.result.type = .var x)
      (hx : σ.lookup x = some t) : Returns d σ none t

theorem TypeSpec.resolve_eq_ok_iff {spec : TypeSpec} {function position : String}
    {σ : TypeSubstitution} {t : ColumnType} : spec.resolve function position σ = .ok t ↔
      spec = .known t ∨ ∃ x, spec = .var x ∧ σ.lookup x = some t := by
  cases spec with
  | known u => simp [resolve]
  | var x =>
    unfold resolve
    cases hx : σ.lookup x <;> simp [hx]
  | unspecified => simp [resolve]

theorem ColumnType.ne_invalid_of_isInvalid {t : ColumnType} (h : t.isInvalid = false) :
    t ≠ .invalid := by
  rintro rfl
  cases h

namespace FunctionDescriptor

variable {d : FunctionDescriptor} {function : String} {explicit : Option (List ColumnType)}
  {σ : TypeSubstitution} {given : Option ColumnType} {s : Signature}

/-- The return type of a signature is the type of the result. -/
theorem returns_iff_of_signature (h : d.signature function explicit given σ = .ok s)
    {t : ColumnType} : d.Returns σ given t ↔ s.returnType = t := by
  obtain ⟨ps, _, h⟩ := bind_eq_ok_iff.1 h
  cases given with
  | some u =>
    obtain ⟨_, hu, h⟩ := bind_eq_ok_iff.1 h
    cases hu
    cases h
    exact ⟨fun hreturns => by cases hreturns; rfl, fun heq => heq ▸ .given⟩
  | none =>
    obtain ⟨u, hu, h⟩ := bind_eq_ok_iff.1 h
    cases h
    -- the declaration resolves to one type
    have hresolve : d.Returns σ none t ↔ d.result.type.resolve function "return" σ = .ok t := by
      rw [TypeSpec.resolve_eq_ok_iff]
      constructor
      · rintro (_ | hknown | ⟨hvar, hx⟩)
        · exact .inl hknown
        · exact .inr ⟨_, hvar, hx⟩
      · rintro (hknown | ⟨x, hvar, hx⟩)
        · exact .declared hknown
        · exact .substituted hvar hx
    rw [hresolve, hu, Except.ok.injEq]

/-- No parameter has the invalid type. -/
theorem ne_invalid_of_declares {specs : List ParamSpec} {ps : List Parameter}
    (h : List.Forall₂ ParamSpec.Declares specs ps) : ∀ p ∈ ps, p.type ≠ .invalid := by
  induction h with
  | nil => exact List.forall_mem_nil _
  | cons hdeclares _ ih =>
    exact List.forall_mem_cons.2 ⟨ColumnType.ne_invalid_of_isInvalid hdeclares.typed, ih⟩

end FunctionDescriptor

/-! ### One signature per substitution -/

namespace BindOptions

variable {o : BindOptions} {d : FunctionDescriptor} {ss : List Signature}

/-- What the type variables stand for in each overload. A plain declaration has one
overload, and no variable stands for anything. -/
def substitutions (o : BindOptions) : List TypeSubstitution := o.typeSubstitutions.getD [[]]

/-- The signature that the overload of a substitution has. -/
def Resolves (o : BindOptions) (d : FunctionDescriptor) (σ : TypeSubstitution) (s : Signature) :
    Prop :=
  d.signature (o.qualifiedName d) o.paramTypes o.returnType σ = .ok s

theorem substitutedSignatures_forall₂ {l : List TypeSubstitution}
    (h : o.substitutedSignatures d l = .ok ss) : List.Forall₂ (o.Resolves d) l ss := by
  induction l generalizing ss with
  | nil =>
    cases h
    exact .nil
  | cons σ l ih =>
    obtain ⟨s, hs, h⟩ := bind_eq_ok_iff.1 h
    obtain ⟨rest, hrest, h⟩ := bind_eq_ok_iff.1 h
    cases h
    exact .cons hs (ih hrest)

/-- The signatures are those of the substitutions, in their order. -/
theorem signatures_forall₂ (h : o.signatures d = .ok ss) :
    List.Forall₂ (o.Resolves d) o.substitutions ss := by
  unfold signatures at h
  unfold substitutions
  split at h
  · rename_i hplain
    obtain ⟨s, hs, h⟩ := bind_eq_ok_iff.1 h
    obtain ⟨_, _, h⟩ := bind_eq_ok_iff.1 h
    obtain ⟨_, _, h⟩ := bind_eq_ok_iff.1 h
    cases h
    rw [hplain]
    exact .cons hs .nil
  · rename_i l hsubstitutions
    obtain ⟨_, _, h⟩ := bind_eq_ok_iff.1 h
    rw [hsubstitutions]
    exact substitutedSignatures_forall₂ h

end BindOptions

/-! ### The types of what is bound -/

/-- The signature's parameters have types that are known, and its result has unless it
is the invalid type that the result is given, declared or substituted. -/
structure BindOptions.Types (o : BindOptions) (d : FunctionDescriptor) (σ : TypeSubstitution)
    (s : Signature) : Prop where
  parameters : ∀ p ∈ s.parameters, p.type ≠ .invalid
  result : s.returnType = .invalid ↔ d.Returns σ o.returnType .invalid

theorem BindOptions.Resolves.types {o : BindOptions} {d : FunctionDescriptor}
    {σ : TypeSubstitution} {s : Signature} (h : o.Resolves d σ s) : o.Types d σ s where
  parameters := FunctionDescriptor.ne_invalid_of_declares (FunctionDescriptor.signature_spec h).1
  result := (FunctionDescriptor.returns_iff_of_signature h).symm

namespace Signature

variable {s t : Signature}

theorem ne_invalid_of_same {ps qs : List Parameter} (h : allSame Parameter.same ps qs = true)
    (hqs : ∀ q ∈ qs, q.type ≠ .invalid) : ∀ p ∈ ps, p.type ≠ .invalid := by
  rw [allSame_iff_forall₂] at h
  induction h with
  | nil => exact List.forall_mem_nil _
  | cons hpq _ ih =>
    rw [List.forall_mem_cons] at hqs
    obtain ⟨_, htype, _⟩ := Parameter.same_iff.1 hpq
    exact List.forall_mem_cons.2 ⟨htype ▸ hqs.1, ih hqs.2⟩

theorem Concrete.of_same (ht : t.Concrete) (h : s.same t = true) : s.Concrete := by
  obtain ⟨hparameters, hreturn, _⟩ := same_iff.1 h
  exact ⟨ne_invalid_of_same hparameters ht.parameters, hreturn ▸ ht.result⟩

theorem types_of_same {o : BindOptions} {d : FunctionDescriptor} {σ : TypeSubstitution}
    (ht : o.Types d σ t) (h : s.same t = true) : o.Types d σ s := by
  obtain ⟨hparameters, hreturn, _⟩ := same_iff.1 h
  exact ⟨ne_invalid_of_same hparameters ht.parameters, hreturn ▸ ht.result⟩

end Signature

/-- Overloads that are the same as typed ones are typed. -/
theorem BindOptions.forall₂_types_of_same {o : BindOptions} {d : FunctionDescriptor}
    {σs : List TypeSubstitution} {ss ts : List Signature}
    (hts : List.Forall₂ (o.Types d) σs ts) (h : allSame Signature.same ss ts = true) :
    List.Forall₂ (o.Types d) σs ss := by
  rw [allSame_iff_forall₂] at h
  induction hts generalizing ss with
  | nil =>
    cases h
    exact .nil
  | cons ht _ ih =>
    cases h with
    | cons hst hrest => exact .cons (Signature.types_of_same ht hst) (ih hrest)

namespace BoundFunction

variable {id : FunctionId} {d : FunctionDescriptor} {f : BoundFunction}

theorem types_of_ofDescriptor {callable : Callable} {o : BindOptions}
    (h : ofDescriptor id d callable o = .ok f) :
    List.Forall₂ (o.Types d) o.substitutions f.signatures := by
  obtain ⟨ss, hss, h⟩ := bind_eq_ok_iff.1 h
  obtain ⟨_, _, h⟩ := bind_eq_ok_iff.1 h
  cases h
  exact (BindOptions.signatures_forall₂ hss).imp fun _ _ hresolves => hresolves.types

theorem concrete_of_ofTemplate {paramTypes : Option (List ColumnType)}
    {build : List Expr → Except Error Expr} (h : ofTemplate id d paramTypes build = .ok f) :
    ∃ s, f.signatures = [s] ∧ s.Concrete := by
  obtain ⟨parameters, hparameters, h⟩ := bind_eq_ok_iff.1 h
  obtain ⟨_, h⟩ := guard_eq_ok_iff.1 h
  obtain ⟨body, _, h⟩ := bind_eq_ok_iff.1 h
  obtain ⟨htyped, h⟩ := guard_eq_ok_iff.1 h
  cases h
  obtain ⟨hdeclares, _⟩ := FunctionDescriptor.parameters_spec hparameters
  exact ⟨_, rfl, FunctionDescriptor.ne_invalid_of_declares hdeclares,
    ColumnType.ne_invalid_of_isInvalid htyped⟩

end BoundFunction

/-- A registered function that was made now or before is the one that was made, or is
compatible with it. -/
theorem Registry.exists_made_of_registerResult {r : Registry}
    {made : Except Error BoundFunction} {f : BoundFunction}
    (h : (r.registerResult made).1.result = .ok f) :
    ∃ g, made = .ok g ∧ (f = g ∨ f.isCompatibleWith g = true) := by
  cases made with
  | error e => cases h
  | ok g =>
    rcases eq_or_lookup_of_registerResult h with rfl | ⟨_, _, _, hcompatible⟩
    · exact ⟨f, rfl, .inl rfl⟩
    · exact ⟨g, rfl, .inr hcompatible⟩

/-- No signature of a template has the invalid type, and no parameter of a callable. The
result of an overload of a callable has it exactly if it is given, declared or
substituted for it. -/
theorem Registry.concreteTypes {r : Registry} {id : FunctionId} {d : FunctionDescriptor}
    {f : BoundFunction} :
    (∀ paramTypes build, (r.bindTemplate id d paramTypes build).1.result = .ok f →
      ∀ s ∈ f.signatures, s.Concrete) ∧
    ∀ callable o, (r.bind id d callable o).1.result = .ok f →
      List.Forall₂ (o.Types d) o.substitutions f.signatures := by
  refine ⟨fun paramTypes build h => ?_, fun callable o h => ?_⟩
  · obtain ⟨g, hmade, hfg⟩ := exists_made_of_registerResult h
    obtain ⟨s, hs, hconcrete⟩ := BoundFunction.concrete_of_ofTemplate hmade
    rcases hfg with rfl | hcompatible
    · rw [hs]
      exact fun t ht => List.mem_singleton.1 ht ▸ hconcrete
    · have hsignatures := (BoundFunction.isCompatibleWith_iff.1 hcompatible).2.1
      rw [hs, allSame_singleton_iff] at hsignatures
      obtain ⟨t, ht, hsame⟩ := hsignatures
      rw [ht]
      exact fun u hu => List.mem_singleton.1 hu ▸ hconcrete.of_same hsame
  · obtain ⟨g, hmade, hfg⟩ := exists_made_of_registerResult h
    have htypes := BoundFunction.types_of_ofDescriptor hmade
    rcases hfg with rfl | hcompatible
    · exact htypes
    · exact BindOptions.forall₂_types_of_same htypes
        (BoundFunction.isCompatibleWith_iff.1 hcompatible).2.1

namespace Sample

/-- A declaration of a function of numbers whose result is declared as given. -/
def guessDescriptor (t : TypeSpec) : FunctionDescriptor where
  name := "guess"
  module := some "udfs"
  qualifiedName := "guess"
  params := [⟨"x", .known .int, none, false⟩]
  result := ⟨t, false⟩

/-- A function of numbers whose result has the given type. -/
def guess (t : ColumnType) : BoundFunction where
  id := .ofNat 6
  name := "guess"
  path := some "udfs.guess"
  signatures := [⟨[⟨"x", .int, none, false⟩], t, false⟩]
  implementation := .callables [firstArgument]
  batchSize := none
  isMethod := false
  isProperty := false
  pool := none

end Sample

/-- The type that is given for the result stands in the signature, and not the declared
one. -/
theorem Sample.concreteTypes_guess :
    (Registry.bind SortedMap.empty (.ofNat 6) (Sample.guessDescriptor (.known .invalid))
        Sample.firstArgument { returnType := some .float }).1.result =
        .ok (Sample.guess .float) ∧
      List.Forall₂ (BindOptions.Types { returnType := some .float }
        (Sample.guessDescriptor (.known .invalid))) [[]] (Sample.guess .float).signatures ∧
      ∀ s ∈ (Sample.guess .float).signatures, s.Concrete := by
  have hbind : (Registry.bind SortedMap.empty (.ofNat 6) (Sample.guessDescriptor (.known .invalid))
      Sample.firstArgument { returnType := some .float }).1.result = .ok (Sample.guess .float) :=
    rfl
  have htypes := Registry.concreteTypes.2 _ _ hbind
  refine ⟨hbind, htypes, fun s hs => ?_⟩
  cases htypes with
  | cons htyped _ =>
    rw [List.mem_singleton.1 hs]
    refine ⟨htyped.parameters, fun hinvalid => ?_⟩
    cases htyped.result.1 hinvalid

/-- A result of the invalid type is bound, be it declared, given or substituted. A
parameter of that type is refused, and so is a template. -/
theorem Sample.invalid_guess :
    (Registry.bind SortedMap.empty (.ofNat 6) (Sample.guessDescriptor (.known .invalid))
        Sample.firstArgument {}).1.result = .ok (Sample.guess .invalid) ∧
      (Registry.bind SortedMap.empty (.ofNat 6) (Sample.guessDescriptor (.known .int))
        Sample.firstArgument { returnType := some .invalid }).1.result =
        .ok (Sample.guess .invalid) ∧
      (Registry.bind SortedMap.empty (.ofNat 6) (Sample.guessDescriptor (.var "T"))
        Sample.firstArgument { typeSubstitutions := some [[("T", .invalid)]] }).1.result =
        .ok (Sample.guess .invalid) ∧
      (∃ s ∈ (Sample.guess .invalid).signatures, ¬ s.Concrete) ∧
      (Registry.bind SortedMap.empty (.ofNat 6) (Sample.guessDescriptor (.known .int))
        Sample.firstArgument { paramTypes := some [.invalid] }).1.result =
        .error (.function (.invalidParameterType "udfs.guess" "x")) ∧
      (Registry.bindTemplate SortedMap.empty (.ofNat 6) (Sample.guessDescriptor (.known .int)) none
        fun _ => .ok (.literal .none)).1.result =
        .error (.function (.untypedTemplate "udfs.guess")) :=
  ⟨rfl, rfl, rfl, ⟨_, List.mem_singleton_self _, fun h => h.result rfl⟩, rfl, rfl⟩

end Cadastre
