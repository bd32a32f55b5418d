/-
# Functions that can be stored

A function comes from a declaration that is bound, or from a record that is loaded,
and the registry answers one that came so before. However it was obtained, it has
signatures, and an expression or a callable for each. So what is stored of it
passes the rule of its record, and a function that was stored is loaded again
unless the caller's own loader refuses the body.

Key definitions: `BoundFunction.Obtained`, `Store.FunctionsStored`.
Key theorems: `BoundFunction.Obtained.storable`, `Store.FunctionsStored.insert`,
`Catalog.exists_body_of_loadFunction`.
-/
import Cadastre.Proofs.CalledFunctions
import Cadastre.Proofs.Clean
import Cadastre.Proofs.RegistryRuns

namespace Cadastre

/-! ### Where functions come from -/

/-- A function is obtained by binding a callable or a template, over a registry of
functions that were obtained, or by loading it from a catalog. -/
inductive BoundFunction.Obtained : BoundFunction → Prop
  | bound {r : Registry} {id : FunctionId} {d : FunctionDescriptor} {callable : Callable}
      {o : BindOptions} {f : BoundFunction} (hr : ∀ path g, r.lookup path = some g → Obtained g)
      (h : (r.bind id d callable o).1.result = .ok f) : Obtained f
  | template {r : Registry} {id : FunctionId} {d : FunctionDescriptor}
      {paramTypes : Option (List ColumnType)} {build : List Expr → Except Error Expr}
      {f : BoundFunction} (hr : ∀ path g, r.lookup path = some g → Obtained g)
      (h : (r.bindTemplate id d paramTypes build).1.result = .ok f) : Obtained f
  | loaded {c : Catalog} {id : FunctionId} {load : CallableLoader} {f : BoundFunction}
      (h : (c.loadFunction id load).result = .ok f) : Obtained f

namespace BoundFunction

/-- A function has signatures, and an expression or a callable for each. -/
structure Complete (f : BoundFunction) : Prop where
  signatures : f.signatures ≠ []
  templates : ∀ ts, f.implementation = .templates ts → ts.length = f.signatures.length
  callables : ∀ cs, f.implementation = .callables cs → cs.length = f.signatures.length

/-- A callable function is complete if it has signatures, and its callable for each. -/
theorem complete_of_callables {f : BoundFunction} (hs : f.signatures ≠ []) {c : Callable}
    (h : f.implementation = .callables (List.replicate f.signatures.length c)) :
    f.Complete where
  signatures := hs
  templates ts hts := by
    rw [h] at hts
    cases hts
  callables cs hcs := by
    rw [h] at hcs
    cases hcs
    exact List.length_replicate

end BoundFunction

namespace BindOptions

variable {o : BindOptions} {d : FunctionDescriptor}

/-- There is a signature for each substitution. -/
theorem length_substitutedSignatures {l : List TypeSubstitution} {ss : List Signature}
    (h : o.substitutedSignatures d l = .ok ss) : ss.length = l.length := by
  induction l generalizing ss with
  | nil =>
    cases h
    rfl
  | cons σ l ih =>
    obtain ⟨s, _, h⟩ := bind_eq_ok_iff.1 h
    obtain ⟨rest, hrest, h⟩ := bind_eq_ok_iff.1 h
    cases h
    rw [List.length_cons, List.length_cons, ih hrest]

/-- There are substitutions, if they pass the check. -/
theorem ne_nil_of_checkSubstitutions {l : List TypeSubstitution}
    (h : o.checkSubstitutions d l = .ok ()) : l ≠ [] := by
  rintro rfl
  unfold checkSubstitutions at h
  split at h
  · cases h
  · split at h
    · cases h
    · split at h <;> cases h

/-- A declaration that is bound has signatures. -/
theorem signatures_ne_nil {ss : List Signature} (h : o.signatures d = .ok ss) : ss ≠ [] := by
  unfold signatures at h
  split at h
  · obtain ⟨s, _, h⟩ := bind_eq_ok_iff.1 h
    obtain ⟨_, _, h⟩ := bind_eq_ok_iff.1 h
    obtain ⟨_, _, h⟩ := bind_eq_ok_iff.1 h
    cases h
    exact List.cons_ne_nil _ _
  · obtain ⟨_, hcheck, h⟩ := bind_eq_ok_iff.1 h
    have hlength := length_substitutedSignatures h
    rintro rfl
    exact ne_nil_of_checkSubstitutions hcheck (List.length_eq_zero_iff.1 hlength.symm)

end BindOptions

namespace BoundFunction

variable {id : FunctionId} {d : FunctionDescriptor} {f : BoundFunction}

theorem complete_of_ofDescriptor {callable : Callable} {o : BindOptions}
    (h : ofDescriptor id d callable o = .ok f) : f.Complete := by
  obtain ⟨ss, hss, h⟩ := bind_eq_ok_iff.1 h
  obtain ⟨_, _, h⟩ := bind_eq_ok_iff.1 h
  cases h
  exact complete_of_callables (BindOptions.signatures_ne_nil hss) rfl

theorem complete_of_ofTemplate {paramTypes : Option (List ColumnType)}
    {build : List Expr → Except Error Expr} (h : ofTemplate id d paramTypes build = .ok f) :
    f.Complete := by
  obtain ⟨parameters, _, h⟩ := bind_eq_ok_iff.1 h
  obtain ⟨_, h⟩ := guard_eq_ok_iff.1 h
  obtain ⟨body, _, h⟩ := bind_eq_ok_iff.1 h
  obtain ⟨_, h⟩ := guard_eq_ok_iff.1 h
  cases h
  refine ⟨List.cons_ne_nil _ _, fun ts hts => ?_, nofun⟩
  cases hts
  rfl

theorem complete_of_ofStored {stored : StoredFunction} {body : Option (List UInt8)}
    {load : CallableLoader} (h : ofStored id stored body load = .ok f) : f.Complete := by
  obtain ⟨hsignatures, h⟩ := guard_eq_ok_iff.1 h
  obtain ⟨implementation, himplementation, rfl⟩ := map_eq_ok_iff.1 h
  have hsignatures : stored.signatures ≠ [] := by
    rintro hnil
    rw [hnil] at hsignatures
    cases hsignatures
  unfold loadImplementation at himplementation
  split at himplementation
  · split at himplementation
    · rename_i hlength
      cases himplementation
      refine ⟨hsignatures, fun ts hts => ?_, nofun⟩
      cases hts
      exact hlength
    · cases himplementation
  · cases himplementation
  · obtain ⟨c, _, rfl⟩ := map_eq_ok_iff.1 himplementation
    exact complete_of_callables hsignatures rfl

end BoundFunction

namespace Registry

variable {r : Registry} {f g : BoundFunction}

/-- Registering a function that was made answers the function itself, or a compatible
one that its path stands for. -/
theorem eq_or_lookup_of_registerResult (h : (r.registerResult (.ok f)).1.result = .ok g) :
    g = f ∨ ∃ path, f.path = some path ∧ r.lookup path = some g ∧
      g.isCompatibleWith f = true := by
  change (r.enter f fun _ => false).1.result = .ok g at h
  have hspec := r.enter_spec f fun _ => false
  generalize r.enter f (fun _ => false) = answer at h hspec
  cases hspec with
  | pathless =>
    cases h
    exact .inl rfl
  | invalid => cases h
  | bound =>
    cases h
    exact .inl rfl
  | again hpath _ hbound hsame =>
    cases h
    exact .inr ⟨_, hpath, hbound, hsame.resolve_left Bool.false_ne_true⟩
  | conflict => cases h

/-- What is registered if it could be made is complete, if it is and the functions
of the registry are. -/
theorem complete_of_registerResult {made : Except Error BoundFunction}
    (h : (r.registerResult made).1.result = .ok g) (hmade : ∀ f, made = .ok f → f.Complete)
    (hr : ∀ path g, r.lookup path = some g → g.Complete) : g.Complete := by
  cases made with
  | error e => cases h
  | ok f =>
    rcases eq_or_lookup_of_registerResult h with rfl | ⟨path, _, hlookup, _⟩
    · exact hmade g rfl
    · exact hr path g hlookup

end Registry

namespace BoundFunction

variable {f : BoundFunction}

/-- However a function was obtained, it is complete. -/
theorem Obtained.complete (h : f.Obtained) : f.Complete := by
  induction h with
  | bound _ h ih =>
    exact Registry.complete_of_registerResult h (fun _ => complete_of_ofDescriptor) ih
  | template _ h ih =>
    exact Registry.complete_of_registerResult h (fun _ => complete_of_ofTemplate) ih
  | @loaded c id load f h =>
    unfold Catalog.loadFunction at h
    split at h
    · cases h
    · cases h
    · exact complete_of_ofStored h

/-- A function that was obtained can be stored, if its literals are numbers. -/
theorem Obtained.storable (h : f.Obtained) (hf : f.isFinite = true) : f.Storable :=
  ⟨hf, h.complete.signatures, h.complete.templates⟩

/-- What is stored of a callable function has a body. -/
theorem isSome_body_of_toStored {stored : StoredFunction} {body : Option (List UInt8)}
    (h : f.toStored = .ok (stored, body)) (hkind : stored.kind = .callable) :
    body.isSome = true := by
  unfold toStored at h
  split at h
  · cases h
    cases hkind
  · split at h
    · cases h
      rfl
    · cases h

/-- The record of a sound function is refused only if the loader refuses the body. -/
theorem exists_body_of_ofStored {id : FunctionId} {stored : StoredFunction} (hs : stored.Sound)
    {body : Option (List UInt8)} (hbody : stored.kind = .callable → body.isSome = true)
    {load : CallableLoader} {e : Error} (h : ofStored id stored body load = .error e) :
    ∃ body, load body = .error e := by
  have hsignatures : stored.signatures.isEmpty = false := by
    simpa using hs.signatures
  rw [ofStored, hsignatures, if_neg Bool.false_ne_true] at h
  have himplementation : loadImplementation id stored body load = .error e := by
    cases hload : loadImplementation id stored body load with
    | error e' =>
      rw [hload] at h
      cases h
      rfl
    | ok i =>
      rw [hload] at h
      cases h
  unfold loadImplementation at himplementation
  split at himplementation
  · rename_i hkind
    rw [if_pos (hs.templates hkind)] at himplementation
    cases himplementation
  · rename_i hkind
    cases hbody hkind
  · rename_i bytes _
    cases hload : load bytes with
    | error e' =>
      rw [hload] at himplementation
      cases himplementation
      exact ⟨bytes, hload⟩
    | ok callable =>
      rw [hload] at himplementation
      cases himplementation

end BoundFunction

/-! ### Records of functions -/

namespace Store

variable {s s' : Store} {id : FunctionId}

/-- The records of functions can be read, and callables have bodies. -/
def FunctionsStored (s : Store) : Prop := ∀ id r, s.get? (.function id) = some r →
  ∃ i : FunctionInfo, Payload.decode (.function id) r.content = .ok i ∧
    (i.function.kind = .callable → r.body.isSome = true)

theorem FunctionsStored.congr (hs : s.FunctionsStored)
    (h : ∀ id, s'.get? (.function id) = s.get? (.function id)) : s'.FunctionsStored :=
  fun id r hr => hs id r ((h id).symm.trans hr)

/-- A function that can be stored is stored readably, and the others stay so. -/
theorem FunctionsStored.insert (hs : s.FunctionsStored) {f : BoundFunction} (hf : f.Storable)
    {stored : StoredFunction} {r : Record} (hstored : f.toStored = .ok (stored, r.body))
    {name : Option String} (hr : r.content = FunctionInfo.toJson ⟨name, stored⟩) :
    FunctionsStored (SortedMap.insert s (.function f.id) r) := by
  intro id r' hr'
  rw [SortedMap.get?_insert] at hr'
  split at hr'
  · cases hr'
    obtain ⟨_, hfinite, hsound⟩ := hf.stored hstored
    refine ⟨⟨name, stored⟩, ?_, BoundFunction.isSome_body_of_toStored hstored⟩
    rw [hr]
    exact FunctionInfo.decode_toJson hfinite hsound
  · exact hs id r' hr'

theorem read?_eq_ok_some_iff {α : Type} [Payload α] {key : Key} {r : Record} {a : α} :
    s.read? α key = .ok (some (r, a)) ↔
      s.get? key = some r ∧ Payload.decode key r.content = .ok a := by
  unfold read?
  cases s.get? key with
  | none => simp
  | some r' =>
    rw [map_eq_ok_iff, Option.some.injEq]
    constructor
    · rintro ⟨a', ha, heq⟩
      cases heq
      exact ⟨rfl, ha⟩
    · rintro ⟨rfl, ha⟩
      exact ⟨a, ha, rfl⟩

/-- A stored function is read, or there is none. -/
theorem FunctionsStored.clean_read? (hs : s.FunctionsStored) (id : FunctionId) :
    Clean (s.read? FunctionInfo (.function id)) := by
  cases hr : s.get? (.function id) with
  | none =>
    unfold read?
    rw [hr]
    exact clean_ok _
  | some r =>
    obtain ⟨i, hi, _⟩ := hs id r hr
    unfold read?
    rw [hr]
    exact (clean_of_eq_ok hi).map _

end Store

namespace Catalog

variable {c : Catalog}

/-- The functions that columns call are found with their signatures, or not at all. -/
theorem clean_callSignatures (hs : c.store.FunctionsStored) (f : FunctionRef) :
    Clean (c.callSignatures f) := by
  cases f with
  | path path => exact (c.registry.clean_resolve path).map _
  | id id =>
    unfold callSignatures
    dsimp only
    cases hread : c.store.read? FunctionInfo (.function id) with
    | error e => exact clean_error (hs.clean_read? id e hread)
    | ok found =>
      rcases found with _ | ⟨r, i⟩
      · exact clean_error rfl
      · exact clean_ok _

/-- If a stored function is refused as corrupt, it is the caller's loader that says
so of the body. -/
theorem exists_body_of_loadFunction (hs : c.store.FunctionsStored) {id : FunctionId}
    {load : CallableLoader} {e : Error} (h : (c.loadFunction id load).result = .error e)
    (he : e.blamesRecord = true) : ∃ body, load body = .error e := by
  unfold loadFunction at h
  split at h
  · rename_i e' hread
    cases h
    rw [hs.clean_read? id e hread] at he
    cases he
  · cases h
    cases he
  · rename_i r i hread
    obtain ⟨hr, hi⟩ := Store.read?_eq_ok_some_iff.1 hread
    obtain ⟨i', hi', hbody⟩ := hs id r hr
    obtain rfl : i = i' := Except.ok.inj (hi.symm.trans hi')
    have hsound := FunctionInfo.flaw?_eq_none_iff.1 (Store.flaw?_of_decode hi)
    exact BoundFunction.exists_body_of_ofStored hsound hbody h

end Catalog
end Cadastre
