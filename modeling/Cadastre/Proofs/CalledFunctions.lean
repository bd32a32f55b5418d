/-
# The functions that columns call

A column calls functions by path or by identifier. A path stays bound to its
function, and a function by identifier is what its record says: no operation
but the storing of a function writes such a record. So along a run the
functions that columns call keep their signatures, if none of those that are
stored is stored again with other ones (`Catalog.Keeps.signaturesOf_act`).

Storing a function, whose literals are numbers, with the signatures that it has
already is of that kind (`Catalog.keepsSignatures_of_storeFunction`).

Key definitions: `Store.Calls`, `Action.stored?`, `Catalog.KeepsSignatures`,
`Catalog.KeepsCalled`, `BoundFunction.Storable`, `BoundFunction.form`.
Key theorems: `storeFunction_of_plan`, `Catalog.Keeps.signaturesOf_act`,
`Catalog.keepsSignatures_of_storeFunction`.
-/
import Cadastre.Proofs.RoundTrip.Function
import Cadastre.Proofs.Run
import Cadastre.Proofs.Typing

namespace Cadastre

/-! ### Functions that are kept -/

/-- A column of a schema version that the store has calls a stored function. -/
def Store.Calls (s : Store) (id : FunctionId) : Prop :=
  ∃ t v k i column, s.schema t v = .ok k ∧ k.columns.get? i = some column ∧
    column.spec.Calls (.id id)

/-- The identifier under which an action stores a function. -/
def Action.stored? : Action → Option FunctionId
  | perform _ (.storeFunction _ f) => some f.id
  | _ => none

namespace Catalog

/-- An action leaves a stored function that columns call with its signatures. -/
def KeepsSignatures (c : Catalog) (a : Action) : Prop :=
  ∀ id, a.stored? = some id → c.store.Calls id → ∀ signatures,
    c.signaturesOf (.id id) = .ok signatures → (c.act a).signaturesOf (.id id) = .ok signatures

/-- No action of a run leaves a stored function that columns call with other
signatures. -/
def KeepsCalled (c : Catalog) : List Action → Prop
  | [] => True
  | a :: as => c.KeepsSignatures a ∧ (c.act a).KeepsCalled as

end Catalog

/-! ### Who writes functions -/

/-- A plan that writes the record of a function stores the function. -/
theorem storeFunction_of_plan {c : Catalog} {now : Float} {op : Operation} {p : Plan Outcome}
    (hp : op.plan c now = .ok p) {w : Key × Record} (hw : w ∈ p.writes) {id : FunctionId}
    (hkey : w.1 = .function id) : ∃ dir f, op = .storeFunction dir f ∧ f.id = id := by
  have hop := table?_eq_none_of_isForeign hp hw (by rw [hkey]; rfl)
  have heffect := foreignEffect_of_plan hop hp
  generalize p.writes = ws at heffect hw
  cases heffect with
  | nothing => cases hw
  | system =>
    rw [List.mem_singleton.1 hw] at hkey
    cases hkey
  | directory =>
    rw [List.mem_singleton.1 hw] at hkey
    cases hkey
  | @function dir f =>
    rw [List.mem_singleton.1 hw] at hkey
    cases hkey
    exact ⟨dir, f, rfl, rfl⟩

namespace Catalog

variable {c : Catalog} {σ : Ledgers}

/-- The signatures of a stored function are those of its record. -/
theorem signaturesOf_id_congr {c' : Catalog} {id : FunctionId}
    (h : c'.store.get? (.function id) = c.store.get? (.function id)) :
    c'.signaturesOf (.id id) = c.signaturesOf (.id id) := by
  unfold signaturesOf callSignatures Store.read?
  dsimp only
  rw [h]

/-- An action keeps the signatures of a function, if it does so in case that it
stores the function. -/
theorem Keeps.signaturesOf_act (hc : c.Keeps σ) {a : Action} {f : FunctionRef}
    {signatures : List Signature} (h : c.signaturesOf f = .ok signatures)
    (hstored : ∀ id, f = .id id → a.stored? = some id →
      (c.act a).signaturesOf (.id id) = .ok signatures) :
    (c.act a).signaturesOf f = .ok signatures := by
  cases a with
  | register g =>
    cases f with
    | id id => exact h
    | path path =>
      obtain ⟨⟨name, _⟩, hfound, rfl⟩ := map_eq_ok_iff.1 h
      obtain ⟨b, hb, hname⟩ := map_eq_ok_iff.1 hfound
      -- a path that is bound stays bound to its function
      have hlookup : c.registry.lookup path = some b := by
        unfold Registry.resolve at hb
        split at hb
        · cases hb
          assumption
        · cases hb
      have hkept : (c.registry.register g).2.lookup path = some b :=
        Registry.lookup_enter_of_lookup hlookup
      have hresolve : (c.act (.register g)).registry.resolve path = .ok b := by
        rw [Registry.resolve, Catalog.act, hkept]
      exact map_eq_ok_iff.2 ⟨_, map_eq_ok_iff.2 ⟨b, hresolve, rfl⟩, by rw [← hname]⟩
  | perform now op =>
    cases hp : op.plan c now with
    | error e =>
      rw [Catalog.act, perform_of_plan_error hp]
      exact h
    | ok p =>
      cases f with
      | path path =>
        rw [Catalog.act, perform_of_plan hc.unlimited hp]
        exact h
      | id id =>
        by_cases hwrites : ∃ w ∈ p.writes, w.1 = .function id
        · obtain ⟨w, hw, hkey⟩ := hwrites
          obtain ⟨dir, f, rfl, rfl⟩ := storeFunction_of_plan hp hw hkey
          exact hstored f.id rfl rfl
        · rw [Catalog.act, perform_of_plan hc.unlimited hp, ← h]
          refine signaturesOf_id_congr (Store.get?_write_of_notMem fun w hw hkey => ?_)
          exact hwrites ⟨w, hw, hkey⟩

/-- A run that does not store a function keeps its signatures. -/
theorem Keeps.signaturesOf_after (hc : c.Keeps σ) {as : List Action} (ha : c.Admits as)
    {f : FunctionRef} {signatures : List Signature} (h : c.signaturesOf f = .ok signatures)
    (hstored : ∀ a ∈ as, ∀ id, f = .id id → a.stored? ≠ some id) :
    (c.after as).signaturesOf f = .ok signatures := by
  induction as generalizing c σ with
  | nil => exact h
  | cons a as ih =>
    obtain ⟨σ', hc', _⟩ := hc.act ha.1
    have hact := hc.signaturesOf_act (a := a) h fun id hid hsome =>
      absurd hsome (hstored a List.mem_cons_self id hid)
    exact ih hc' ha.2 hact fun b hb => hstored b (List.mem_cons_of_mem a hb)

theorem keepsCalled_append {as bs : List Action} :
    c.KeepsCalled (as ++ bs) ↔ c.KeepsCalled as ∧ (c.after as).KeepsCalled bs := by
  induction as generalizing c with
  | nil => simp [KeepsCalled]
  | cons a as ih => rw [List.cons_append, KeepsCalled, ih, KeepsCalled, after_cons, and_assoc]

/-- A run that stores no function keeps the signatures of all. -/
theorem keepsCalled_of_stored {as : List Action} (h : ∀ a ∈ as, a.stored? = none) :
    c.KeepsCalled as := by
  induction as generalizing c with
  | nil => exact trivial
  | cons a as ih =>
    refine ⟨fun id hid => ?_, ih fun b hb => h b (List.mem_cons_of_mem a hb)⟩
    rw [h a List.mem_cons_self] at hid
    cases hid

end Catalog

/-! ### Storing a function again -/

/-- The literals of a function are numbers. -/
def BoundFunction.isFinite (f : BoundFunction) : Bool :=
  f.signatures.all Signature.isFinite &&
    match f.implementation with
    | .templates ts => ts.all ExprTemplate.isFinite
    | .callables _ => true

/-- A function as one is made: it has signatures, and a template has an
expression for each. And its literals are numbers. -/
structure BoundFunction.Storable (f : BoundFunction) : Prop where
  finite : f.isFinite = true
  signatures : f.signatures ≠ []
  templates : ∀ ts, f.implementation = .templates ts → ts.length = f.signatures.length

namespace BoundFunction

variable {f : BoundFunction}

/-- The stored form of the function; the body stands beside it. -/
def form (f : BoundFunction) : StoredFunction :=
  match f.implementation with
  | .templates ts => ⟨f.name, .template, f.signatures, none, ts⟩
  | .callables _ => ⟨f.name, .callable, f.signatures, f.batchSize, []⟩

theorem form_of_toStored {stored : StoredFunction} {body : Option (List UInt8)}
    (h : f.toStored = .ok (stored, body)) : stored = f.form := by
  unfold toStored at h
  unfold form
  cases himplementation : f.implementation with
  | templates ts =>
    rw [himplementation] at h
    cases h
    rfl
  | callables cs =>
    rw [himplementation] at h
    dsimp only at h
    split at h
    · cases h
      rfl
    · cases h

theorem signatures_form (f : BoundFunction) : f.form.signatures = f.signatures := by
  unfold form
  cases f.implementation <;> rfl

/-- The stored form of a function that can be stored is sound, and its literals are
numbers. -/
theorem Storable.form (hf : f.Storable) : f.form.isFinite = true ∧ f.form.Sound := by
  obtain ⟨hsignatures, hliterals⟩ := Bool.and_eq_true_iff.1 hf.finite
  unfold BoundFunction.form
  cases himplementation : f.implementation with
  | templates ts =>
    rw [himplementation] at hliterals
    have hlength := hf.templates ts himplementation
    exact ⟨Bool.and_eq_true_iff.2 ⟨hsignatures, hliterals⟩, hf.signatures, fun _ => hlength⟩
  | callables cs => exact ⟨Bool.and_eq_true_iff.2 ⟨hsignatures, rfl⟩, hf.signatures, nofun⟩

/-- What is stored of a function is sound and has its signatures. -/
theorem Storable.stored (hf : f.Storable) {stored : StoredFunction} {body : Option (List UInt8)}
    (h : f.toStored = .ok (stored, body)) :
    stored.signatures = f.signatures ∧ stored.isFinite = true ∧ stored.Sound := by
  rw [form_of_toStored h]
  exact ⟨f.signatures_form, hf.form⟩

end BoundFunction

/-- A function that was stored is called under its signatures. -/
theorem Catalog.signaturesOf_storeFunction {c : Catalog} (hc : c.writesLeft = none)
    {dir : Option DirId} {f : BoundFunction} (hf : f.Storable) {now : Float} {p : Plan Outcome}
    (hp : (Operation.storeFunction dir f).plan c now = .ok p) :
    (c.act (.perform now (.storeFunction dir f))).signaturesOf (.id f.id) = .ok f.signatures := by
  obtain ⟨stored, r, hstored, hwrites, hcontent⟩ := writes_storeFunction hp
  obtain ⟨hsignatures, hfinite, hsound⟩ := hf.stored hstored
  have hget : (c.store.write p.writes).get? (.function f.id) = some r := by
    rw [hwrites, Store.write_cons, Store.write_nil, SortedMap.get?_insert, if_pos rfl]
  have hdecode : (Payload.decode (.function f.id) r.content : Except Error FunctionInfo) =
      .ok ⟨dir.map fun _ => f.name, stored⟩ := by
    rw [hcontent]
    exact FunctionInfo.decode_toJson hfinite hsound
  rw [act, perform_of_plan hc hp]
  unfold signaturesOf callSignatures Store.read?
  simp only [hget, hdecode, Except.map, hsignatures]

/-- Storing a function again with the signatures that it has already keeps them. -/
theorem Catalog.keepsSignatures_of_storeFunction {c : Catalog} (hc : c.writesLeft = none)
    {dir : Option DirId} {f : BoundFunction} (hf : f.Storable) {now : Float}
    (hsame : ∀ signatures, c.signaturesOf (.id f.id) = .ok signatures →
      f.signatures = signatures) : c.KeepsSignatures (.perform now (.storeFunction dir f)) := by
  intro id hid _ signatures h
  cases hid
  cases hp : (Operation.storeFunction dir f).plan c now with
  | error e =>
    rw [act, perform_of_plan_error hp]
    exact h
  | ok p =>
    rw [signaturesOf_storeFunction hc hf hp, hsame signatures h]

end Cadastre
