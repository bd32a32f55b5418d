/-
# Stored functions are loaded as they were

A function without path is stored by value: its record holds its stored form, the
signatures with the templates or, for a callable, with the body of bytes beside them.
Storing writes such a record, and no operation writes another one under the
identifier, as long as the functions that are stored under it are copies of the one
function that it was made for. So at any later point of a run, refused and broken off
operations included, the record is there and can be read
(`Catalog.files_afterAttempts`). What is loaded is such a copy
(`BoundFunction.Copies.form_eq`).

What is loaded from it has one callable for all overloads, the one that the caller's
loader makes of the body. A function that was bound has one as well: with a substitute
or with type substitutions a function has a path. So if the loader makes a callable
that answers as the original, what is loaded copies the function that was stored, and
answers as it does (`Catalog.loadFunction_of_stored`).

Key definitions: `BoundFunction.IsBound`, `BoundFunction.Uniform`, `Record.Holds`,
`Store.Files`, `Action.KeepsForm`, `CallableLoader.Restores`.
Key theorems: `BoundFunction.IsBound.uniform`, `Catalog.files_afterAttempts`,
`Record.Holds.loads`, `Catalog.loadFunction_of_stored`.
-/
import Cadastre.Proofs.Attempt
import Cadastre.Proofs.BatchedExecution
import Cadastre.Proofs.SameAnswers
import Cadastre.Proofs.StoredFunctions

namespace Cadastre

/-! ### Functions that are bound -/

namespace BoundFunction

/-- The function is what a registry answers when a callable or a template is bound,
after any calls. -/
inductive IsBound (f : BoundFunction) : Prop
  | callable {calls : List Registry.Call} {id : FunctionId} {d : FunctionDescriptor}
      {c : Callable} {o : BindOptions}
      (h : ((Registry.new.after calls).bind id d c o).1.result = .ok f) : IsBound f
  | template {calls : List Registry.Call} {id : FunctionId} {d : FunctionDescriptor}
      {paramTypes : Option (List ColumnType)} {build : List Expr → Except Error Expr}
      (h : ((Registry.new.after calls).bindTemplate id d paramTypes build).1.result = .ok f) :
      IsBound f

/-- The function has one callable for all overloads; or a template for each, and no
batch size. -/
inductive Uniform (f : BoundFunction) : Prop
  | callable {c : Callable}
      (h : f.implementation = .callables (List.replicate f.signatures.length c)) : Uniform f
  | template {ts : List ExprTemplate} (h : f.implementation = .templates ts)
      (hbatchSize : f.batchSize = none) : Uniform f

end BoundFunction

/-- What a registry answers that is bound to no path was made for the call. -/
theorem Registry.eq_ok_of_registerResult {calls : List Call} {made : Except Error BoundFunction}
    {f : BoundFunction} (h : ((new.after calls).registerResult made).1.result = .ok f)
    (hpath : f.path = none) : made = .ok f := by
  cases made with
  | error e => cases h
  | ok g =>
    rcases eq_or_lookup_of_registerResult h with rfl | ⟨path, _, hlookup, _⟩
    · rfl
    · -- what is registered has the path that it is registered under
      rw [path_of_offer (lookup_after_new hlookup).2] at hpath
      cases hpath

namespace BoundFunction

variable {f g : BoundFunction} {id : FunctionId} {d : FunctionDescriptor}

theorem uniform_of_ofDescriptor {c : Callable} {o : BindOptions}
    (h : ofDescriptor id d c o = .ok f) : f.Uniform := by
  obtain ⟨ss, _, h⟩ := bind_eq_ok_iff.1 h
  obtain ⟨chosen, _, h⟩ := bind_eq_ok_iff.1 h
  cases h
  exact .callable rfl

theorem uniform_of_ofTemplate {paramTypes : Option (List ColumnType)}
    {build : List Expr → Except Error Expr} (h : ofTemplate id d paramTypes build = .ok f) :
    f.Uniform := by
  obtain ⟨_, _, h⟩ := bind_eq_ok_iff.1 h
  obtain ⟨_, h⟩ := guard_eq_ok_iff.1 h
  obtain ⟨_, _, h⟩ := bind_eq_ok_iff.1 h
  obtain ⟨_, h⟩ := guard_eq_ok_iff.1 h
  cases h
  exact .template rfl rfl

/-- A function without path that is bound is complete, and uniform. -/
theorem IsBound.uniform (h : f.IsBound) (hpath : f.path = none) : f.Complete ∧ f.Uniform := by
  cases h with
  | callable h =>
    have hmade := Registry.eq_ok_of_registerResult h hpath
    exact ⟨complete_of_ofDescriptor hmade, uniform_of_ofDescriptor hmade⟩
  | template h =>
    have hmade := Registry.eq_ok_of_registerResult h hpath
    exact ⟨complete_of_ofTemplate hmade, uniform_of_ofTemplate hmade⟩

/-! ### What is stored of them -/

/-- What copies a function is stored in the same form. -/
theorem Copies.form_eq (h : g.Copies f) : g.form = f.form := by
  have himplementation := h.implementation
  unfold form
  rw [h.name, h.signatures, h.batchSize]
  generalize g.implementation = x at himplementation
  generalize f.implementation = y at himplementation
  cases himplementation <;> rfl

end BoundFunction

/-- The record holds the stored form of the function, and a body if that needs one. -/
structure Record.Holds (r : Record) (f : BoundFunction) : Prop where
  content : ∃ name, Payload.decode (.function f.id) r.content = .ok (FunctionInfo.mk name f.form)
  body : f.form.kind = .callable → r.body.isSome = true

/-- The record under the identifier of the function holds it. -/
def Store.Files (s : Store) (f : BoundFunction) : Prop :=
  ∃ r, s.get? (.function f.id) = some r ∧ r.Holds f

/-- What the action stores under the identifier of the function, if anything, has the
stored form of the function. -/
def Action.KeepsForm (f : BoundFunction) (a : Action) : Prop :=
  ∀ now dir g, a = .perform now (.storeFunction dir g) → g.id = f.id → g.form = f.form

theorem Store.Files.write {s : Store} {f : BoundFunction} {ws : List (Key × Record)}
    (h : s.Files f) (hws : ∀ w ∈ ws, w.1 = .function f.id → w.2.Holds f) :
    Store.Files (s.write ws) f := by
  induction ws generalizing s with
  | nil => exact h
  | cons w ws ih =>
    rw [List.forall_mem_cons] at hws
    refine ih ?_ hws.2
    by_cases hkey : w.1 = .function f.id
    · refine ⟨w.2, ?_, hws.1 hkey⟩
      rw [SortedMap.get?_insert, if_pos hkey.symm]
    · obtain ⟨r, hr, hholds⟩ := h
      refine ⟨r, ?_, hholds⟩
      rw [SortedMap.get?_insert, if_neg (Ne.symm hkey), hr]

namespace Catalog

variable {c : Catalog} {f : BoundFunction}

/-- A plan that writes under the identifier of a function writes a record that holds
it, if what is stored has the form of the function. -/
theorem holds_of_mem_writes (hf : f.Storable) {now : Float} {op : Operation} {p : Plan Outcome}
    (hp : op.plan c now = .ok p) (hform : (Action.perform now op).KeepsForm f)
    {w : Key × Record} (hw : w ∈ p.writes) (hkey : w.1 = .function f.id) : w.2.Holds f := by
  obtain ⟨dir, g, rfl, hid⟩ := storeFunction_of_plan hp hw hkey
  obtain ⟨stored, r, hstored, hwrites, hcontent⟩ := writes_storeFunction hp
  rw [hwrites] at hw
  obtain rfl : w = (.function g.id, r) := List.mem_singleton.1 hw
  obtain rfl : stored = f.form :=
    (BoundFunction.form_of_toStored hstored).trans (hform now dir g rfl hid)
  obtain ⟨hfinite, hsound⟩ := hf.form
  refine ⟨⟨dir.map fun _ => g.name, ?_⟩, BoundFunction.isSome_body_of_toStored hstored⟩
  dsimp only
  rw [hcontent]
  exact FunctionInfo.decode_toJson hfinite hsound

/-- An attempt leaves a record that holds the function, however it ends. -/
theorem files_attempt (hf : f.Storable) (h : c.store.Files f) {a : Attempt}
    (ha : a.action.KeepsForm f) : (c.attempt a).store.Files f := by
  have htrial : (c.limited none).Trial a (c.attempt a) := (c.limited none).trial rfl a
  generalize c.attempt a = c' at htrial
  cases htrial with
  | still _ hstore =>
    rw [hstore]
    exact h
  | done haction hp =>
    rw [haction] at ha
    exact h.write fun w hw => holds_of_mem_writes hf hp ha hw
  | broken haction hp =>
    rw [haction] at ha
    exact h.write fun w hw => holds_of_mem_writes hf hp ha (List.mem_of_mem_take hw)

/-- So does a run of attempts. -/
theorem files_afterAttempts (hf : f.Storable) {as : List Attempt} (h : c.store.Files f)
    (has : ∀ a ∈ as, a.action.KeepsForm f) : (c.afterAttempts as).store.Files f := by
  induction as generalizing c with
  | nil => exact h
  | cons a as ih =>
    rw [List.forall_mem_cons] at has
    exact ih (files_attempt hf h has.1) has.2

/-- Storing a function answers its identifier. -/
theorem result_of_storeFunction {now : Float} {dir : Option DirId} {p : Plan Outcome}
    (h : (Operation.storeFunction dir f).plan c now = .ok p) : p.result = .function f.id := by
  obtain ⟨q, hq, rfl⟩ := map_eq_ok_iff.1 h
  cases dir <;>
  · obtain ⟨_, _, hq⟩ := bind_eq_ok_iff.1 hq
    obtain ⟨_, _, hq⟩ := bind_eq_ok_iff.1 hq
    cases hq
    rfl

/-- A function that was stored is held by the record under its identifier, which is
what is answered. -/
theorem files_of_perform (hf : f.Storable) {now : Float} {dir : Option DirId} {o : Outcome}
    (h : (c.perform now (.storeFunction dir f)).1.result = .ok o) :
    o = .function f.id ∧ (c.perform now (.storeFunction dir f)).2.store.Files f := by
  obtain ⟨p, hp, rfl, hstore⟩ := exists_plan_of_perform h
  obtain ⟨stored, r, _, hwrites, _⟩ := writes_storeFunction hp
  have hform : (Action.perform now (.storeFunction dir f)).KeepsForm f := by
    intro _ _ g heq _
    cases heq
    rfl
  have hholds : r.Holds f :=
    holds_of_mem_writes hf hp hform (by rw [hwrites]; exact List.mem_singleton_self _) rfl
  refine ⟨result_of_storeFunction hp, r, ?_, hholds⟩
  rw [hstore, hwrites, Store.write_cons, Store.write_nil, SortedMap.get?_insert, if_pos rfl]

end Catalog

/-! ### Loading -/

/-- The loader makes of the body a callable that answers as the function's own. -/
def CallableLoader.Restores (load : CallableLoader) (f : BoundFunction) (body : List UInt8) :
    Prop :=
  ∃ k, load body = .ok k ∧ ∀ cs, f.implementation = .callables cs → ∀ c ∈ cs, k.AnswersAs c

theorem forall₂_replicate_left {α β : Type} {R : α → β → Prop} {a : α} {bs : List β}
    (h : ∀ b ∈ bs, R a b) : List.Forall₂ R (List.replicate bs.length a) bs := by
  induction bs with
  | nil => exact .nil
  | cons b bs ih =>
    rw [List.forall_mem_cons] at h
    exact .cons h.1 (ih h.2)

namespace BoundFunction

variable {id : FunctionId} {stored : StoredFunction} {body : Option (List UInt8)}
  {load : CallableLoader}

theorem loadImplementation_template (hkind : stored.kind = .template)
    (hlength : stored.templates.length = stored.signatures.length) :
    loadImplementation id stored body load = .ok (.templates stored.templates) := by
  unfold loadImplementation
  rw [hkind]
  exact if_pos hlength

theorem loadImplementation_callable (hkind : stored.kind = .callable) {bytes : List UInt8}
    (hbody : body = some bytes) {k : Callable} (hk : load bytes = .ok k) :
    loadImplementation id stored body load =
      .ok (.callables (List.replicate stored.signatures.length k)) := by
  unfold loadImplementation
  rw [hkind, hbody]
  dsimp only
  rw [hk]
  rfl

end BoundFunction

/-- What is loaded from a record that holds a uniform function copies the function, if
the loader restores it from the record's body. -/
theorem Record.Holds.loads {r : Record} {f : BoundFunction} (hr : r.Holds f)
    (hpath : f.path = none) (hcomplete : f.Complete) (huniform : f.Uniform)
    {load : CallableLoader} (hload : ∀ body, r.body = some body → load.Restores f body) :
    ∃ g, BoundFunction.ofStored f.id f.form r.body load = .ok g ∧ g.Copies f := by
  have hnonempty : f.form.signatures.isEmpty = false := by
    rw [f.signatures_form]
    simpa using hcomplete.signatures
  unfold BoundFunction.ofStored
  rw [hnonempty, if_neg Bool.false_ne_true]
  cases huniform with
  | @template ts himplementation hbatchSize =>
    have hform : f.form = ⟨f.name, .template, f.signatures, none, ts⟩ := by
      rw [BoundFunction.form, himplementation]
    rw [hform, BoundFunction.loadImplementation_template rfl
      (hcomplete.templates ts himplementation)]
    refine ⟨_, rfl, rfl, rfl, hpath.symm, rfl, hbatchSize.symm, ?_⟩
    rw [himplementation]
    exact .templates
  | @callable c himplementation =>
    have hform : f.form = ⟨f.name, .callable, f.signatures, f.batchSize, []⟩ := by
      rw [BoundFunction.form, himplementation]
    obtain ⟨body, hbody⟩ := Option.isSome_iff_exists.1 (hr.body (by rw [hform]))
    obtain ⟨k, hk, hanswers⟩ := hload body hbody
    rw [hform, BoundFunction.loadImplementation_callable rfl hbody hk]
    refine ⟨_, rfl, rfl, rfl, hpath.symm, rfl, rfl, ?_⟩
    rw [himplementation]
    have hall := forall₂_replicate_left (hanswers _ himplementation)
    rw [List.length_replicate] at hall
    exact .callables hall

/-- A function without path that was bound and stored is loaded, at any later point of
a run, as a function that answers as it does, and that can be stored in its place: if
what is stored under its identifier in between has its form, and if the loader makes a
callable that answers as the original of the body that is then in the record. -/
theorem Catalog.loadFunction_of_stored {c : Catalog} {f : BoundFunction} (hbound : f.IsBound)
    (hpath : f.path = none) (hfinite : f.isFinite = true) {now : Float} {dir : Option DirId}
    {id : FunctionId}
    (hstored : (c.perform now (.storeFunction dir f)).1.result = .ok (.function id))
    {later : List Attempt} (hlater : ∀ a ∈ later, a.action.KeepsForm f) {c' : Catalog}
    (hc' : c' = (c.perform now (.storeFunction dir f)).2.afterAttempts later)
    {load : CallableLoader}
    (hload : ∀ r body, c'.store.get? (.function id) = some r → r.body = some body →
      load.Restores f body) :
    ∃ g, (c'.loadFunction id load).result = .ok g ∧ g.AnswersAs f ∧ g.form = f.form := by
  obtain ⟨hcomplete, huniform⟩ := hbound.uniform hpath
  have hstorable : f.Storable := ⟨hfinite, hcomplete.signatures, hcomplete.templates⟩
  obtain ⟨hid, hfiles⟩ := files_of_perform hstorable hstored
  cases hid
  obtain ⟨r, hr, hholds⟩ := files_afterAttempts hstorable hfiles hlater
  rw [← hc'] at hr
  obtain ⟨name, hdecode⟩ := hholds.content
  obtain ⟨g, hg, hcopies⟩ := hholds.loads hpath hcomplete huniform fun body => hload r body hr
  have hread := Store.read?_eq_ok_some_iff.2 ⟨hr, hdecode⟩
  refine ⟨g, ?_, hcopies.answersAs, hcopies.form_eq⟩
  rw [loadFunction, hread]
  exact hg

namespace Sample

/-- The callable of a stored function, with the body from which it is made again. -/
def keptArgument : Callable := lastArgument.withBody 4 [7]

/-- A function of batches of numbers that is stored by value. -/
def keptStride : BoundFunction := { stride .int with implementation := .callables [keptArgument] }

/-- A loader that knows one body. -/
def loadKept : CallableLoader := fun body =>
  if body = [7] then .ok lastArgument else .error .capacityOverflow

/-- A catalog with one directory. -/
def housed : Catalog := start.act (.perform 0 (.createDirectory home none "home"))

/-- A table is created but for its head, and the function is stored again, at first in
vain. -/
def keeping : List Attempt := [
  ⟨.perform 2 (.createTable people { dir := home, name := "people" }), some 2⟩,
  ⟨.perform 3 (.storeFunction none keptStride), some 0⟩,
  ⟨.perform 4 (.storeFunction none keptStride), none⟩]

/-- The catalog at the end. -/
def kept : Catalog :=
  (housed.perform 1 (.storeFunction (some home) keptStride)).2.afterAttempts keeping

theorem isBound_keptStride : keptStride.IsBound := by
  have hbind : ((Registry.new.after []).bind (.ofNat 3) (strideDescriptor .int) keptArgument
      { batchSize := some 4 }).1.result = .ok keptStride := rfl
  exact .callable hbind

theorem keepsForm_keeping : ∀ a ∈ keeping, a.action.KeepsForm keptStride := by
  intro a ha now dir g heq _
  rcases ha with _ | ⟨_, _ | ⟨_, _ | ⟨_, ha⟩⟩⟩
  · cases heq
  · cases heq
    rfl
  · cases heq
    rfl
  · cases ha

theorem restores_loadKept {body : List UInt8} (h : body = [7]) :
    loadKept.Restores keptStride body := by
  refine ⟨lastArgument, if_pos h, fun cs hcs c hc => ?_⟩
  cases hcs
  rw [List.mem_singleton.1 hc]
  exact ⟨fun _ => rfl, fun _ _ => rfl⟩

end Sample

/-- A function that was stored in a directory is loaded after it was stored again
without one. -/
theorem Sample.loadFunction_keptStride :
    Sample.keptStride.IsBound ∧ Sample.keptStride.path = none ∧
      Sample.keptStride.isFinite = true ∧
      (Sample.housed.perform 1 (.storeFunction (some Sample.home) Sample.keptStride)).1.result =
        .ok (.function (.ofNat 3)) ∧
      (∀ r body, Sample.kept.store.get? (.function (.ofNat 3)) = some r → r.body = some body →
        Sample.loadKept.Restores Sample.keptStride body) ∧
      ∃ g, (Sample.kept.loadFunction (.ofNat 3) Sample.loadKept).result = .ok g ∧
        g.AnswersAs Sample.keptStride ∧ g.form = Sample.keptStride.form := by
  have hstored : (Sample.housed.perform 1
      (.storeFunction (some Sample.home) Sample.keptStride)).1.result =
      .ok (.function (.ofNat 3)) := rfl
  have hbytes : (Sample.kept.store.get? (.function (.ofNat 3))).bind Record.body = some [7] := by
    decide +kernel
  have hload : ∀ r body, Sample.kept.store.get? (.function (.ofNat 3)) = some r →
      r.body = some body → Sample.loadKept.Restores Sample.keptStride body := by
    intro r body hr hbody
    rw [hr, Option.bind_some, hbody] at hbytes
    exact Sample.restores_loadKept (Option.some.inj hbytes)
  exact ⟨Sample.isBound_keptStride, rfl, rfl, hstored, hload,
    Catalog.loadFunction_of_stored Sample.isBound_keptStride rfl rfl hstored
      Sample.keepsForm_keeping rfl hload⟩

end Cadastre
