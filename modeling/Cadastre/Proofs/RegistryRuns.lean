/-
# Runs of a registry

Functions are registered, bound and bound as templates in any order. Whatever calls
are made of a registry that was new, a path that is bound stays bound to its function,
which is the first that was presented for the path (`Registry.lookup_after`); the
bound paths are lists of identifiers with dots between them, and each is the path of
its function; a function that is presented for a bound path is answered with the
first one if it is that one, the same instance in memory, or the two are compatible,
and refused otherwise; a call that fails changes nothing; and what the calls for one
path answer does not depend on the calls for other paths in between
(`Registry.Orderly`).

Which of several compatible functions came first decides which one stands for the
path, but not what is accepted under it, for compatibility is an equivalence of
functions without NaN (`Registry.registryRuns`). Such a function is compatible with
itself, so that the question whether it is the very function that is bound decides
nothing. With a NaN among its defaults it does: the bound function is accepted when it
is presented again, and its copy is not.

Key definitions: `SymbolPath.IsPath`, `Registry.Enters`, `Registry.Call`,
`Registry.transcript`, `Registry.Orderly`.
Key theorems: `SymbolPath.isValid_iff`, `Registry.enter_spec`,
`Registry.lookup_after`, `Registry.transcript_filter`, `Registry.registryRuns`.
-/
import Cadastre.Proofs.Sameness
import Cadastre.Proofs.Typing

namespace Cadastre

/-! ### Symbol paths -/

namespace SymbolPath

/-- The text is a list of identifiers, one at least, with dots between them. -/
def IsPath (path : String) : Prop := ∃ names : List (List Char), names ≠ [] ∧
  (∀ name ∈ names, isIdentifierChars name = true) ∧ path.toList = ['.'].intercalate names

theorem parts_eq_splitOn (cs : List Char) : parts cs = cs.splitOn '.' := by
  induction cs with
  | nil => rfl
  | cons c cs ih =>
    rw [parts, List.splitOn_cons_eq_if_modifyHead, ih]
    by_cases hdot : c = '.'
    · rw [if_pos hdot, if_pos (beq_iff_eq.2 hdot)]
    · rw [if_neg hdot, if_neg (mt beq_iff_eq.1 hdot)]
      cases hsplit : cs.splitOn '.' with
      | nil => exact absurd hsplit (List.splitOn_ne_nil '.' cs)
      | cons p ps => rfl

theorem dot_notMem {name : List Char} (h : isIdentifierChars name = true) : '.' ∉ name := by
  cases name with
  | nil => exact List.not_mem_nil
  | cons c cs =>
    obtain ⟨hstart, hcontinue⟩ := Bool.and_eq_true_iff.1 h
    have hdot : startsName '.' = false ∧ continuesName '.' = false := by decide +kernel
    intro hmem
    rcases List.mem_cons.1 hmem with rfl | hmem
    · rw [hdot.1] at hstart
      cases hstart
    · have hname := List.all_eq_true.1 hcontinue _ hmem
      rw [hdot.2] at hname
      cases hname

/-- The check of a symbol path decides whether it is one. -/
theorem isValid_iff {path : String} : isValid path = true ↔ IsPath path := by
  unfold isValid
  rw [parts_eq_splitOn, List.all_eq_true]
  constructor
  · intro h
    exact ⟨_, List.splitOn_ne_nil '.' _, h, (List.intercalate_splitOn '.').symm⟩
  · rintro ⟨names, hne, hnames, hpath⟩
    rw [hpath, List.splitOn_intercalate '.' (fun name hname => dot_notMem (hnames name hname)) hne]
    exact hnames

theorem check_eq_ok {path : String} (h : isValid path = true) : check path = .ok () := if_pos h

theorem check_eq_error {path : String} (h : isValid path = false) :
    check path = .error (.function (.invalidSymbolPath path)) := by
  rw [check, h, if_neg Bool.false_ne_true]

end SymbolPath

/-! ### One call -/

namespace Registry

variable {r r' : Registry} {f g : BoundFunction} {path : String}

/-- What entering a function answers and what it leaves behind. -/
inductive Enters (r : Registry) (f : BoundFunction) (sameInstance : BoundFunction → Bool) :
    Reported BoundFunction × Registry → Prop
  | pathless (hpath : f.path = none) : Enters r f sameInstance (⟨.ok f, []⟩, r)
  | invalid {path : String} (hpath : f.path = some path)
      (hinvalid : SymbolPath.isValid path = false) :
      Enters r f sameInstance (⟨.error (.function (.invalidSymbolPath path)), []⟩, r)
  | bound {path : String} (hpath : f.path = some path) (hvalid : SymbolPath.isValid path = true)
      (hfree : r.lookup path = none) :
      Enters r f sameInstance
        (⟨.ok f, [.debug ("registered function " ++ path)]⟩, r.insert path f)
  | again {path : String} {g : BoundFunction} (hpath : f.path = some path)
      (hvalid : SymbolPath.isValid path = true) (hbound : r.lookup path = some g)
      (hsame : sameInstance g = true ∨ g.isCompatibleWith f = true) :
      Enters r f sameInstance
        (⟨.ok g, [.debug ("function " ++ path ++ " already registered")]⟩, r)
  | conflict {path : String} {g : BoundFunction} (hpath : f.path = some path)
      (hvalid : SymbolPath.isValid path = true) (hbound : r.lookup path = some g)
      (hother : sameInstance g = false) (hcompatible : g.isCompatibleWith f = false) :
      Enters r f sameInstance (⟨.error (.function (.registryConflict path)),
        [.warn ("conflicting registration for function " ++ path)]⟩, r)

theorem enter_spec (r : Registry) (f : BoundFunction) (sameInstance : BoundFunction → Bool) :
    r.Enters f sameInstance (r.enter f sameInstance) := by
  unfold enter
  cases hpath : f.path with
  | none => exact .pathless hpath
  | some path =>
    dsimp only
    cases hvalid : SymbolPath.isValid path with
    | false =>
      rw [SymbolPath.check_eq_error hvalid]
      exact .invalid hpath hvalid
    | true =>
      rw [SymbolPath.check_eq_ok hvalid]
      dsimp only
      cases hlookup : r.lookup path with
      | none => exact .bound hpath hvalid hlookup
      | some g =>
        dsimp only
        split
        · rename_i hsame
          exact .again hpath hvalid hlookup (Bool.or_eq_true_iff.1 hsame)
        · rename_i hsame
          obtain ⟨hother, hcompatible⟩ := Bool.or_eq_false_iff.1 (Bool.eq_false_iff.2 hsame)
          exact .conflict hpath hvalid hlookup hother hcompatible

/-- A call that is made of a registry. -/
inductive Call where
  | register (f : BoundFunction)
  | bind (id : FunctionId) (d : FunctionDescriptor) (c : Callable) (o : BindOptions)
  | bindTemplate (id : FunctionId) (d : FunctionDescriptor)
      (paramTypes : Option (List ColumnType)) (build : List Expr → Except Error Expr)

namespace Call

/-- The function that the call presents, if it can be made. -/
def function : Call → Except Error BoundFunction
  | register f => .ok f
  | bind id d c o => BoundFunction.ofDescriptor id d c o
  | bindTemplate id d paramTypes build => BoundFunction.ofTemplate id d paramTypes build

/-- The path that the call is for. -/
def path? : Call → Option String
  | register f => f.path
  | bind _ d _ o => o.path? d
  | bindTemplate _ d _ _ => d.symbolPath?

/-- Whether a function is the instance that the call presents. What is bound is a new
instance. -/
def sameInstance : Call → BoundFunction → Bool
  | register f => fun g => g.sameInstance f
  | _ => fun _ => false

/-- The function that the call presents for a path. -/
def offer? (path : String) (k : Call) : Option BoundFunction :=
  match k.function with
  | .ok f => if f.path = some path then some f else none
  | .error _ => none

end Call

/-- Makes a call. -/
def act (r : Registry) : Call → Reported BoundFunction × Registry
  | .register f => r.register f
  | .bind id d c o => r.bind id d c o
  | .bindTemplate id d paramTypes build => r.bindTemplate id d paramTypes build

variable {k : Call}

/-- A function is made for the path that the call is for. -/
theorem Call.path_eq (h : k.function = .ok f) : f.path = k.path? := by
  cases k with
  | register g =>
    cases h
    rfl
  | bind id d c o =>
    obtain ⟨_, _, h⟩ := bind_eq_ok_iff.1 h
    obtain ⟨_, _, h⟩ := bind_eq_ok_iff.1 h
    cases h
    rfl
  | bindTemplate id d paramTypes build =>
    obtain ⟨_, _, h⟩ := bind_eq_ok_iff.1 h
    obtain ⟨_, h⟩ := guard_eq_ok_iff.1 h
    obtain ⟨_, _, h⟩ := bind_eq_ok_iff.1 h
    obtain ⟨_, h⟩ := guard_eq_ok_iff.1 h
    cases h
    rfl

theorem act_of_ok (h : k.function = .ok f) : r.act k = r.enter f k.sameInstance := by
  cases k with
  | register g =>
    cases h
    rfl
  | bind id d c o => exact congrArg r.registerResult h
  | bindTemplate id d paramTypes build => exact congrArg r.registerResult h

theorem act_of_error {e : Error} (h : k.function = .error e) : r.act k = (⟨.error e, []⟩, r) := by
  cases k with
  | register g => cases h
  | bind id d c o => exact congrArg r.registerResult h
  | bindTemplate id d paramTypes build => exact congrArg r.registerResult h

/-- A call that fails leaves the registry as it is. -/
theorem act_of_failure {e : Error} (h : (r.act k).1.result = .error e) : (r.act k).2 = r := by
  cases hk : k.function with
  | error e => rw [act_of_error hk]
  | ok f =>
    rw [act_of_ok hk] at h ⊢
    exact enter_of_error h

/-- A path is bound by the first function that is presented for it, if it is valid. -/
theorem lookup_act (r : Registry) (k : Call) (path : String) : (r.act k).2.lookup path =
    (r.lookup path).or (if SymbolPath.isValid path then k.offer? path else none) := by
  cases hk : k.function with
  | error e =>
    rw [act_of_error hk, Call.offer?, hk]
    simp
  | ok f =>
    have hoffer : k.offer? path = if f.path = some path then some f else none := by
      rw [Call.offer?, hk]
    rw [act_of_ok hk, hoffer]
    have hspec := enter_spec r f k.sameInstance
    generalize r.enter f k.sameInstance = answer at hspec
    cases hspec with
    | pathless hpath => simp [hpath]
    | @invalid p hpath hinvalid =>
      by_cases hp : p = path
      · subst hp
        simp [hinvalid]
      · simp [hpath, hp]
    | @bound p hpath hvalid hfree =>
      have hinsert : lookup (r.insert p f) path = if path = p then some f else r.lookup path :=
        SortedMap.get?_insert r p path f
      rw [hinsert]
      by_cases hp : path = p
      · subst hp
        simp [hpath, hvalid, hfree]
      · simp [hpath, hp, Ne.symm hp]
    | @again p g hpath hvalid hbound _ =>
      by_cases hp : p = path
      · subst hp
        simp [hbound]
      · simp [hpath, hp]
    | @conflict p g hpath hvalid hbound _ _ =>
      by_cases hp : p = path
      · subst hp
        simp [hbound]
      · simp [hpath, hp]

/-- What a call answers depends on what its own path is bound to. -/
theorem act_congr (hk : k.path? = some path) (h : r.lookup path = r'.lookup path) :
    (r.act k).1 = (r'.act k).1 := by
  cases hf : k.function with
  | error e => rw [act_of_error hf, act_of_error hf]
  | ok f =>
    have hpath : f.path = some path := (Call.path_eq hf).trans hk
    rw [act_of_ok hf, act_of_ok hf]
    unfold enter
    rw [hpath]
    dsimp only
    cases SymbolPath.check path with
    | error e => rfl
    | ok _ =>
      dsimp only
      rw [← h]
      cases r.lookup path with
      | none => rfl
      | some g =>
        dsimp only
        split <;> rfl

/-- A call for another path does not touch a path. -/
theorem lookup_act_of_ne (hk : k.path? ≠ some path) :
    (r.act k).2.lookup path = r.lookup path := by
  have hoffer : k.offer? path = none := by
    unfold Call.offer?
    cases hf : k.function with
    | error e => rfl
    | ok f => exact if_neg fun hpath => hk ((Call.path_eq hf).symm.trans hpath)
  rw [lookup_act, hoffer]
  simp

/-! ### Runs -/

/-- The registry after calls. -/
def after (r : Registry) : List Call → Registry
  | [] => r
  | k :: ks => after (r.act k).2 ks

/-- The calls with what each of them answers and reports. -/
def transcript (r : Registry) : List Call → List (Call × Reported BoundFunction)
  | [] => []
  | k :: ks => (k, (r.act k).1) :: transcript (r.act k).2 ks

theorem after_append (r : Registry) (ks ls : List Call) :
    r.after (ks ++ ls) = (r.after ks).after ls := by
  induction ks generalizing r with
  | nil => rfl
  | cons k ks ih => exact ih _

/-- A path is bound to the first function that was presented for it. -/
theorem lookup_after (r : Registry) (ks : List Call) (path : String) : (r.after ks).lookup path =
    (r.lookup path).or
      (if SymbolPath.isValid path then ks.findSome? (Call.offer? path) else none) := by
  induction ks generalizing r with
  | nil => simp [after]
  | cons k ks ih =>
    rw [after, ih, lookup_act, Option.or_assoc, List.findSome?_cons]
    cases SymbolPath.isValid path with
    | false => simp
    | true => cases k.offer? path <;> simp

theorem lookup_after_of_lookup {ks : List Call} (h : r.lookup path = some f) :
    (r.after ks).lookup path = some f := by
  rw [lookup_after, h]
  rfl

/-- Of a run, the calls for one path answer what they answer without the others. -/
theorem transcript_filter (ks : List Call) (h : r.lookup path = r'.lookup path) :
    (r.transcript ks).filter (fun e => e.1.path? = some path) =
      r'.transcript (ks.filter fun k => k.path? = some path) := by
  induction ks generalizing r r' with
  | nil => rfl
  | cons k ks ih =>
    by_cases hk : k.path? = some path
    · have hnext : (r.act k).2.lookup path = (r'.act k).2.lookup path := by
        rw [lookup_act, lookup_act, h]
      rw [List.filter_cons_of_pos (by simpa using hk), transcript, transcript,
        List.filter_cons_of_pos (by simpa using hk), act_congr hk h, ih hnext]
    · have hnext : (r.act k).2.lookup path = r'.lookup path := (lookup_act_of_ne hk).trans h
      rw [List.filter_cons_of_neg (by simpa using hk), transcript,
        List.filter_cons_of_neg (by simpa using hk), ih hnext]

/-- The registry without functions. -/
def new : Registry := SortedMap.empty

/-- What holds of a run of calls that starts with a new registry. -/
structure Orderly (calls : List Call) : Prop where
  /-- A path that resolves to a function does so ever after. -/
  kept : ∀ before later, calls = before ++ later → ∀ path f,
    (new.after before).resolve path = .ok f → (new.after calls).resolve path = .ok f
  /-- The bound paths are symbol paths, each that of its function. -/
  keys : ∀ path ∈ (new.after calls).paths, SymbolPath.IsPath path ∧
    ∃ f, (new.after calls).lookup path = some f ∧ f.path = some path
  /-- A function that is presented for a bound path is answered with the first that was
  presented for it if it is the same instance or the two are compatible, and refused
  otherwise. -/
  answered : ∀ before k later, calls = before ++ k :: later → ∀ f, k.function = .ok f →
    ∀ path, f.path = some path → ∀ g, (new.after before).resolve path = .ok g →
      before.findSome? (Call.offer? path) = some g ∧
        (k.sameInstance g = true ∨ g.isCompatibleWith f = true →
          ((new.after before).act k).1.result = .ok g) ∧
        (k.sameInstance g = false → g.isCompatibleWith f = false →
          ∃ e, ((new.after before).act k).1.result = .error e ∧ e.code = "REGISTRY_001")
  /-- Without NaN that is decided by compatibility alone, as one instance is one
  function. -/
  presented : ∀ before k later, calls = before ++ k :: later → ∀ f, k.function = .ok f →
    f.NoNaN → ∀ path, f.path = some path → ∀ g, (new.after before).resolve path = .ok g →
      (k.sameInstance g = true → g = f) →
      before.findSome? (Call.offer? path) = some g ∧
        (g = f → g.isCompatibleWith f = true) ∧
        (g.isCompatibleWith f = true → ((new.after before).act k).1.result = .ok g) ∧
        (g.isCompatibleWith f = false → ∃ e, ((new.after before).act k).1.result = .error e ∧
          e.code = "REGISTRY_001")
  /-- A call that fails changes nothing. -/
  failed : ∀ before k later, calls = before ++ k :: later → ∀ e,
    ((new.after before).act k).1.result = .error e → new.after (before ++ [k]) = new.after before
  /-- What the calls for a path answer does not depend on the others. -/
  apart : ∀ path, (new.transcript calls).filter (fun e => e.1.path? = some path) =
    new.transcript (calls.filter fun k => k.path? = some path)

theorem resolve_eq_ok_iff : r.resolve path = .ok f ↔ r.lookup path = some f := by
  unfold resolve
  cases r.lookup path <;> simp

theorem path_of_offer {ks : List Call} (h : ks.findSome? (Call.offer? path) = some f) :
    f.path = some path := by
  obtain ⟨k, _, hk⟩ := List.exists_of_findSome?_eq_some h
  unfold Call.offer? at hk
  split at hk
  · split at hk
    · cases hk
      assumption
    · cases hk
  · cases hk

/-- What a path of a registry that was new is bound to. -/
theorem lookup_after_new {ks : List Call} (h : (new.after ks).lookup path = some f) :
    SymbolPath.isValid path = true ∧ ks.findSome? (Call.offer? path) = some f := by
  have hnew : new.lookup path = none := SortedMap.get?_empty path
  rw [lookup_after, hnew, Option.none_or] at h
  cases hvalid : SymbolPath.isValid path with
  | false =>
    rw [hvalid] at h
    cases h
  | true =>
    rw [hvalid] at h
    exact ⟨rfl, h⟩

/-- What a function is answered that is presented for a bound path. -/
theorem result_act_of_lookup (hk : k.function = .ok f) (hpath : f.path = some path)
    (hvalid : SymbolPath.isValid path = true) (hg : r.lookup path = some g) :
    (r.act k).1.result = if k.sameInstance g || g.isCompatibleWith f then .ok g
      else .error (.function (.registryConflict path)) := by
  rw [act_of_ok hk, enter, hpath]
  simp only [SymbolPath.check_eq_ok hvalid, hg]
  split <;> rfl

/-- A function that is presented for a bound path is answered with the first one, or
refused. -/
theorem answered_of_resolve {before : List Call} (hk : k.function = .ok f)
    (hpath : f.path = some path) (hg : (new.after before).resolve path = .ok g) :
    before.findSome? (Call.offer? path) = some g ∧
      (k.sameInstance g = true ∨ g.isCompatibleWith f = true →
        ((new.after before).act k).1.result = .ok g) ∧
      (k.sameInstance g = false → g.isCompatibleWith f = false →
        ∃ e, ((new.after before).act k).1.result = .error e ∧ e.code = "REGISTRY_001") := by
  rw [resolve_eq_ok_iff] at hg
  obtain ⟨hvalid, hfirst⟩ := lookup_after_new hg
  have hresult := result_act_of_lookup hk hpath hvalid hg
  refine ⟨hfirst, fun hsame => ?_, fun hother hcompatible => ?_⟩
  · rw [hresult, if_pos (Bool.or_eq_true_iff.2 hsame)]
  · refine ⟨.function (.registryConflict path), ?_, rfl⟩
    rw [hresult, hother, hcompatible]
    rfl

/-- Every run is orderly. -/
theorem orderly (calls : List Call) : Orderly calls where
  kept := by
    rintro before later rfl path f h
    rw [resolve_eq_ok_iff] at h ⊢
    rw [after_append]
    exact lookup_after_of_lookup h
  keys := by
    intro path hpath
    obtain ⟨f, hf⟩ := (SortedMap.mem_keys_iff _).1 hpath
    obtain ⟨hvalid, hfirst⟩ := lookup_after_new hf
    exact ⟨SymbolPath.isValid_iff.1 hvalid, f, hf, path_of_offer hfirst⟩
  answered before k later _ f hk path hpath g hg := answered_of_resolve hk hpath hg
  presented := by
    intro before k later _ f hk hnan path hpath g hg hinstance
    obtain ⟨hfirst, haccepted, hrefused⟩ := answered_of_resolve hk hpath hg
    have hself : g = f → g.isCompatibleWith f = true := by
      intro heq
      rw [heq]
      exact BoundFunction.isCompatibleWith_self hnan
    refine ⟨hfirst, hself, fun hcompatible => haccepted (.inr hcompatible), fun hcompatible => ?_⟩
    cases hsame : k.sameInstance g with
    | true =>
      rw [hself (hinstance hsame)] at hcompatible
      cases hcompatible
    | false => exact hrefused hsame hcompatible
  failed := by
    intro before k later _ e he
    rw [after_append]
    exact act_of_failure he
  apart path := transcript_filter calls rfl

/-- Every run of a registry is orderly, and compatibility is reflexive without NaN,
symmetric, and transitive as far as an instance of a callable has one body, so that
compatible functions accept the same functions. -/
theorem registryRuns (calls : List Call) : Orderly calls ∧
    (∀ f : BoundFunction, f.NoNaN → f.isCompatibleWith f = true) ∧
    (∀ f g : BoundFunction, f.isCompatibleWith g = true → g.isCompatibleWith f = true) ∧
    (∀ f g h : BoundFunction, f.Identified g → g.Identified h → f.isCompatibleWith g = true →
      g.isCompatibleWith h = true → f.isCompatibleWith h = true) ∧
    ∀ f g h : BoundFunction, f.Identified g → f.Identified h → g.Identified h →
      f.isCompatibleWith g = true → f.isCompatibleWith h = g.isCompatibleWith h :=
  ⟨orderly calls, fun _ => BoundFunction.isCompatibleWith_self,
    fun _ _ => BoundFunction.isCompatibleWith_symm,
    fun _ _ _ => BoundFunction.isCompatibleWith_trans,
    fun _ _ _ => BoundFunction.isCompatibleWith_congr⟩

end Registry

namespace Sample

/-- A callable that answers a number, with a body or without. -/
def answering (instanceId : Nat) (body : Option (List UInt8)) : Callable :=
  { Callable.scalar instanceId (fun _ => .ok (.int 42)) with body := body }

/-- A function of a callable without arguments, under a path. -/
def answer (c : Callable) : BoundFunction where
  id := .ofNat c.instanceId
  name := "answer"
  path := some "deep.thought.answer"
  signatures := [⟨[], .int, false⟩]
  implementation := .callables [c]
  batchSize := none
  isMethod := false
  isProperty := false
  pool := none

theorem noNaN_answer (c : Callable) : (answer c).NoNaN where
  signatures s hs p hp := by
    rw [List.mem_singleton.1 hs] at hp
    cases hp
  templates := nofun

/-- A function with a default that is not a number. -/
def doubt : BoundFunction :=
  { answer (answering 4 none) with
    path := some "deep.thought.doubt"
    signatures := [⟨[⟨"about", .float, some (.float (0 / 0)), false⟩], .int, false⟩] }

/-- Two functions with one body, and one without, are registered under one path, and
one function is registered twice and once more as a copy. -/
def registrations : List Registry.Call := [.register (answer (answering 1 (some [4]))),
  .register (answer (answering 2 (some [4]))), .register (answer (answering 3 none)),
  .register doubt, .register doubt, .register { doubt with copy := 1 }]

end Sample

/-- The second function is answered with the first, and the third is refused; the
function that is registered twice is answered with itself, though it is not compatible
with itself, and its copy is refused. -/
theorem Sample.registryRuns_registrations :
    Registry.Orderly Sample.registrations ∧
      ((Registry.new.after (Sample.registrations.take 1)).act
        (.register (Sample.answer (Sample.answering 2 (some [4]))))).1.result =
          .ok (Sample.answer (Sample.answering 1 (some [4]))) ∧
      (∃ e, ((Registry.new.after (Sample.registrations.take 2)).act
        (.register (Sample.answer (Sample.answering 3 none)))).1.result = .error e ∧
          e.code = "REGISTRY_001") ∧
      Sample.doubt.isCompatibleWith Sample.doubt = false ∧
      ((Registry.new.after (Sample.registrations.take 4)).act
        (.register Sample.doubt)).1.result = .ok Sample.doubt ∧
      ∃ e, ((Registry.new.after (Sample.registrations.take 5)).act
        (.register { Sample.doubt with copy := 1 })).1.result = .error e ∧
          e.code = "REGISTRY_001" := by
  have horderly := (Registry.registryRuns Sample.registrations).1
  have hdoubt : Sample.doubt.isCompatibleWith Sample.doubt = false := by decide +kernel
  refine ⟨horderly, ?_, ?_, hdoubt, ?_, ?_⟩
  · have hpresented := horderly.presented (Sample.registrations.take 1) _ _ rfl _ rfl
      (Sample.noNaN_answer _) "deep.thought.answer" rfl _ rfl nofun
    exact hpresented.2.2.1 rfl
  · have hpresented := horderly.presented (Sample.registrations.take 2) _ _ rfl _ rfl
      (Sample.noNaN_answer _) "deep.thought.answer" rfl _ rfl nofun
    exact hpresented.2.2.2 rfl
  · have hanswered := horderly.answered (Sample.registrations.take 4) _ _ rfl _ rfl
      "deep.thought.doubt" rfl _ rfl
    exact hanswered.2.1 (.inl rfl)
  · have hanswered := horderly.answered (Sample.registrations.take 5) _ _ rfl _ rfl
      "deep.thought.doubt" rfl _ rfl
    exact hanswered.2.2 rfl hdoubt

end Cadastre
