/-
# What stands beside the tables

Besides tables a store holds a system record, directories and functions. In a run
whose surroundings supply it with new identifiers for directories and with functions
that were obtained as functions are, these records stay sound: the layout is the one
that is known, all directories are rooted, and all functions can be read.

Key definitions: `Store.Founded`, `Catalog.Supplied`, `Catalog.Sound`.
Key theorems: `Store.Founded.write`, `Catalog.Sound.act`, `Catalog.Sound.after`.
-/
import Cadastre.Proofs.Bases
import Cadastre.Proofs.Directories
import Cadastre.Proofs.StoredFunctions

namespace Cadastre

/-! ### What a run is supplied with -/

/-- A new directory comes under an identifier that none has, and a function that is
stored was obtained as functions are, with literals that are numbers. -/
def Operation.IsSupplied (s : Store) (op : Operation) : Prop :=
  (∀ id, op.directory? = some id → s.get? (.dir id) = none) ∧
    ∀ dir f, op = .storeFunction dir f → f.Obtained ∧ f.isFinite = true

/-- The operation brings neither a directory nor a function. -/
def Operation.isPlain : Operation → Bool
  | createDirectory .. => false
  | ensureDirectory .. => false
  | storeFunction .. => false
  | _ => true

theorem Operation.isSupplied_of_isPlain {s : Store} {op : Operation} (h : op.isPlain = true) :
    op.IsSupplied s := by
  cases op with
  | createDirectory => cases h
  | ensureDirectory => cases h
  | storeFunction => cases h
  | _ => exact ⟨fun _ hid => (by cases hid), fun _ _ hop => (by cases hop)⟩

def Action.isPlain : Action → Bool
  | perform _ op => op.isPlain
  | register _ => true

namespace Catalog

/-- The surroundings supply what an action needs. -/
def Supplies (c : Catalog) : Action → Prop
  | .perform _ op => op.IsSupplied c.store
  | .register _ => True

/-- Every action of a run has what it needs when it happens. -/
def Supplied (c : Catalog) : List Action → Prop
  | [] => True
  | a :: as => c.Supplies a ∧ (c.act a).Supplied as

/-- A run that brings neither directories nor functions needs nothing. -/
theorem supplied_of_isPlain {c : Catalog} {as : List Action} (h : ∀ a ∈ as, a.isPlain = true) :
    c.Supplied as := by
  induction as generalizing c with
  | nil => exact trivial
  | cons a as ih =>
    refine ⟨?_, ih fun b hb => h b (List.mem_cons_of_mem a hb)⟩
    have ha := h a List.mem_cons_self
    cases a with
    | perform now op => exact Operation.isSupplied_of_isPlain ha
    | register f => exact trivial

theorem supplied_append {c : Catalog} {as bs : List Action} :
    c.Supplied (as ++ bs) ↔ c.Supplied as ∧ (c.after as).Supplied bs := by
  induction as generalizing c with
  | nil => simp [Supplied]
  | cons a as ih => rw [List.cons_append, Supplied, ih, Supplied, after_cons, and_assoc]

end Catalog

/-! ### Sound foundations -/

namespace Store

/-- The system record is of the layout that is known, directories are rooted, and
functions can be read. -/
structure Founded (s : Store) : Prop where
  system : ∀ r, s.get? .systemInfo = some r →
    Payload.decode .systemInfo r.content = .ok (SystemInfo.mk layoutVersion)
  dirs : s.DirsRooted
  functions : s.FunctionsStored

theorem founded_empty : Store.Founded .empty where
  system _ hr := by cases hr
  dirs _ _ hr := by cases hr
  functions _ _ hr := by cases hr

variable {s s' : Store}

/-- Stores with the same records beside the tables are founded alike. -/
theorem Founded.congr (hs : s.Founded)
    (h : ∀ k : Key, k.isForeign = true → s'.get? k = s.get? k) : s'.Founded where
  system r hr := hs.system r ((h .systemInfo rfl).symm.trans hr)
  dirs := hs.dirs.congr fun d => h (.dir d) rfl
  functions := hs.functions.congr fun id => h (.function id) rfl

/-- What an operation that is about no table writes keeps the store founded. -/
theorem Founded.write {c : Catalog} (hs : c.store.Founded) {op : Operation}
    {ws : List (Key × Record)} (h : ForeignEffect c op ws) (hop : op.IsSupplied c.store) :
    (c.store.write ws).Founded := by
  have hone : ∀ {w : Key × Record} {k : Key}, k ≠ w.1 →
      (c.store.write [w]).get? k = c.store.get? k := fun hne => by
    rw [write_cons, write_nil, SortedMap.get?_insert, if_neg hne]
  cases h with
  | nothing => exact hs
  | system =>
    refine ⟨fun r hr => ?_, hs.dirs.congr fun d => hone nofun,
      hs.functions.congr fun id => hone nofun⟩
    rw [write_cons, write_nil, SortedMap.get?_insert, if_pos rfl] at hr
    cases hr
    exact SystemInfo.decode_toJson (by decide)
  | directory hid hparent =>
    refine ⟨fun r hr => hs.system r ((hone (by nofun)).symm.trans hr), ?_,
      hs.functions.congr fun id => hone nofun⟩
    exact hs.dirs.insert (hop.1 _ hid) hparent _
  | @function dir f stored r hstored hcontent =>
    refine ⟨fun r hr => hs.system r ((hone (by nofun)).symm.trans hr),
      hs.dirs.congr fun d => hone nofun, ?_⟩
    obtain ⟨hobtained, hfinite⟩ := hop.2 dir f rfl
    exact hs.functions.insert (hobtained.storable hfinite) hstored hcontent

end Store

/-! ### Runs -/

namespace Catalog

/-- A catalog keeps sound ledgers, in which the bases of views exist, on a store that
is founded. -/
structure Sound (c : Catalog) (σ : Ledgers) : Prop where
  keeps : c.Keeps σ
  based : σ.Based
  founded : c.store.Founded

theorem sound_fresh (config : Config) (registry : Registry) :
    (fresh config registry).Sound fun _ => none :=
  ⟨keeps_fresh config registry, Ledgers.based_empty, Store.founded_empty⟩

variable {c : Catalog} {σ : Ledgers}

/-- An action that has what it needs keeps the store founded. -/
theorem Sound.founded_act (hc : c.Sound σ) {a : Action} (ha : c.Supplies a) :
    (c.act a).store.Founded := by
  cases a with
  | register f => exact hc.founded
  | perform now op =>
    cases hp : op.plan c now with
    | error e =>
      rw [Catalog.act, perform_of_plan_error hp]
      exact hc.founded
    | ok p =>
      rw [Catalog.act, perform_of_plan hc.keeps.unlimited hp]
      cases hop : op.table? with
      | none => exact hc.founded.write (foreignEffect_of_plan hop hp) ha
      | some t =>
        refine hc.founded.congr fun k hk => Store.get?_write_of_notMem fun w hw hkey => ?_
        have hnone := table?_eq_none_of_isForeign hp hw (hkey ▸ hk)
        rw [hop] at hnone
        cases hnone

/-- An action that is allowed and has what it needs keeps a catalog sound. -/
theorem Sound.act (hc : c.Sound σ) {a : Action} (ha : c.Allows a) (hsupplied : c.Supplies a) :
    ∃ σ', (c.act a).Sound σ' := by
  obtain ⟨σ', hkeeps, hadvance⟩ := hc.keeps.act ha
  exact ⟨σ', hkeeps, hadvance.based hc.keeps hkeeps hc.based, hc.founded_act hsupplied⟩

/-- A run that is admitted and has what it needs keeps a catalog sound. -/
theorem Sound.after (hc : c.Sound σ) {as : List Action} (ha : c.Admits as)
    (hsupplied : c.Supplied as) : ∃ σ', (c.after as).Sound σ' := by
  induction as generalizing c σ with
  | nil => exact ⟨σ, hc⟩
  | cons a as ih =>
    obtain ⟨σ', hc'⟩ := hc.act ha.1 hsupplied.1
    exact ih hc' ha.2 hsupplied.2

end Catalog
end Cadastre
