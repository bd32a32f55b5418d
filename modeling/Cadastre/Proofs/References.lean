/-
# References between columns

The value of a computed column refers to other columns by their names, so the
columns of a list are a graph over names. References lead from one name to
another if one can follow them there; each round of following takes the columns
that are named now out of the list, so the search ends with the list
(`ColumnSpec.leads_iff`). Columns are acyclic if no name leads back to itself.
One more column keeps them so exactly if its references do not lead to its own
name (`ColumnSpec.acyclic_of_refersTo`, `ColumnSpec.not_acyclic_of_leads`).

Key definitions: `ColumnSpec.RefersTo`, `ColumnSpec.Acyclic`,
`ColumnSpec.Leads`, `ColumnSpec.leads`, `ColumnSpec.tangles`.
Key theorems: `ColumnSpec.leads_iff`, `ColumnSpec.acyclic_iff`,
`ColumnSpec.acyclic_append_iff`, `Catalog.Layered.acyclic`.
-/
import Cadastre.Proofs.Layers
import Mathlib.Logic.Relation

namespace Cadastre

open Relation

/-- A path after its last step into `ends` starts there and takes other steps only. -/
theorem exists_path_of_ends {α : Type} {r r' : α → α → Prop} {ends : List α}
    (h : ∀ a b, r a b → r' a b ∨ b ∈ ends) {a b : α} (ha : a ∈ ends)
    (hpath : ReflTransGen r a b) : ∃ e ∈ ends, ReflTransGen r' e b := by
  induction hpath with
  | refl => exact ⟨a, ha, .refl⟩
  | tail _ hstep ih =>
    obtain ⟨e, he, hpath⟩ := ih
    rcases h _ _ hstep with hstep | hend
    · exact ⟨e, he, hpath.tail hstep⟩
    · exact ⟨_, hend, .refl⟩

namespace ColumnSpec

/-- A column of the list with the name `n` refers to the name `m`. -/
def RefersTo (specs : List ColumnSpec) (n m : String) : Prop :=
  ∃ s ∈ specs, s.name = n ∧ m ∈ s.refs

/-- No column refers to its own name, be it directly or through other columns. -/
def Acyclic (specs : List ColumnSpec) : Prop := ∀ n, ¬ TransGen (RefersTo specs) n n

/-- From one of the names references lead to `target`. -/
def Leads (specs : List ColumnSpec) (names : List String) (target : String) : Prop :=
  ∃ n ∈ names, ReflTransGen (RefersTo specs) n target

variable {specs specs' : List ColumnSpec} {names : List String} {target : String}

/-! ### Following references -/

/-- Follows references from the names, a number of steps at most. -/
def leadsWithin : Nat → List ColumnSpec → List String → String → Bool
  | 0, _, names, target => names.contains target
  | steps + 1, specs, names, target => names.contains target ||
    leadsWithin steps (specs.filter fun s => !names.contains s.name)
      ((specs.filter fun s => names.contains s.name).flatMap refs) target

/-- Whether from one of the names references lead to `target`. -/
def leads (specs : List ColumnSpec) (names : List String) (target : String) : Bool :=
  leadsWithin specs.length specs names target

theorem RefersTo.mono (h : ∀ s ∈ specs, s ∈ specs') {n m : String} (hr : RefersTo specs n m) :
    RefersTo specs' n m := by
  obtain ⟨s, hs, hname, href⟩ := hr
  exact ⟨s, h s hs, hname, href⟩

theorem refersTo_append_iff {n m : String} :
    RefersTo (specs ++ specs') n m ↔ RefersTo specs n m ∨ RefersTo specs' n m := by
  simp only [RefersTo, List.mem_append, or_and_right, exists_or]

theorem not_leads_nil : ¬ Leads specs [] target := by
  rintro ⟨n, hn, _⟩
  cases hn

/-- References lead to one of the names themselves, or they go on from what the
columns of these names refer to, through the other columns. -/
theorem leads_step_iff : Leads specs names target ↔ target ∈ names ∨
    Leads (specs.filter fun s => !names.contains s.name)
      ((specs.filter fun s => names.contains s.name).flatMap refs) target := by
  constructor
  · rintro ⟨n, hn, hpath⟩
    rcases hpath.cases_head with rfl | ⟨m, ⟨s, hs, rfl, hm⟩, hrest⟩
    · exact .inl hn
    · right
      have hnext : ∀ {s : ColumnSpec} {b : String}, s ∈ specs → s.name ∈ names → b ∈ s.refs →
          b ∈ (specs.filter fun s => names.contains s.name).flatMap refs :=
        fun hs hname hb => List.mem_flatMap.2
          ⟨_, List.mem_filter.2 ⟨hs, List.contains_iff_mem.2 hname⟩, hb⟩
      refine exists_path_of_ends (fun a b hab => ?_) (hnext hs hn hm) hrest
      obtain ⟨s, hs, rfl, hb⟩ := hab
      by_cases hname : s.name ∈ names
      · exact .inr (hnext hs hname hb)
      · exact .inl ⟨s, List.mem_filter.2 ⟨hs, by simpa using hname⟩, rfl, hb⟩
  · rintro (htarget | ⟨m, hm, hpath⟩)
    · exact ⟨target, htarget, .refl⟩
    · obtain ⟨s, hs, hm⟩ := List.mem_flatMap.1 hm
      obtain ⟨hs, hname⟩ := List.mem_filter.1 hs
      refine ⟨s.name, List.contains_iff_mem.1 hname, .head ⟨s, hs, rfl, hm⟩ ?_⟩
      exact ReflTransGen.mono
        (fun a b => RefersTo.mono fun s hs => (List.mem_filter.1 hs).1) _ _ hpath

theorem leadsWithin_nil (steps : Nat) (specs : List ColumnSpec) (target : String) :
    leadsWithin steps specs [] target = false := by
  induction steps generalizing specs with
  | zero => rfl
  | succ steps ih =>
    have hnone : (specs.filter fun s => ([] : List String).contains s.name) = [] := by simp
    rw [leadsWithin, hnone, List.flatMap_nil, ih]
    rfl

/-- As many steps as there are columns follow all references. -/
theorem leadsWithin_iff {steps : Nat} (h : specs.length ≤ steps) :
    leadsWithin steps specs names target = true ↔ Leads specs names target := by
  induction steps generalizing specs names with
  | zero =>
    obtain rfl : specs = [] := List.length_eq_zero_iff.1 (Nat.le_zero.1 h)
    rw [leadsWithin, List.contains_iff_mem, leads_step_iff]
    exact ⟨.inl, fun h => h.resolve_right not_leads_nil⟩
  | succ steps ih =>
    rw [leadsWithin, Bool.or_eq_true, List.contains_iff_mem, leads_step_iff]
    refine or_congr_right ?_
    cases hnext : specs.filter fun s => names.contains s.name with
    | nil => simp [leadsWithin_nil, not_leads_nil]
    | cons s next =>
      -- a column that is followed is gone from the rest
      rw [← hnext]
      refine ih (Nat.le_of_lt_succ (Nat.lt_of_lt_of_le ?_ h))
      have hs : s ∈ specs.filter fun s => names.contains s.name := hnext ▸ List.mem_cons_self
      obtain ⟨hs, hname⟩ := List.mem_filter.1 hs
      exact List.length_filter_lt_length_iff_exists.2 ⟨s, hs, by simpa using hname⟩

theorem leads_iff : leads specs names target = true ↔ Leads specs names target :=
  leadsWithin_iff (Nat.le_refl _)

instance : Decidable (Leads specs names target) := decidable_of_iff _ leads_iff

/-! ### Cycles -/

theorem acyclic_iff : Acyclic specs ↔ ∀ s ∈ specs, ¬ Leads specs s.refs s.name := by
  constructor
  · rintro h s hs ⟨m, hm, hpath⟩
    exact h s.name (.head' ⟨s, hs, rfl, hm⟩ hpath)
  · intro h n hcycle
    obtain ⟨m, ⟨s, hs, rfl, hm⟩, hpath⟩ := TransGen.head'_iff.1 hcycle
    exact h s hs ⟨m, hm, hpath⟩

instance : Decidable (Acyclic specs) := decidable_of_iff _ acyclic_iff.symm

theorem Acyclic.mono (h : Acyclic specs') (hr : ∀ n m, RefersTo specs n m → RefersTo specs' n m) :
    Acyclic specs :=
  fun n hcycle => h n (TransGen.mono hr _ _ hcycle)

theorem Acyclic.of_subset (h : Acyclic specs') (hs : ∀ s ∈ specs, s ∈ specs') : Acyclic specs :=
  h.mono fun _ _ => RefersTo.mono hs

section NewName

variable {n : String}

/-- Columns of which all references are old, or those of one name that they do not
lead to, stay acyclic. -/
theorem acyclic_of_refersTo (hac : Acyclic specs)
    (h : ∀ a b, RefersTo specs' a b → RefersTo specs a b ∨ a = n ∧ b ∈ names)
    (hfree : ¬ Leads specs names n) : Acyclic specs' := by
  -- a path has old references only, or goes to `n` and on from one of the names
  have hpath : ∀ {a b}, TransGen (RefersTo specs') a b → TransGen (RefersTo specs) a b ∨
      ReflTransGen (RefersTo specs) a n ∧ Leads specs names b := by
    intro a b hab
    induction hab with
    | single hstep =>
      rcases h _ _ hstep with hold | ⟨rfl, hb⟩
      · exact .inl (.single hold)
      · exact .inr ⟨.refl, _, hb, .refl⟩
    | tail _ hstep ih =>
      rcases ih with hold | ⟨hton, m, hm, hfrom⟩ <;> rcases h _ _ hstep with hstep | ⟨rfl, hb⟩
      · exact .inl (hold.tail hstep)
      · exact .inr ⟨hold.to_reflTransGen, _, hb, .refl⟩
      · exact .inr ⟨hton, m, hm, hfrom.tail hstep⟩
      · exact .inr ⟨hton, _, hb, .refl⟩
  intro x hcycle
  rcases hpath hcycle with hold | ⟨hton, m, hm, hfrom⟩
  · exact hac x hold
  · exact hfree ⟨m, hm, hfrom.trans hton⟩

/-- Columns of which one name has the given references, which led to the name by
references that are still there, are not acyclic. -/
theorem not_acyclic_of_leads (hnew : ∀ b ∈ names, RefersTo specs' n b)
    (hold : ∀ a b, RefersTo specs a b → RefersTo specs' a b ∨ b ∈ names)
    (h : Leads specs names n) : ¬ Acyclic specs' := by
  obtain ⟨m, hm, hpath⟩ := h
  obtain ⟨e, he, hpath⟩ := exists_path_of_ends hold hm hpath
  exact fun hac => hac n (.head' (hnew e he) hpath)

end NewName

/-- Whether one of the added columns, put behind those before it, refers to its
own name. -/
def tangles (before : List ColumnSpec) : List ColumnSpec → Bool
  | [] => false
  | s :: rest => leads before s.refs s.name || tangles (before ++ [s]) rest

theorem acyclic_concat_iff {s : ColumnSpec} (h : Acyclic specs) :
    Acyclic (specs ++ [s]) ↔ leads specs s.refs s.name = false := by
  have hlast : ∀ a b, RefersTo [s] a b ↔ a = s.name ∧ b ∈ s.refs := by
    simp [RefersTo, eq_comm]
  rw [← Bool.not_eq_true, leads_iff]
  constructor
  · refine fun hac hleads => not_acyclic_of_leads (fun b hb => ?_) (fun a b hab => ?_) hleads hac
    · exact refersTo_append_iff.2 (.inr ((hlast _ _).2 ⟨rfl, hb⟩))
    · exact .inl (refersTo_append_iff.2 (.inl hab))
  · refine acyclic_of_refersTo h fun a b hab => ?_
    exact (refersTo_append_iff.1 hab).imp_right (hlast a b).1

/-- Columns that are put behind acyclic ones leave them so exactly if none of them
tangles. -/
theorem acyclic_append_iff {added : List ColumnSpec} (h : Acyclic specs) :
    Acyclic (specs ++ added) ↔ tangles specs added = false := by
  induction added generalizing specs with
  | nil => simpa [tangles] using h
  | cons s rest ih =>
    rw [tangles, Bool.or_eq_false_iff, ← acyclic_concat_iff h, List.append_cons]
    constructor
    · intro hac
      have hfirst : Acyclic (specs ++ [s]) :=
        hac.of_subset fun _ hs => List.mem_append_left _ hs
      exact ⟨hfirst, (ih hfirst).1 hac⟩
    · rintro ⟨hfirst, hrest⟩
      exact (ih hfirst).2 hrest

end ColumnSpec

/-- Layered columns are acyclic, if they have different names. -/
theorem Catalog.Layered.acyclic {c : Catalog} {specs : List ColumnSpec} (h : c.Layered specs)
    (hnames : (specs.map ColumnSpec.name).Nodup) : ColumnSpec.Acyclic specs := by
  induction h with
  | nil => exact ColumnSpec.acyclic_iff.2 fun s hs => absurd hs List.not_mem_nil
  | @push specs s hspecs hs ih =>
    rw [List.map_append, List.nodup_append'] at hnames
    have hnew : s.name ∉ specs.map ColumnSpec.name := fun hmem =>
      List.disjoint_left.1 hnames.2.2 hmem (List.mem_singleton.2 rfl)
    refine (ColumnSpec.acyclic_concat_iff (ih hnames.1)).2 ?_
    rw [← Bool.not_eq_true, ColumnSpec.leads_iff]
    rintro ⟨m, hm, hpath⟩
    -- whatever a reference leads to is the name of a column before
    rcases hpath.cases_tail with rfl | ⟨b, -, s', hs', -, hself⟩
    · obtain ⟨v, hv, hname⟩ := hs.exists_of_mem_refs hm
      obtain ⟨d, hd, rfl⟩ := List.mem_map.1 hv
      exact hnew (List.mem_map.2 ⟨d, hd, hname⟩)
    · exact hnew (hspecs.mem_names_of_mem_refs hs' hself)

end Cadastre
