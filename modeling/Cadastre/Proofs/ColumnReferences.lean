/-
# Column references are complete

The references of an expression are gathered in one walk of the tree from left to right,
which adds a name to the list that it carries unless the name is there. Whatever list it
starts from, the walk adds the names that a plain list of the columns has, each where it
is first met (`Expr.collectColumns_eq`). The columns of that list are those at the places
of the tree, in the order of the places (`Expr.mem_columnPlaces_iff`,
`Expr.pairwise_columnPlaces`), so the references are the names of the columns anywhere in
the tree, each once, in the order of first appearance. After a substitution they are those
of the tree and those of the expressions that were put in. The columns of a schema that
depend on a name are read off them (`Expr.columnReferences`).

Key definitions: `Expr.note`, `Expr.columnPlaces`, `Column.Mentions`.
Key theorems: `Expr.collectColumns_eq`, `Expr.mem_columnPlaces_iff`,
`Expr.pairwise_columnPlaces`, `Expr.mem_columnRefs_substitute_iff`,
`Expr.columnReferences`.
-/
import Cadastre.Metadata.Schema
import Cadastre.Proofs.Places
import Mathlib.Data.List.Basic

namespace Cadastre
namespace Expr

/-! ### The walk -/

/-- Puts a name at the end of a list unless it is in it. -/
def note (found : List String) (name : String) : List String :=
  if found.contains name then found else found ++ [name]

mutual

/-- The walk notes the names of the columns one after the other. -/
theorem collectColumns_eq_foldl : ∀ (e : Expr) (found : List String),
    collectColumns found e = e.columnNames.foldl note found
  | column _ _, _ => rfl
  | var _ _, _ => rfl
  | literal _, _ => rfl
  | call _ _ args _, found => collectColumnsArgs_eq_foldl args found

theorem collectColumnsArgs_eq_foldl : ∀ (es : List Expr) (found : List String),
    collectColumnsArgs found es = (columnNamesArgs es).foldl note found
  | [], _ => rfl
  | e :: es, found => by
    rw [collectColumnsArgs, columnNamesArgs, List.foldl_append, collectColumns_eq_foldl e,
      collectColumnsArgs_eq_foldl es]

end

/-- Noting names adds those that were not there, each where it is first met. -/
theorem foldl_note (names found : List String) :
    names.foldl note found = found ++ (names.removeAll found).eraseDups := by
  induction names generalizing found with
  | nil => simp [List.removeAll]
  | cons name names ih =>
    rw [List.foldl_cons, ih]
    by_cases hfound : name ∈ found
    · simp [note, List.removeAll, hfound]
    · have hnote : note found name = found ++ [name] :=
        if_neg (by simpa using hfound)
      have hcons : (name :: names).removeAll found = name :: names.removeAll found := by
        simp [List.removeAll, hfound]
      have hrest : names.removeAll (found ++ [name]) =
          (names.removeAll found).filter fun other => !other == name := by
        rw [List.removeAll, List.removeAll, List.filter_filter]
        refine List.filter_congr fun other _ => ?_
        by_cases hother : other = name <;> simp [hother]
      calc note found name ++ (names.removeAll (note found name)).eraseDups
          = found ++ name :: (names.removeAll (found ++ [name])).eraseDups := by
            rw [hnote, List.append_assoc, List.singleton_append]
        _ = found ++ (name :: names.removeAll found).eraseDups := by
            rw [hrest, List.eraseDups_cons]
        _ = found ++ ((name :: names).removeAll found).eraseDups := by rw [hcons]

/-- Whatever was found before, the walk adds the names that are new, each where it is
first met. -/
theorem collectColumns_eq (e : Expr) (found : List String) :
    collectColumns found e = found ++ (e.columnNames.removeAll found).eraseDups := by
  rw [collectColumns_eq_foldl, foldl_note]

theorem columnRefs_eq (e : Expr) : e.columnRefs = e.columnNames.eraseDups := by
  rw [columnRefs, collectColumns_eq, List.nil_append]
  congr 1
  simp [List.removeAll]

theorem mem_columnRefs_iff_mem_columnNames {e : Expr} {name : String} :
    name ∈ e.columnRefs ↔ name ∈ e.columnNames := by
  rw [columnRefs_eq, List.mem_eraseDups]

/-! ### The columns place by place -/

mutual

/-- The places of the columns from left to right, with their names. -/
def columnPlaces : Expr → List (List Nat × String)
  | column name _ => [([], name)]
  | call _ _ args _ => columnPlacesArgs 0 args
  | _ => []

/-- The same for arguments, of which the first has the number `i`. -/
def columnPlacesArgs (i : Nat) : List Expr → List (List Nat × String)
  | [] => []
  | e :: es => (columnPlaces e).map (fun c => (i :: c.1, c.2)) ++ columnPlacesArgs (i + 1) es

end

mutual

theorem map_columnPlaces : ∀ e : Expr, e.columnPlaces.map (·.2) = e.columnNames
  | column _ _ => rfl
  | var _ _ => rfl
  | literal _ => rfl
  | call _ _ args _ => map_columnPlacesArgs args 0

theorem map_columnPlacesArgs : ∀ (es : List Expr) (i : Nat),
    (columnPlacesArgs i es).map (·.2) = columnNamesArgs es
  | [], _ => rfl
  | e :: es, i => by
    rw [columnPlacesArgs, columnNamesArgs, List.map_append, List.map_map,
      map_columnPlacesArgs es, ← map_columnPlaces e]
    rfl

end

mutual

/-- The walk comes to the columns of the tree and to nothing else. -/
theorem mem_columnPlaces_iff {name : String} : ∀ {e : Expr} {p : List Nat},
    (p, name) ∈ e.columnPlaces ↔ ∃ t, e.at? p = some (column name t)
  | column other s, p => by
    cases p with
    | nil => simp [columnPlaces, at?, eq_comm]
    | cons i p => simp [columnPlaces, at?, arguments]
  | var x s, p => by cases p <;> simp [columnPlaces, at?, arguments]
  | literal v, p => by cases p <;> simp [columnPlaces, at?, arguments]
  | call f overload args s, p => by
    rw [columnPlaces, mem_columnPlacesArgs_iff]
    constructor
    · rintro ⟨j, q, a, hp, ha, t, h⟩
      rw [Nat.zero_add] at hp
      exact ⟨t, hp ▸ at?_cons_eq_some_iff.2 ⟨a, ha, h⟩⟩
    · rintro ⟨t, h⟩
      cases p with
      | nil => cases h
      | cons j q =>
        obtain ⟨a, ha, h⟩ := at?_cons_eq_some_iff.1 h
        exact ⟨j, q, a, by rw [Nat.zero_add], ha, t, h⟩

theorem mem_columnPlacesArgs_iff {name : String} : ∀ {es : List Expr} {i : Nat} {p : List Nat},
    (p, name) ∈ columnPlacesArgs i es ↔ ∃ (j : Nat) (q : List Nat) (a : Expr),
      p = (i + j) :: q ∧ es[j]? = some a ∧ ∃ t, a.at? q = some (column name t)
  | [], _, _ => by simp [columnPlacesArgs]
  | e :: es, i, p => by
    rw [columnPlacesArgs, List.mem_append, mem_columnPlacesArgs_iff, List.mem_map]
    constructor
    · rintro (⟨⟨q, n⟩, hq, heq⟩ | ⟨j, q, a, hp, ha, h⟩)
      · cases heq
        exact ⟨0, q, e, rfl, rfl, mem_columnPlaces_iff.1 hq⟩
      · exact ⟨j + 1, q, a, by rw [hp, Nat.add_right_comm, Nat.add_assoc], ha, h⟩
    · rintro ⟨j, q, a, hp, ha, h⟩
      cases j with
      | zero =>
        cases ha
        exact .inl ⟨(q, name), mem_columnPlaces_iff.2 h, by rw [hp]; rfl⟩
      | succ j => exact .inr ⟨j, q, a, by rw [hp, Nat.add_right_comm, Nat.add_assoc], ha, h⟩

end

mutual

/-- The walk goes from left to right. -/
theorem pairwise_columnPlaces : ∀ e : Expr, e.columnPlaces.Pairwise fun a b => a.1 < b.1
  | column _ _ => List.pairwise_singleton _ _
  | var _ _ => .nil
  | literal _ => .nil
  | call _ _ args _ => pairwise_columnPlacesArgs args 0

theorem pairwise_columnPlacesArgs : ∀ (es : List Expr) (i : Nat),
    (columnPlacesArgs i es).Pairwise fun a b => a.1 < b.1
  | [], _ => .nil
  | e :: es, i => by
    refine List.pairwise_append.2 ⟨?_, pairwise_columnPlacesArgs es (i + 1), fun a ha b hb => ?_⟩
    · refine List.pairwise_map.2 ((pairwise_columnPlaces e).imp fun hlt => ?_)
      exact List.cons_lt_cons_iff.2 (.inr ⟨rfl, hlt⟩)
    · -- a later argument has a greater number
      obtain ⟨c, -, rfl⟩ := List.mem_map.1 ha
      obtain ⟨p, name⟩ := b
      obtain ⟨j, q, _, rfl, -⟩ := mem_columnPlacesArgs_iff.1 hb
      exact List.cons_lt_cons_iff.2 (.inl (by omega))

end

/-! ### The order of first appearance -/

/-- Without repetitions, a name stands before another one if it is first met before all
that have the other one. -/
theorem pairwise_eraseDups : ∀ {l : List (List Nat × String)}, (l.Pairwise fun a b => a.1 < b.1) →
    (l.map (·.2)).eraseDups.Pairwise fun n m => ∃ p, (p, n) ∈ l ∧ ∀ q, (q, m) ∈ l → p < q
  | [], _ => .nil
  | (p, n) :: l, h => by
    obtain ⟨hp, hl⟩ := List.pairwise_cons.1 h
    let others := l.filter fun e => !e.2 == n
    have hnames : (((p, n) :: l).map (·.2)).eraseDups = n :: (others.map (·.2)).eraseDups := by
      rw [List.map_cons, List.eraseDups_cons, List.filter_map]
      rfl
    have hother : ∀ {m}, m ∈ (others.map (·.2)).eraseDups → m ≠ n := by
      intro m hm
      obtain ⟨e, he, rfl⟩ := List.mem_map.1 (List.mem_eraseDups.1 hm)
      simpa using (List.mem_filter.1 he).2
    -- what has another name is met later
    have hlater : ∀ {m q}, m ≠ n → (q, m) ∈ (p, n) :: l → (q, m) ∈ l ∧ p < q := by
      intro m q hne hq
      have hmem : (q, m) ∈ l := by
        refine (List.mem_cons.1 hq).resolve_left fun heq => ?_
        cases heq
        exact hne rfl
      exact ⟨hmem, hp _ hmem⟩
    rw [hnames]
    refine List.pairwise_cons.2 ⟨fun m hm => ⟨p, List.mem_cons_self, fun q hq => ?_⟩, ?_⟩
    · exact (hlater (hother hm) hq).2
    · have hrest := pairwise_eraseDups (hl.filter fun e => !e.2 == n)
      refine hrest.imp_of_mem fun {n' m} _ hm hfirst => ?_
      obtain ⟨q, hq, hbefore⟩ := hfirst
      refine ⟨q, List.mem_cons_of_mem _ (List.mem_filter.1 hq).1, fun r hr => hbefore r ?_⟩
      have hne := hother hm
      exact List.mem_filter.2 ⟨(hlater hne hr).1, by simpa using hne⟩
  termination_by l => l.length
  decreasing_by exact Nat.lt_succ_of_le (List.length_filter_le _ _)

theorem mem_columnRefs_iff_exists_place {e : Expr} {name : String} :
    name ∈ e.columnRefs ↔ ∃ p t, e.at? p = some (column name t) := by
  rw [mem_columnRefs_iff_mem_columnNames, ← map_columnPlaces, List.mem_map]
  constructor
  · rintro ⟨⟨p, n⟩, hp, rfl⟩
    exact ⟨p, mem_columnPlaces_iff.1 hp⟩
  · rintro ⟨p, h⟩
    exact ⟨(p, name), mem_columnPlaces_iff.2 h, rfl⟩

/-- A reference is first met before all columns of the references behind it. -/
theorem pairwise_columnRefs (e : Expr) : e.columnRefs.Pairwise fun n m =>
    ∃ p t, e.at? p = some (column n t) ∧ ∀ q u, e.at? q = some (column m u) → p < q := by
  rw [columnRefs_eq, ← map_columnPlaces]
  refine (pairwise_eraseDups (pairwise_columnPlaces e)).imp fun ⟨p, hp, hfirst⟩ => ?_
  obtain ⟨t, ht⟩ := mem_columnPlaces_iff.1 hp
  exact ⟨p, t, ht, fun q u hq => hfirst q (mem_columnPlaces_iff.2 ⟨u, hq⟩)⟩

theorem nodup_columnRefs (e : Expr) : e.columnRefs.Nodup := by
  refine (pairwise_columnRefs e).imp fun ⟨p, t, hp, hfirst⟩ heq => ?_
  subst heq
  exact List.lt_irrefl p (hfirst p t hp)

/-! ### Substitution -/

section Substitution

variable {b : String → Option Expr} {name : String}

mutual

theorem mem_columnNames_substitute_iff : ∀ {e : Expr}, name ∈ (e.substitute b).columnNames ↔
    name ∈ e.columnNames ∨ ∃ x ∈ e.parameters, ∃ a, b x = some a ∧ name ∈ a.columnNames
  | column _ _ => by simp [substitute, parameters]
  | literal _ => by simp [substitute, parameters]
  | var x _ => by cases hx : b x <;> simp [substitute, parameters, columnNames, hx]
  | call _ _ _ _ => by
    rw [substitute, columnNames, columnNames, parameters]
    exact mem_columnNamesArgs_substitute_iff

theorem mem_columnNamesArgs_substitute_iff : ∀ {es : List Expr},
    name ∈ columnNamesArgs (substituteArgs b es) ↔ name ∈ columnNamesArgs es ∨
      ∃ x ∈ parametersArgs es, ∃ a, b x = some a ∧ name ∈ a.columnNames
  | [] => by simp [substituteArgs, parametersArgs]
  | e :: es => by
    rw [substituteArgs, columnNamesArgs, columnNamesArgs, parametersArgs, List.mem_append,
      List.mem_append, mem_columnNames_substitute_iff, mem_columnNamesArgs_substitute_iff,
      or_or_or_comm]
    simp only [List.mem_append, or_and_right, exists_or]

end

/-- After a substitution the references are those of the tree and those of what its
variables are replaced by. -/
theorem mem_columnRefs_substitute_iff {e : Expr} : name ∈ (e.substitute b).columnRefs ↔
    name ∈ e.columnRefs ∨ ∃ x ∈ e.parameters, ∃ a, b x = some a ∧ name ∈ a.columnRefs := by
  simp only [mem_columnRefs_iff_mem_columnNames]
  exact mem_columnNames_substitute_iff

end Substitution
end Expr

/-! ### The columns that depend on a name -/

/-- The column is computed by an expression with a column of the name in it. -/
def Column.Mentions (c : Column) (name : String) : Prop :=
  ∃ e, c.computed = some (.expr e) ∧ ∃ p t, e.at? p = some (.column name t)

theorem Column.mentions_iff {c : Column} {name : String} :
    c.Mentions name ↔ (c.computed.any fun v => v.columnRefs.contains name) = true := by
  unfold Mentions
  simp only [← Expr.mem_columnRefs_iff_exists_place]
  cases c.computed with
  | none => simp
  | some v => cases v <;> simp [ComputedValue.columnRefs]

/-- The dependents of a name are the columns that mention it, in the order of their
numbers. -/
theorem Schema.exists_dependents (s : Schema) (name : String) :
    ∃ l : List (ColumnId × Column), s.dependents name = l.map (·.2) ∧
      (l.Pairwise fun a b => a.1 < b.1) ∧
      ∀ id c, (id, c) ∈ l ↔ s.columns.get? id = some c ∧ c.Mentions name := by
  refine ⟨s.columns.entries.filter fun e =>
    e.2.computed.any fun v => v.columnRefs.contains name, ?_, s.columns.sorted.filter _, ?_⟩
  · rw [dependents, SortedMap.values, List.filter_map]
    rfl
  · intro id c
    rw [List.mem_filter, SortedMap.mem_entries_iff, Column.mentions_iff]

/-- The references of an expression are the names of the columns anywhere in its tree,
each once, in the order in which a walk from left to right first meets them. So the
dependents of a name are exactly the columns with an expression that has a column of the
name, in the order of their numbers, and a substitution adds the references of what it
puts in the place of the variables of the tree. -/
theorem Expr.columnReferences :
    (∀ e : Expr, (∀ name, name ∈ e.columnRefs ↔ ∃ p t, e.at? p = some (.column name t)) ∧
      e.columnRefs.Nodup ∧
      e.columnRefs.Pairwise fun n m => ∃ p t, e.at? p = some (.column n t) ∧
        ∀ q u, e.at? q = some (.column m u) → p < q) ∧
    (∀ (s : Schema) (name : String), ∃ l : List (ColumnId × Column),
      s.dependents name = l.map (·.2) ∧ (l.Pairwise fun a b => a.1 < b.1) ∧
        ∀ id c, (id, c) ∈ l ↔ s.columns.get? id = some c ∧ c.Mentions name) ∧
    (∀ (e : Expr) (b : String → Option Expr) (name : String), name ∈ (e.substitute b).columnRefs ↔
      name ∈ e.columnRefs ∨ ∃ x ∈ e.parameters, ∃ a, b x = some a ∧ name ∈ a.columnRefs) :=
  ⟨fun e => ⟨fun _ => mem_columnRefs_iff_exists_place, nodup_columnRefs e, pairwise_columnRefs e⟩,
    Schema.exists_dependents, fun _ _ _ => mem_columnRefs_substitute_iff⟩

end Cadastre
