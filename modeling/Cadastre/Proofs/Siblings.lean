/-
# Directories under one parent

A directory is searched for by its name among the records under a parent, in the order
of the identifiers. The search stops at the first record that has the name or cannot be
read, and comes to what a look-up of that directory says. So a record that cannot be
read hides every directory with an identifier after its own: a name under its parent
is found only if some directory of that name comes before all such records
(`Store.findDirectory_beside_broken`). Records under other parents make no difference.

Key definitions: `Store.IsNamed`, `Store.IsBrokenUnder`, `Store.StopsAt`.
Key theorems: `Store.findDirectory_cases`, `Store.findDirectory_beside_broken`.
-/
import Cadastre.Proofs.Atomicity
import Cadastre.Proofs.Directories

namespace Cadastre

theorem Key.dir_lt_dir_iff {a b : DirId} : Key.dir a < .dir b ↔ a < b := by
  rw [lt_def, Uuid.lt_def]
  simp [kind, owner, version]

/-- Of two identifiers that differ, the one that is not the later comes first. -/
theorem Uuid.lt_of_ne_of_not_lt {a b : Uuid} (hne : a ≠ b) (h : ¬ b < a) : a < b := by
  rcases Uuid.lt_trichotomy a b with hlt | heq | hlt
  · exact hlt
  · exact absurd heq hne
  · exact absurd hlt h

namespace Store

variable {s : Store} {d : DirId} {parent : Option DirId} {name : String}

/-- Directory `d` has the name, and the parent. -/
def IsNamed (s : Store) (parent : Option DirId) (name : String) (d : DirId) : Prop :=
  s.directory d = .ok ⟨d, parent, name⟩

/-- The record of directory `d` is one under the parent, and cannot be read. -/
def IsBrokenUnder (s : Store) (parent : Option DirId) (d : DirId) (e : Error) : Prop :=
  s.directory d = .error e ∧ ∃ r, s.get? (.dir d) = some r ∧ r.dir = parent

/-- The search for a name under a parent goes no further than directory `d`. -/
def StopsAt (s : Store) (parent : Option DirId) (name : String) (d : DirId) : Prop :=
  s.IsNamed parent name d ∨ ∃ e, s.IsBrokenUnder parent d e

/-- What can be read is not broken. -/
theorem IsNamed.ne_of_isBrokenUnder {a b : DirId} {e : Error} (ha : s.IsNamed parent name a)
    (hb : s.IsBrokenUnder parent b e) : a ≠ b := by
  rintro rfl
  cases ha.symm.trans hb.1

/-- A directory is what its record says. -/
theorem directory_of_get? {r : Record} (hr : s.get? (.dir d) = some r) :
    s.directory d =
      (Payload.decode (.dir d) r.content).map fun i : DirInfo => ⟨d, r.dir, i.name⟩ := by
  unfold directory read?
  rw [hr]
  cases hd : (Payload.decode (.dir d) r.content : Except Error DirInfo) <;> simp [hd, Except.map]

/-- What the search does at a record, in terms of the directory that is looked up there. -/
theorem findDirectoryIn_cons {r : Record} {rest : List (Key × Record)}
    (hr : s.get? (.dir d) = some r) :
    findDirectoryIn parent name ((.dir d, r) :: rest) =
      if r.dir = parent then
        match s.directory d with
        | .error e => .error e
        | .ok x => if x.name = name then .ok (some x) else findDirectoryIn parent name rest
      else findDirectoryIn parent name rest := by
  rw [findDirectoryIn, directory_of_get? hr]
  by_cases hparent : r.dir = parent
  · rw [if_pos hparent, if_pos hparent]
    cases hd : (Payload.decode (.dir d) r.content : Except Error DirInfo) with
    | error e => rfl
    | ok i =>
      by_cases hname : i.name = name
      · subst hname hparent
        rfl
      · exact (if_neg hname).trans (if_neg hname).symm
  · rw [if_neg hparent, if_neg hparent]

/-- A record with the name, or one that cannot be read, decides the search. -/
theorem findDirectoryIn_of_stopsAt {r : Record} {rest : List (Key × Record)}
    (hr : s.get? (.dir d) = some r) (h : s.StopsAt parent name d) :
    findDirectoryIn parent name ((.dir d, r) :: rest) = (s.directory d).map some := by
  rw [findDirectoryIn_cons hr]
  rcases h with hnamed | ⟨e, he, r', hr', hparent⟩
  · obtain ⟨r', hr', i, _, hx⟩ := directory_eq_ok_iff.1 hnamed
    cases hr.symm.trans hr'
    have hparent : r.dir = parent := (congrArg Directory.parent hx).symm
    rw [if_pos hparent, hnamed]
    exact if_pos rfl
  · cases hr.symm.trans hr'
    rw [if_pos hparent, he]
    rfl

/-- The search passes every other record. -/
theorem findDirectoryIn_of_not_stopsAt {r : Record} {rest : List (Key × Record)}
    (hr : s.get? (.dir d) = some r) (h : ¬ s.StopsAt parent name d) :
    findDirectoryIn parent name ((.dir d, r) :: rest) = findDirectoryIn parent name rest := by
  rw [findDirectoryIn_cons hr]
  by_cases hparent : r.dir = parent
  · rw [if_pos hparent]
    cases hx : s.directory d with
    | error e => exact absurd (.inr ⟨e, hx, r, hr, hparent⟩) h
    | ok x =>
      refine if_neg fun hname => h (.inl ?_)
      obtain ⟨r', hr', i, _, rfl⟩ := directory_eq_ok_iff.1 hx
      cases hr.symm.trans hr'
      rw [IsNamed, hx, ← hparent, ← hname]
  · rw [if_neg hparent]

/-- In a list of directories by their identifiers, the search comes to the first at
which it stops. -/
theorem findDirectoryIn_cases {l : List (Key × Record)}
    (hread : ∀ e ∈ l, s.get? e.1 = some e.2 ∧ ∃ d, e.1 = .dir d)
    (horder : l.Pairwise fun e f => e.1 < f.1) :
    (findDirectoryIn parent name l = .ok none ∧
        ∀ d, .dir d ∈ l.map (·.1) → ¬ s.StopsAt parent name d) ∨
      ∃ d, s.StopsAt parent name d ∧
        (∀ d', .dir d' ∈ l.map (·.1) → s.StopsAt parent name d' → ¬ d' < d) ∧
          findDirectoryIn parent name l = (s.directory d).map some := by
  induction l with
  | nil => exact .inl ⟨rfl, nofun⟩
  | cons e rest ih =>
    obtain ⟨⟨hr, d, hkey⟩, hrest⟩ := List.forall_mem_cons.1 hread
    obtain ⟨k, r⟩ := e
    subst hkey
    obtain ⟨hfirst, horder⟩ := List.pairwise_cons.1 horder
    by_cases hstop : s.StopsAt parent name d
    · refine .inr ⟨d, hstop, fun d' hd' _ => ?_, findDirectoryIn_of_stopsAt hr hstop⟩
      rcases List.mem_cons.1 hd' with hsame | hlater
      · cases hsame
        exact Uuid.lt_irrefl d
      · obtain ⟨f, hf, hkey⟩ := List.mem_map.1 hlater
        have hlt : d < d' := Key.dir_lt_dir_iff.1 (hkey ▸ hfirst f hf)
        exact fun hback => Uuid.lt_irrefl d (Uuid.lt_trans hlt hback)
    · rw [findDirectoryIn_of_not_stopsAt hr hstop]
      have hpassed : ∀ d', .dir d' ∈ ((Key.dir d, r) :: rest).map (·.1) →
          s.StopsAt parent name d' → .dir d' ∈ rest.map (·.1) := by
        intro d' hd' hstop'
        rcases List.mem_cons.1 hd' with hsame | hlater
        · cases hsame
          exact absurd hstop' hstop
        · exact hlater
      rcases ih hrest horder with ⟨hnone, hgo⟩ | ⟨d₁, hstop₁, hmin, hresult⟩
      · exact .inl ⟨hnone, fun d' hd' hstop' => hgo d' (hpassed d' hd' hstop') hstop'⟩
      · exact .inr ⟨d₁, hstop₁,
          fun d' hd' hstop' => hmin d' (hpassed d' hd' hstop') hstop', hresult⟩

theorem mem_keys_scan_dirs {r : Record} (hr : s.get? (.dir d) = some r) :
    .dir d ∈ (s.scan .dirs).map (·.1) :=
  List.mem_map.2 ⟨(.dir d, r),
    (mem_scan_iff s _).2 ⟨hr, KeyRange.contains_dirs_iff.2 ⟨d, rfl⟩⟩, rfl⟩

theorem StopsAt.exists_get? (h : s.StopsAt parent name d) : ∃ r, s.get? (.dir d) = some r := by
  rcases h with hnamed | ⟨_, _, r, hr, _⟩
  · obtain ⟨r, hr, _⟩ := directory_eq_ok_iff.1 hnamed
    exact ⟨r, hr⟩
  · exact ⟨r, hr⟩

/-- The search comes to nothing if it stops at no directory, and else to the look-up
of the first directory at which it stops. -/
theorem findDirectory_cases (s : Store) (parent : Option DirId) (name : String) :
    (s.findDirectory parent name = .ok none ∧ ∀ d, ¬ s.StopsAt parent name d) ∨
      ∃ d, s.StopsAt parent name d ∧ (∀ d', s.StopsAt parent name d' → ¬ d' < d) ∧
        s.findDirectory parent name = (s.directory d).map some := by
  have hlisted : ∀ d, s.StopsAt parent name d → .dir d ∈ (s.scan .dirs).map (·.1) := by
    intro d hstop
    obtain ⟨r, hr⟩ := hstop.exists_get?
    exact mem_keys_scan_dirs hr
  have hread : ∀ e ∈ s.scan .dirs, s.get? e.1 = some e.2 ∧ ∃ d, e.1 = .dir d := by
    intro e he
    obtain ⟨hr, hkey⟩ := (mem_scan_iff s _).1 he
    exact ⟨hr, KeyRange.contains_dirs_iff.1 hkey⟩
  rcases findDirectoryIn_cases hread (s.pairwise_scan .dirs) with
    ⟨hnone, hgo⟩ | ⟨d, hstop, hmin, hresult⟩
  · exact .inl ⟨hnone, fun d hstop => hgo d (hlisted d hstop) hstop⟩
  · exact .inr ⟨d, hstop, fun d' hstop' => hmin d' (hlisted d' hstop') hstop', hresult⟩

/-- A directory that can be read has its name under its parent found, if and only if
some directory of that name under that parent comes before all records there that
cannot be read; what is found is then such a directory. Else the search fails, as the
look-up of the first of those records does. -/
theorem findDirectory_beside_broken {x : Directory} (h : s.directory d = .ok x) :
    ((∃ y, s.findDirectory x.parent x.name = .ok (some y) ∧ s.directory y.id = .ok y ∧
          y.parent = x.parent ∧ y.name = x.name) ↔
        ∃ a, s.IsNamed x.parent x.name a ∧
          ∀ b e, s.IsBrokenUnder x.parent b e → a < b) ∧
      ((¬ ∃ a, s.IsNamed x.parent x.name a ∧
          ∀ b e, s.IsBrokenUnder x.parent b e → a < b) →
        ∃ b e, s.IsBrokenUnder x.parent b e ∧
          (∀ b' e', s.IsBrokenUnder x.parent b' e' → ¬ b' < b) ∧
          (∀ a, s.IsNamed x.parent x.name a → b < a) ∧
          s.findDirectory x.parent x.name = .error e) := by
  rcases s.findDirectory_cases x.parent x.name with ⟨_, hgo⟩ | ⟨d₁, hstop, hmin, hresult⟩
  · have hnamed : s.IsNamed x.parent x.name d := by
      rw [IsNamed, h, ← id_of_directory h]
    exact absurd (.inl hnamed) (hgo d)
  rcases hstop with hnamed | ⟨e, hbroken⟩
  · have hfound : s.findDirectory x.parent x.name = .ok (some ⟨d₁, x.parent, x.name⟩) := by
      rw [hresult, hnamed]
      rfl
    have hbefore : ∃ a, s.IsNamed x.parent x.name a ∧
        ∀ b e, s.IsBrokenUnder x.parent b e → a < b :=
      ⟨d₁, hnamed, fun b e hb =>
        Uuid.lt_of_ne_of_not_lt (hnamed.ne_of_isBrokenUnder hb) (hmin b (.inr ⟨e, hb⟩))⟩
    exact ⟨iff_of_true ⟨_, hfound, hnamed, rfl, rfl⟩ hbefore, fun hnone => absurd hbefore hnone⟩
  · have hfails : s.findDirectory x.parent x.name = .error e := by
      rw [hresult, hbroken.1]
      rfl
    have hafter : ∀ a, s.IsNamed x.parent x.name a → ¬ a < d₁ := fun a ha => hmin a (.inl ha)
    refine ⟨iff_of_false ?_ ?_, fun _ => ⟨d₁, e, hbroken, fun b' e' hb' => hmin b' (.inr ⟨e', hb'⟩),
      fun a ha => ?_, hfails⟩⟩
    · rintro ⟨y, hy, _⟩
      rw [hfails] at hy
      cases hy
    · rintro ⟨a, ha, hbefore⟩
      exact hafter a ha (hbefore d₁ e hbroken)
    · exact Uuid.lt_of_ne_of_not_lt (ha.ne_of_isBrokenUnder hbroken).symm (hafter a ha)

end Store

namespace Sample

/-- The store of the small run, in which the record of another directory at the top
cannot be read. -/
def flooded (d : DirId) : Store := (start.after creation).store.insert (.dir d) (.plain none .null)

/-- The directory is found if the record that cannot be read comes after it. -/
theorem findDirectory_flooded_after :
    let s := flooded (.ofNat 5)
    s.directory home = .ok ⟨home, none, "home"⟩ ∧
      ∃ y, s.findDirectory none "home" = .ok (some y) ∧ s.directory y.id = .ok y ∧
        y.parent = none ∧ y.name = "home" := by
  intro s
  have hhome : s.directory home = .ok ⟨home, none, "home"⟩ :=
    eq_ok_of_toOption (by decide +kernel)
  have hkeys : ∀ k ∈ SortedMap.keys s, k = .dir home ∨ k = .dir (.ofNat 5) ∨ k.kind ≠ 1 := by
    decide +kernel
  refine ⟨hhome, (Store.findDirectory_beside_broken hhome).1.2 ⟨home, hhome, ?_⟩⟩
  rintro b e ⟨he, r, hr, _⟩
  rcases hkeys _ ((SortedMap.mem_keys_iff s).2 ⟨r, hr⟩) with hb | hb | hb
  · cases hb
    rw [hhome] at he
    cases he
  · cases hb
    decide
  · exact absurd rfl hb

/-- The same record under a smaller identifier hides the directory: a look-up reads it,
and a search for its name fails. -/
theorem findDirectory_flooded_before :
    let s := flooded (.ofNat 0)
    s.directory home = .ok ⟨home, none, "home"⟩ ∧
      ∃ e, s.findDirectory none "home" = .error e ∧ e.code = "METADATA_001" := by
  intro s
  refine ⟨eq_ok_of_toOption (by decide +kernel), ?_⟩
  have hcode : (match s.findDirectory none "home" with
      | .error e => some e.code
      | .ok _ => none) = some "METADATA_001" := by
    decide +kernel
  cases hfound : s.findDirectory none "home" with
  | ok _ =>
    rw [hfound] at hcode
    cases hcode
  | error e =>
    rw [hfound] at hcode
    exact ⟨e, rfl, Option.some.inj hcode⟩

end Sample
end Cadastre
