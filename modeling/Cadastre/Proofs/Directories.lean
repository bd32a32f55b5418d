/-
# The tree of directories

A directory is created at the top or under one that exists, and nothing moves it.
So every directory is rooted: it exists, and so do all above it up to the top. No
rooted directory is above itself, and the walk up from it, which passes no directory
twice, ends at the top before it runs out of steps.

Key definitions: `Store.Rooted`, `Store.IsUnder`, `Store.DirsRooted`.
Key theorems: `Store.Rooted.not_under_self`, `Store.DirsRooted.exists_directoryPath`,
`Store.DirsRooted.insert`.
-/
import Cadastre.Proofs.Clean
import Cadastre.Proofs.RoundTrip.Records
import Cadastre.Proofs.Scan
import Mathlib.Data.List.Perm.Subperm
import Mathlib.Logic.Relation

namespace Cadastre

open Relation

namespace Store

variable {s s' : Store} {d p : DirId}

theorem directory_eq_ok_iff {x : Directory} : s.directory d = .ok x ↔
    ∃ r, s.get? (.dir d) = some r ∧ ∃ i : DirInfo,
      Payload.decode (.dir d) r.content = .ok i ∧ x = ⟨d, r.dir, i.name⟩ := by
  unfold directory read?
  cases hr : s.get? (.dir d) with
  | none => simp
  | some r =>
    cases hd : (Payload.decode (.dir d) r.content : Except Error DirInfo) <;>
      simp [hd, Except.map, eq_comm]

theorem id_of_directory {x : Directory} (h : s.directory d = .ok x) : x.id = d := by
  obtain ⟨_, _, _, _, rfl⟩ := directory_eq_ok_iff.1 h
  rfl

/-! ### Directories above -/

/-- A directory exists, and so do all above it up to the top. -/
inductive Rooted (s : Store) : DirId → Prop
  | top {d : DirId} {name : String} (h : s.directory d = .ok ⟨d, none, name⟩) : Rooted s d
  | under {d p : DirId} {name : String} (h : s.directory d = .ok ⟨d, some p, name⟩)
      (hp : Rooted s p) : Rooted s d

/-- A directory that exists has `p` as its parent. -/
def IsUnder (s : Store) (d p : DirId) : Prop := ∃ x, s.directory d = .ok x ∧ x.parent = some p

/-- All directories are rooted. -/
def DirsRooted (s : Store) : Prop := ∀ d r, s.get? (.dir d) = some r → s.Rooted d

theorem Rooted.exists_directory (h : s.Rooted d) : ∃ x, s.directory d = .ok x := by
  cases h with
  | top h => exact ⟨_, h⟩
  | under h _ => exact ⟨_, h⟩

/-- The parent is what the directory says. -/
theorem IsUnder.eq_parent (h : s.IsUnder d p) {x : Directory} (hx : s.directory d = .ok x) :
    x.parent = some p := by
  obtain ⟨y, hy, hp⟩ := h
  rw [hx] at hy
  cases hy
  exact hp

/-- No rooted directory is above itself. -/
theorem Rooted.not_under_self (h : s.Rooted d) : ¬ TransGen s.IsUnder d d := by
  induction h with
  | top h =>
    intro hcycle
    obtain ⟨p, hp, _⟩ := TransGen.head'_iff.1 hcycle
    cases hp.eq_parent h
  | under h _ ih =>
    intro hcycle
    obtain ⟨p, hp, hrest⟩ := TransGen.head'_iff.1 hcycle
    cases hp.eq_parent h
    -- the way around leads from the parent to itself as well
    exact ih (TransGen.tail' hrest hp)

/-- Different directories that exist are no more than the records. -/
theorem length_le_size {ds : List DirId} (hnodup : ds.Nodup)
    (h : ∀ d ∈ ds, ∃ x, s.directory d = .ok x) : ds.length ≤ s.size := by
  have hsub : ds.map Key.dir ⊆ s.keys := by
    intro k hk
    obtain ⟨d, hd, rfl⟩ := List.mem_map.1 hk
    obtain ⟨x, hx⟩ := h d hd
    obtain ⟨r, hr, _⟩ := directory_eq_ok_iff.1 hx
    exact (SortedMap.mem_keys_iff s).2 ⟨r, hr⟩
  have hkeys : (ds.map Key.dir).Nodup :=
    List.pairwise_map.2 (hnodup.imp fun hne heq => hne (Key.dir.inj heq))
  simpa [SortedMap.keys, SortedMap.size] using (List.subperm_of_subset hkeys hsub).length_le

/-- The walk up from a rooted directory, which came from below it, ends at the top. -/
theorem Rooted.exists_pathFrom (h : s.Rooted d) {start : DirId} {steps : Nat}
    {visited : List DirId} (hbelow : ∀ v ∈ visited, TransGen s.IsUnder v d)
    (hnodup : visited.Nodup) (hsteps : s.size < visited.length + steps) :
    ∃ path, s.pathFrom start steps visited d = .ok path := by
  have hexists : ∀ v ∈ visited, ∃ x, s.directory v = .ok x := by
    intro v hv
    obtain ⟨p, ⟨x, hx, _⟩, _⟩ := TransGen.head'_iff.1 (hbelow v hv)
    exact ⟨x, hx⟩
  have hlength := length_le_size hnodup hexists
  induction h generalizing steps visited with
  | top h =>
    obtain ⟨steps, rfl⟩ : ∃ n, steps = n + 1 := ⟨steps - 1, by omega⟩
    have hnew : _ ∉ visited := fun hv => (Rooted.top h).not_under_self (hbelow _ hv)
    rw [pathFrom, if_neg hnew, h]
    exact ⟨_, rfl⟩
  | @under d p name h hp ih =>
    obtain ⟨steps, rfl⟩ : ∃ n, steps = n + 1 := ⟨steps - 1, by omega⟩
    have hnew : d ∉ visited := fun hv => (Rooted.under h hp).not_under_self (hbelow d hv)
    have hup : s.IsUnder d p := ⟨_, h, rfl⟩
    have hbelow' : ∀ v ∈ d :: visited, TransGen s.IsUnder v p := by
      intro v hv
      rcases List.mem_cons.1 hv with rfl | hv
      · exact .single hup
      · exact (hbelow v hv).tail hup
    have hexists' : ∀ v ∈ d :: visited, ∃ x, s.directory v = .ok x :=
      List.forall_mem_cons.2 ⟨⟨_, h⟩, hexists⟩
    have hnodup' : (d :: visited).Nodup := List.nodup_cons.2 ⟨hnew, hnodup⟩
    have hsteps' : s.size < (d :: visited).length + steps := by
      rw [List.length_cons]
      omega
    obtain ⟨path, hpath⟩ := ih hbelow' hnodup' hsteps' hexists' (length_le_size hnodup' hexists')
    rw [pathFrom, if_neg hnew, h]
    exact ⟨path ++ [name], map_eq_ok_iff.2 ⟨path, hpath, rfl⟩⟩

/-! ### Look-ups of directories -/

namespace DirsRooted

theorem rooted (hs : s.DirsRooted) {x : Directory} (hx : s.directory d = .ok x) : s.Rooted d := by
  obtain ⟨r, hr, _⟩ := directory_eq_ok_iff.1 hx
  exact hs d r hr

/-- No directory is above itself. -/
theorem not_under_self (hs : s.DirsRooted) (d : DirId) : ¬ TransGen s.IsUnder d d := by
  intro hcycle
  obtain ⟨p, ⟨x, hx, _⟩, _⟩ := TransGen.head'_iff.1 hcycle
  exact (hs.rooted hx).not_under_self hcycle

theorem exists_parent (hs : s.DirsRooted) {x : Directory} (hx : s.directory d = .ok x)
    (hp : x.parent = some p) : ∃ y, s.directory p = .ok y := by
  cases hs.rooted hx with
  | top h =>
    rw [hx] at h
    cases h
    cases hp
  | under h hparent =>
    rw [hx] at h
    cases h
    cases hp
    exact hparent.exists_directory

/-- The path of a directory that exists is found. -/
theorem exists_directoryPath (hs : s.DirsRooted) {x : Directory} (hx : s.directory d = .ok x) :
    ∃ path, s.directoryPath d = .ok path :=
  (hs.rooted hx).exists_pathFrom nofun .nil (by simp)

/-- The record of a directory is read back. -/
theorem exists_decode (hs : s.DirsRooted) {r : Record} (hr : s.get? (.dir d) = some r) :
    ∃ i : DirInfo, Payload.decode (.dir d) r.content = .ok i := by
  obtain ⟨x, hx⟩ := (hs d r hr).exists_directory
  obtain ⟨r', hr', i, hi, _⟩ := directory_eq_ok_iff.1 hx
  rw [hr] at hr'
  cases hr'
  exact ⟨i, hi⟩

theorem clean_directory (hs : s.DirsRooted) (d : DirId) : Clean (s.directory d) := by
  cases hr : s.get? (.dir d) with
  | none =>
    unfold directory read?
    rw [hr]
    exact clean_error rfl
  | some r =>
    obtain ⟨x, hx⟩ := (hs d r hr).exists_directory
    exact clean_of_eq_ok hx

theorem clean_directoryPath (hs : s.DirsRooted) (d : DirId) : Clean (s.directoryPath d) := by
  cases hd : s.directory d with
  | error e =>
    have herror : s.directoryPath d = .error e := by
      rw [directoryPath, pathFrom, if_neg List.not_mem_nil, hd]
    exact herror ▸ clean_error (hs.clean_directory d e hd)
  | ok x =>
    obtain ⟨path, hpath⟩ := hs.exists_directoryPath hd
    exact clean_of_eq_ok hpath

/-- Every search among the directories goes through. -/
theorem exists_findDirectory (hs : s.DirsRooted) (parent : Option DirId) (name : String) :
    ∃ found, s.findDirectory parent name = .ok found := by
  have hread : ∀ e ∈ s.scan .dirs, ∀ d, e.1 = .dir d →
      ∃ i : DirInfo, Payload.decode (.dir d) e.2.content = .ok i := by
    rintro ⟨k, r⟩ he d rfl
    exact hs.exists_decode ((mem_scan_iff s _).1 he).1
  unfold findDirectory
  generalize s.scan .dirs = l at hread
  induction l with
  | nil => exact ⟨none, rfl⟩
  | cons e rest ih =>
    have ih := ih fun e he => hread e (List.mem_cons_of_mem _ he)
    obtain ⟨k, r⟩ := e
    cases k with
    | dir d =>
      obtain ⟨i, hi⟩ := hread _ List.mem_cons_self d rfl
      unfold findDirectoryIn
      rw [hi]
      dsimp only
      split
      · split
        · exact ⟨_, rfl⟩
        · exact ih
      · exact ih
    | _ => exact ih

end DirsRooted

/-! ### Writing directories -/

/-- A directory stays as it is if its record does. -/
theorem directory_congr (h : s'.get? (.dir d) = s.get? (.dir d)) :
    s'.directory d = s.directory d := by
  unfold directory read?
  rw [h]

/-- Directories stay rooted if all that exist stay as they are. -/
theorem Rooted.mono (h : s.Rooted d)
    (hkeep : ∀ d r, s.get? (.dir d) = some r → s'.get? (.dir d) = some r) : s'.Rooted d := by
  have hsame : ∀ {d x}, s.directory d = .ok x → s'.directory d = .ok x := by
    intro d x hx
    obtain ⟨r, hr, _⟩ := directory_eq_ok_iff.1 hx
    rw [directory_congr ((hkeep d r hr).trans hr.symm), hx]
  induction h with
  | top h => exact .top (hsame h)
  | under h _ ih => exact .under (hsame h) ih

/-- The directories of stores with the same records of them are rooted alike. -/
theorem DirsRooted.congr (hs : s.DirsRooted) (h : ∀ d, s'.get? (.dir d) = s.get? (.dir d)) :
    s'.DirsRooted :=
  fun d r hr => (hs d r ((h d).symm.trans hr)).mono fun d _ hr => (h d).trans hr

/-- A new directory at the top or under one that exists is rooted, and the others
stay so. -/
theorem DirsRooted.insert (hs : s.DirsRooted) (hnew : s.get? (.dir d) = none)
    {parent : Option DirId} (hparent : ∀ p ∈ parent, ∃ x, s.directory p = .ok x) (name : String) :
    DirsRooted (SortedMap.insert s (.dir d)
      (.plain parent (Payload.toJson (DirInfo.mk name)))) := by
  intro d' r hr
  have hkeep : ∀ e r, s.get? (.dir e) = some r → (SortedMap.insert s (.dir d)
      (.plain parent (Payload.toJson (DirInfo.mk name)))).get? (.dir e) = some r := by
    intro e r hr
    have hne : Key.dir e ≠ .dir d := by
      rintro heq
      rw [heq, hnew] at hr
      cases hr
    rw [SortedMap.get?_insert, if_neg hne, hr]
  by_cases hd : d' = d
  · subst hd
    have hself : directory (SortedMap.insert s (.dir d')
        (.plain parent (Payload.toJson (DirInfo.mk name)))) d' = .ok ⟨d', parent, name⟩ :=
      directory_eq_ok_iff.2 ⟨_, by rw [SortedMap.get?_insert, if_pos rfl], _,
        DirInfo.decode_toJson ⟨name⟩, rfl⟩
    cases parent with
    | none => exact .top hself
    | some p =>
      obtain ⟨x, hx⟩ := hparent p rfl
      obtain ⟨r, hr, _⟩ := directory_eq_ok_iff.1 hx
      exact .under hself ((hs p r hr).mono hkeep)
  · rw [SortedMap.get?_insert, if_neg (by simpa using hd)] at hr
    exact (hs d' r hr).mono hkeep

end Store
end Cadastre
