/-
# Where the way up from a directory ends

Whatever the directories of a store are, the way up from one of them ends, since it
passes no directory twice and there are only so many. It ends beyond the top, at a
directory that it has passed before, or at one that cannot be read, and the path of
the directory says which (`Store.directoryPath_eq_iff`). In the stores that a catalog
makes it ends beyond the top, and a directory's path goes on from its parent's.

Key definitions: `Store.Climb`, `Store.PathEnd`, `Catalog.IssuesDirectories`.
Key theorems: `Store.Climb.pathFrom_eq`, `Store.directoryPath_eq_iff`,
`Catalog.dirsRooted_afterAttempts`, `Catalog.directoryPaths`.
-/
import Cadastre.Proofs.Atomicity
import Cadastre.Proofs.Directories

namespace Cadastre

/-! ### The way up -/

namespace Store

variable {s : Store} {d p : DirId} {x : Directory} {xs : List Directory} {q : Option DirId}

/-- The way up from `d` has passed the directories `xs`, the last one first, and
leads to the next one, or beyond the top. -/
inductive Climb (s : Store) (d : DirId) : List Directory → Option DirId → Prop
  | start : Climb s d [] (some d)
  | up {xs : List Directory} {p : DirId} {x : Directory} {q : Option DirId}
      (h : Climb s d xs (some p)) (hx : s.directory p = .ok x) (hq : x.parent = q) :
      Climb s d (x :: xs) q

/-- No directory is passed twice. -/
def AllNew (xs : List Directory) : Prop := (xs.map Directory.id).Nodup

/-- The error at a directory that the way up from `start` passed before. -/
def ownAncestor (start d : DirId) : Error :=
  .catalog (.invalidRecord (.dir start) ("directory " ++ d.text ++ " is its own ancestor"))

/-- What comes of the way up from `d`, at the first directory where it does not go on. -/
inductive PathEnd (s : Store) (d : DirId) : Except Error (List String) → Prop
  | top {xs : List Directory} (h : s.Climb d xs none) (hnew : AllNew xs) :
      PathEnd s d (.ok (xs.map Directory.name))
  | repeated {xs : List Directory} {p : DirId} (h : s.Climb d xs (some p)) (hnew : AllNew xs)
      (hp : p ∈ xs.map Directory.id) : PathEnd s d (.error (ownAncestor d p))
  | unreadable {xs : List Directory} {p : DirId} {e : Error} (h : s.Climb d xs (some p))
      (hnew : AllNew xs) (hp : p ∉ xs.map Directory.id) (he : s.directory p = .error e) :
      PathEnd s d (.error e)

theorem AllNew.cons (hx : s.directory p = .ok x) (hp : p ∉ xs.map Directory.id) (h : AllNew xs) :
    AllNew (x :: xs) := by
  rw [AllNew, List.map_cons, id_of_directory hx]
  exact List.nodup_cons.2 ⟨hp, h⟩

namespace Climb

theorem exists_directory (h : s.Climb d xs q) :
    ∀ p ∈ xs.map Directory.id, ∃ x, s.directory p = .ok x := by
  induction h with
  | start => exact nofun
  | up _ hx _ ih =>
    rw [List.map_cons, id_of_directory hx]
    exact List.forall_mem_cons.2 ⟨⟨_, hx⟩, ih⟩

/-- A way that passes no directory twice is no longer than there are records. -/
theorem length_le (h : s.Climb d xs q) (hnew : AllNew xs) : xs.length ≤ s.size := by
  have hle := length_le_size hnew h.exists_directory
  rwa [List.length_map] at hle

/-- The walk ends at a directory at the top. -/
theorem pathFrom_top {start : DirId} {steps : Nat} {visited : List DirId} (hp : p ∉ visited)
    (hx : s.directory p = .ok x) (htop : x.parent = none) :
    s.pathFrom start (steps + 1) visited p = .ok [x.name] := by
  rw [pathFrom, if_neg hp, hx]
  simp only [htop]

/-- The walk goes on from a directory to its parent. -/
theorem pathFrom_under {start p' : DirId} {steps : Nat} {visited : List DirId}
    (hp : p ∉ visited) (hx : s.directory p = .ok x) (hparent : x.parent = some p') :
    s.pathFrom start (steps + 1) visited p =
      (s.pathFrom start steps (p :: visited) p').map (· ++ [x.name]) := by
  rw [pathFrom, if_neg hp, hx]
  simp only [hparent]

/-- Once the walk has passed some directories, what is left of it is the walk on from
there, and their names come last. -/
theorem pathFrom_eq (h : s.Climb d xs (some p)) (hnew : AllNew xs) (steps : Nat) :
    s.pathFrom d (xs.length + steps) [] d =
      (s.pathFrom d steps (xs.map Directory.id) p).map (· ++ xs.map Directory.name) := by
  generalize hq : some p = q at h
  induction h generalizing p steps with
  | start =>
    cases hq
    cases hpath : s.pathFrom d steps [] d <;> simp [hpath, Except.map]
  | @up xs p' x q h hx hparent ih =>
    obtain ⟨hp', hnew⟩ := List.nodup_cons.1 hnew
    have hid := id_of_directory hx
    rw [hid] at hp'
    have hstep : s.pathFrom d (steps + 1) (xs.map Directory.id) p' =
        (s.pathFrom d steps (p' :: xs.map Directory.id) p).map (· ++ [x.name]) :=
      pathFrom_under hp' hx (hparent.trans hq.symm)
    have hlength : (x :: xs).length + steps = xs.length + (steps + 1) := by
      rw [List.length_cons]
      omega
    rw [hlength, ih hnew (steps + 1) rfl, hstep, List.map_cons, List.map_cons, hid]
    cases s.pathFrom d steps (p' :: xs.map Directory.id) p <;> simp [Except.map]

/-- The way up from a directory starts with it and goes on as that of its parent. -/
theorem cases_start (h : s.Climb d xs q) (hx : s.directory d = .ok x) :
    (xs = [] ∧ q = some d) ∨ ∃ ys, xs = ys ++ [x] ∧
      ((ys = [] ∧ q = x.parent) ∨ ∃ p, x.parent = some p ∧ s.Climb p ys q) := by
  induction h with
  | start => exact .inl ⟨rfl, rfl⟩
  | up h hy hq ih =>
    right
    rcases ih with ⟨rfl, hd⟩ | ⟨ys, rfl, ⟨rfl, hp⟩ | ⟨p', hp', hclimb⟩⟩
    · cases hd
      rw [hx] at hy
      cases hy
      exact ⟨[], rfl, .inl ⟨rfl, hq.symm⟩⟩
    · exact ⟨[_], rfl, .inr ⟨_, hp.symm, .up .start hy hq⟩⟩
    · exact ⟨_ :: ys, rfl, .inr ⟨p', hp', hclimb.up hy hq⟩⟩

end Climb

/-! ### The path -/

/-- With enough steps the walk finds what the way up comes to. -/
theorem PathEnd.pathFrom_eq {r : Except Error (List String)} (h : s.PathEnd d r) {steps : Nat}
    (hsteps : s.size < steps) : s.pathFrom d steps [] d = r := by
  cases h with
  | @top xs h hnew =>
    have hle := h.length_le hnew
    cases h with
    | @up xs p x _ h hx hparent =>
      obtain ⟨hp, hrest⟩ := List.nodup_cons.1 hnew
      rw [id_of_directory hx] at hp
      obtain ⟨more, rfl⟩ : ∃ n, steps = xs.length + (n + 1) :=
        ⟨steps - xs.length - 1, by rw [List.length_cons] at hle; omega⟩
      rw [h.pathFrom_eq hrest, Climb.pathFrom_top hp hx hparent]
      rfl
  | @repeated xs p h hnew hp =>
    have hle := h.length_le hnew
    obtain ⟨more, rfl⟩ : ∃ n, steps = xs.length + (n + 1) := ⟨steps - xs.length - 1, by omega⟩
    rw [h.pathFrom_eq hnew, pathFrom, if_pos hp]
    rfl
  | @unreadable xs p e h hnew hp he =>
    have hle := h.length_le hnew
    obtain ⟨more, rfl⟩ : ∃ n, steps = xs.length + (n + 1) := ⟨steps - xs.length - 1, by omega⟩
    rw [h.pathFrom_eq hnew, pathFrom, if_neg hp, he]
    rfl

/-- The way up has come to its end, or it goes on past any number of directories. -/
theorem exists_pathEnd_or_climb (s : Store) (d : DirId) (n : Nat) :
    (∃ r, s.PathEnd d r) ∨
      ∃ xs p, s.Climb d xs (some p) ∧ AllNew xs ∧ xs.length = n := by
  induction n with
  | zero => exact .inr ⟨[], d, .start, List.nodup_nil, rfl⟩
  | succ n ih =>
    rcases ih with hend | ⟨xs, p, h, hnew, hlength⟩
    · exact .inl hend
    by_cases hp : p ∈ xs.map Directory.id
    · exact .inl ⟨_, .repeated h hnew hp⟩
    cases hx : s.directory p with
    | error e => exact .inl ⟨_, .unreadable h hnew hp hx⟩
    | ok x =>
      have hnew' := hnew.cons hx hp
      cases hparent : x.parent with
      | none => exact .inl ⟨_, .top (h.up hx hparent) hnew'⟩
      | some p' => exact .inr ⟨x :: xs, p', h.up hx hparent, hnew', by rw [List.length_cons, hlength]⟩

/-- The way up always comes to an end. -/
theorem exists_pathEnd (s : Store) (d : DirId) : ∃ r, s.PathEnd d r := by
  rcases s.exists_pathEnd_or_climb d (s.size + 1) with hend | ⟨xs, p, h, hnew, hlength⟩
  · exact hend
  · have hle := h.length_le hnew
    omega

/-- The path of a directory is what the way up from it comes to. -/
theorem directoryPath_eq_iff {r : Except Error (List String)} :
    s.directoryPath d = r ↔ s.PathEnd d r := by
  constructor
  · rintro rfl
    obtain ⟨r, hr⟩ := s.exists_pathEnd d
    rw [directoryPath, hr.pathFrom_eq (Nat.lt_succ_self _)]
    exact hr
  · exact fun h => h.pathFrom_eq (Nat.lt_succ_self _)

/-- More steps than there are records make no difference. -/
theorem pathFrom_of_size_lt (d : DirId) {steps : Nat} (h : s.size < steps) :
    s.pathFrom d steps [] d = s.directoryPath d :=
  (directoryPath_eq_iff.1 rfl).pathFrom_eq h

/-- The path of a directory at the top is its name; that of another one goes on from
the path of its parent. -/
theorem directoryPath_of_parent {path : List String} (h : s.directoryPath d = .ok path)
    (hx : s.directory d = .ok x) :
    (x.parent = none → path = [x.name]) ∧ ∀ p, x.parent = some p →
      ∃ above, s.directoryPath p = .ok above ∧ path = above ++ [x.name] := by
  cases directoryPath_eq_iff.1 h with
  | @top xs hclimb hnew =>
    rcases hclimb.cases_start hx with ⟨_, hq⟩ | ⟨ys, rfl, ⟨rfl, htop⟩ | ⟨p, hp, hrest⟩⟩
    · cases hq
    · refine ⟨fun _ => rfl, fun p hp => ?_⟩
      rw [hp] at htop
      cases htop
    · rw [hp]
      refine ⟨nofun, fun p' hp' => ?_⟩
      cases hp'
      have hnew' : AllNew ys := by
        rw [AllNew, List.map_append] at hnew
        exact (List.nodup_append.1 hnew).1
      exact ⟨_, directoryPath_eq_iff.2 (.top hrest hnew'), List.map_append⟩

end Store

/-! ### Runs of a catalog -/

/-- A new directory comes under an identifier that none has. -/
def Operation.issuesDirectory (s : Store) (op : Operation) : Bool :=
  op.directory?.all fun id => (s.get? (.dir id)).isNone

def Action.issuesDirectory (s : Store) : Action → Bool
  | .perform _ op => op.issuesDirectory s
  | .register _ => true

namespace Catalog

/-- New directories come under identifiers that no directory has when they are
created. -/
def IssuesDirectories (c : Catalog) : List Attempt → Prop
  | [] => True
  | a :: as => a.action.issuesDirectory c.store = true ∧ (c.attempt a).IssuesDirectories as

instance decidableIssuesDirectories (c : Catalog) :
    (as : List Attempt) → Decidable (c.IssuesDirectories as)
  | [] => inferInstanceAs (Decidable True)
  | a :: as =>
    have := decidableIssuesDirectories (c.attempt a) as
    inferInstanceAs (Decidable (_ ∧ _))

variable {c : Catalog}

/-- What an operation that succeeds writes keeps the directories rooted. -/
theorem dirsRooted_write (hs : c.store.DirsRooted) {now : Float} {op : Operation}
    {p : Plan Outcome} (hp : op.plan c now = .ok p) (hnew : op.issuesDirectory c.store = true) :
    (c.store.write p.writes).DirsRooted := by
  rcases hop : op.table? with _ | t
  · have heffect := foreignEffect_of_plan hop hp
    generalize p.writes = ws at heffect
    cases heffect with
    | nothing => exact hs
    | system => exact hs.congr fun d => Store.get?_write_of_notMem (by simp)
    | @directory _ id parent name hid hparent =>
      have hnone : c.store.get? (.dir id) = none := by
        rw [Operation.issuesDirectory, hid] at hnew
        exact Option.isNone_iff_eq_none.1 hnew
      exact hs.insert hnone hparent name
    | function => exact hs.congr fun d => Store.get?_write_of_notMem (by simp)
  · refine hs.congr fun d => Store.get?_write_of_notMem fun w hw hkey => ?_
    have hnone := table?_eq_none_of_isForeign hp hw (hkey ▸ rfl)
    rw [hop] at hnone
    cases hnone

/-- An attempt, carried out or broken off, keeps the directories rooted. -/
theorem dirsRooted_attempt (hc : c.writesLeft = none) (hs : c.store.DirsRooted) {a : Attempt}
    (hnew : a.action.issuesDirectory c.store = true) :
    (c.attempt a).store.DirsRooted ∧ (c.attempt a).writesLeft = none := by
  have htrial := c.trial hc a
  generalize c.attempt a = c' at htrial
  cases htrial with
  | still _ hstore hleft => exact ⟨hstore ▸ hs, hleft⟩
  | done ha hp =>
    rw [ha] at hnew
    exact ⟨dirsRooted_write (c := c.limited a.room) hs hp hnew, hc⟩
  | broken _ hp _ hn =>
    -- a plan that breaks off has written records of one table only
    refine ⟨hs.congr fun d => Store.get?_write_of_notMem fun w hw hkey => ?_, hc⟩
    obtain ⟨t, _, hversion⟩ := isVersionOf_of_mem_take hp hn hw
    rw [hkey] at hversion
    cases hversion

/-- Along a run the directories stay rooted. -/
theorem dirsRooted_afterAttempts (hc : c.writesLeft = none) (hs : c.store.DirsRooted)
    {as : List Attempt} (hnew : c.IssuesDirectories as) :
    (c.afterAttempts as).store.DirsRooted := by
  induction as generalizing c with
  | nil => exact hs
  | cons a as ih =>
    obtain ⟨hs', hc'⟩ := dirsRooted_attempt hc hs hnew.1
    exact ih hc' hs' hnew.2

/-- In any store the path of a directory is what the way up from it comes to: the
names from the top if it gets there, the error `METADATA_002` at the first directory
that it passes again, and the error of the first that cannot be read. The way passes
no more directories than there are records, and a walk of more steps finds the same.
In a store that a catalog made, every directory has a path, which is its name at the
top, and elsewhere the path of its parent with its name. -/
theorem directoryPaths :
    (∀ (s : Store) (d : DirId),
      (∀ r, s.directoryPath d = r ↔ s.PathEnd d r) ∧
      (∀ p, (Store.ownAncestor d p).code = "METADATA_002") ∧
      (∀ xs q, s.Climb d xs q → Store.AllNew xs → xs.length ≤ s.size) ∧
      ∀ steps, s.size < steps → s.pathFrom d steps [] d = s.directoryPath d) ∧
    ∀ (config : Config) (registry : Registry) (as : List Attempt),
      (fresh config registry).IssuesDirectories as →
      let s := ((fresh config registry).afterAttempts as).store
      ∀ d, s.get? (.dir d) ≠ none →
        ∃ x path, s.directory d = .ok x ∧ s.directoryPath d = .ok path ∧
          (x.parent = none → path = [x.name]) ∧ ∀ p, x.parent = some p →
            ∃ above, s.directoryPath p = .ok above ∧ path = above ++ [x.name] := by
  refine ⟨fun s d => ⟨fun r => Store.directoryPath_eq_iff, fun p => rfl,
    fun xs q h hnew => h.length_le hnew, fun steps => s.pathFrom_of_size_lt d⟩, ?_⟩
  intro config registry as hnew s d hd
  have hrooted : s.DirsRooted := dirsRooted_afterAttempts rfl (fun _ _ hr => by cases hr) hnew
  obtain ⟨r, hr⟩ := Option.ne_none_iff_exists'.1 hd
  obtain ⟨x, hx⟩ := (hrooted d r hr).exists_directory
  obtain ⟨path, hpath⟩ := hrooted.exists_directoryPath hx
  exact ⟨x, path, hx, hpath, Store.directoryPath_of_parent hpath hx⟩

end Catalog

namespace Sample

def attic : DirId := .ofNat 7

/-- A directory is created in the first one, after a change that broke off. -/
def extension : List Attempt := founding ++ mishap ++
  [⟨.perform 6 (.createDirectory attic (some home) "attic"), none⟩]

/-- The path of the new directory goes on from that of the first. -/
theorem directoryPaths_attic :
    let s := (start.afterAttempts extension).store
    start.IssuesDirectories extension ∧ s.get? (.dir attic) ≠ none ∧
      ∃ above, s.directoryPath home = .ok above ∧
        s.directoryPath attic = .ok (above ++ ["attic"]) := by
  have hnew : start.IssuesDirectories extension := by decide +kernel
  have hsome : (start.afterAttempts extension).store.get? (.dir attic) ≠ none := by
    decide +kernel
  have hname : ((start.afterAttempts extension).store.directory attic).toOption =
      some ⟨attic, some home, "attic"⟩ := by
    decide +kernel
  obtain ⟨x, path, hx, hpath, _, hunder⟩ :=
    Catalog.directoryPaths.2 {} .empty extension hnew attic hsome
  obtain rfl := Except.ok.inj (hx.symm.trans (eq_ok_of_toOption hname))
  obtain ⟨above, habove, rfl⟩ := hunder home rfl
  exact ⟨hnew, hsome, above, habove, hpath⟩

end Sample
end Cadastre
