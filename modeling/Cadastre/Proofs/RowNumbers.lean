/-
# Row numbers are given out once

The head of a table counts the rows that it gave out. An insertion that succeeds
gives out the numbers from the counter on and moves the counter past them.
Nothing else moves it: no deletion, no change of the schema, and no request that
fails or breaks off. So the numbers that a table gives out along a run are 0, 1,
… up to its counter, each of them once; a row that is updated or deleted is one
of them; and at the end of the 64-bit words nothing is given out at all.

Key definitions: `Catalog.insertions`, `Ledgers.nextRow`, `Ledgers.Gives`,
`RowNumbering`.
Key theorems: `Catalog.Holds.gives_of_plan`, `Catalog.Holds.insertions`,
`Catalog.rowNumbering`.
-/
import Cadastre.Proofs.Archive

namespace Cadastre

/-! ### What is given out -/

/-- The numbers of new rows of table `t` in the answer of an operation. -/
def Operation.newRows (t : TableId) : Operation → Outcome → List RowId
  | insertRows u _ _, .rows _ rows => if u = t then rows else []
  | _, _ => []

/-- An operation gives out rows of its own table only. -/
theorem Operation.newRows_of_ne {t : TableId} {op : Operation} (hop : op.table? ≠ some t)
    (o : Outcome) : op.newRows t o = [] := by
  cases op with
  | insertRows u v count =>
    have hu : u ≠ t := fun hu => hop (congrArg some hu)
    cases o <;> simp [newRows, hu]
  | _ => rfl

namespace Catalog

/-- The rows that an attempt inserts into table `t`, if it succeeds. -/
def inserted (c : Catalog) (t : TableId) (a : Attempt) : List RowId :=
  match c.success? a with
  | some (op, o) => op.newRows t o
  | none => []

/-- The rows that the insertions into table `t` answer along a run, in order. -/
def insertions (c : Catalog) (t : TableId) : List Attempt → List RowId
  | [] => []
  | a :: as => c.inserted t a ++ (c.attempt a).insertions t as

theorem inserted_of_failure {c : Catalog} {a : Attempt} (hs : c.success? a = none) (t : TableId) :
    c.inserted t a = [] := by
  rw [inserted, hs]

theorem inserted_of_success {c : Catalog} {a : Attempt} {op : Operation} {o : Outcome}
    (hs : c.success? a = some (op, o)) (t : TableId) : c.inserted t a = op.newRows t o := by
  rw [inserted, hs]

/-! ### Plans -/

section Plans

variable {c : Catalog} {now : Float} {t : TableId} {op : Operation} {p : Plan Outcome}

/-- An insertion answers the numbers from the counter on. -/
theorem newRows_of_insertRows {v : Version} {count : Nat} {x : Table}
    (hp : (Operation.insertRows t v count).plan c now = .ok p) (hx : c.store.table t = .ok x) :
    (Operation.insertRows t v count).newRows t p.result = List.range' x.head.nextRow count := by
  obtain ⟨q, hq, rfl⟩ := map_eq_ok_iff.1 hp
  obtain ⟨y, hy, hq⟩ := bind_eq_ok_iff.1 hq
  obtain ⟨⟨h, rows⟩, hrows, hq⟩ := bind_eq_ok_iff.1 hq
  cases hq
  obtain ⟨hread, _, _⟩ := mutableTable_eq_ok hy
  rw [hx] at hread
  cases hread
  obtain ⟨_, _, hrows⟩ := bind_eq_ok_iff.1 hrows
  split at hrows
  · cases hrows
  · obtain ⟨_, _, hrows⟩ := bind_eq_ok_iff.1 hrows
    cases hrows
    exact if_pos rfl

/-- Rows are inserted while their numbers fit a 64-bit word. -/
theorem lt_of_insertRows {v : Version} {count : Nat}
    (hp : (Operation.insertRows t v count).plan c now = .ok p) :
    ∃ x, c.store.table t = .ok x ∧ x.head.nextRow + count < 2 ^ 64 := by
  cases effect_of_plan hp with
  | foreign hop => cases hop
  | birth hbirth => cases hbirth
  | edit hop _ _ _ _ hedit => cases hedit
  | rows hop hx _ _ hchange =>
    cases hchange with
    | insert _ hcount => exact ⟨_, hx, hcount⟩

/-- Past the last number nothing is inserted, and the error says so. -/
theorem plan_insertRows_exhausted {count : Nat} {x : Table} (hx : c.store.table t = .ok x)
    (htable : x.head.isView = false) (hcount : 2 ^ 64 ≤ x.head.nextRow + count) :
    (Operation.insertRows t x.head.version count).plan c now =
      .error (.catalog (.rowIdsExhausted t count)) := by
  have hlive : x.head.isSnapshot = false := by
    rw [TableHead.isSnapshot, Option.not_isSome_iff_eq_none.1 (Bool.eq_false_iff.1 htable)]
    rfl
  have hmutable : c.mutableTable t x.head.version = .ok x := by
    rw [mutableTable, hx]
    show (if x.head.isSnapshot then _ else _) = _
    rw [hlive, if_neg Bool.false_ne_true, if_neg (not_not.2 rfl)]
  have hinsert : TableHead.insertRows t count { x.head with version := x.head.version + 1 } =
      .error (.catalog (.rowIdsExhausted t count)) := by
    unfold TableHead.insertRows TableHead.requireRows
    show (if x.head.isView then _ else _) >>= _ = _
    rw [htable, if_neg Bool.false_ne_true]
    exact if_pos hcount
  rw [Operation.plan, dataMutation, hmutable]
  show (TableHead.insertRows t count _ >>= _).map _ = _
  rw [hinsert]
  rfl

/-- Rows that are updated or deleted lie below the counter. -/
theorem lt_of_plan {v : Version} {rows : List RowId}
    (hop : op = .updateRows t v rows ∨ op = .deleteRows t v rows) (hp : op.plan c now = .ok p) :
    ∃ x, c.store.table t = .ok x ∧ ∀ r ∈ rows, r < x.head.nextRow := by
  cases effect_of_plan hp with
  | foreign hnone => rcases hop with rfl | rfl <;> cases hnone
  | birth hbirth => rcases hop with rfl | rfl <;> cases hbirth
  | edit _ _ _ _ _ hedit => rcases hop with rfl | rfl <;> cases hedit
  | rows htable hx _ _ hchange =>
    rcases hop with rfl | rfl
    · cases hchange with
      | update hrows => exact ⟨_, hx, hrows⟩
    · cases hchange with
      | delete _ hrows => exact ⟨_, hx, hrows⟩

/-- An operation on another table leaves the head of a table as it is. -/
theorem get?_table_of_plan (hp : op.plan c now = .ok p) (hop : op.table? ≠ some t) (s : Store) :
    (s.write p.writes).get? (.table t) = s.get? (.table t) := by
  rcases writes_of_plan hp with ⟨_, hkeys⟩ | ⟨u, dir, h, schema, htable, hwrites⟩
  · exact Store.get?_write_foreign hkeys rfl
  · have hne : t ≠ u := by
      rintro rfl
      exact hop htable
    rw [hwrites, Store.get?_commit_table, if_neg hne]

end Plans
end Catalog

/-! ### The counter -/

/-- A head is recorded with its counter of rows. -/
theorem TableHead.nextRow_eq_of_toJson {h h' : TableHead} (he : h'.toJson = h.toJson) :
    h'.nextRow = h.nextRow := by
  simp only [toJson, Json.obj.injEq, List.cons.injEq, Prod.mk.injEq, true_and, and_true] at he
  obtain ⟨_, _, _, _, _, hrow, _⟩ := he
  exact Option.some.inj (congrArg Json.nat? hrow)

namespace Ledgers

/-- The number of the next row of a table, and 0 if there is none. -/
def nextRow (σ : Ledgers) (t : TableId) : RowId :=
  ((σ t).map fun l => l.head.nextRow).getD 0

/-- From one point of a run to another one table `t` gives out `rows`: the next
ones, and the counter moves past them. -/
structure Gives (σ σ' : Ledgers) (t : TableId) (rows : List RowId) : Prop where
  rows_eq : rows = List.range' (σ.nextRow t) rows.length
  nextRow_eq : σ'.nextRow t = σ.nextRow t + rows.length
  /-- What is given out fits a 64-bit word. -/
  lt : rows ≠ [] → σ'.nextRow t < 2 ^ 64

namespace Gives

variable {σ σ' σ'' : Ledgers} {t : TableId} {xs ys : List RowId}

theorem nil (h : σ'.nextRow t = σ.nextRow t) : σ.Gives σ' t [] := ⟨rfl, h, fun h => absurd rfl h⟩

theorem next {count : Nat} (h : σ'.nextRow t = σ.nextRow t + count)
    (hcount : σ.nextRow t + count < 2 ^ 64) :
    σ.Gives σ' t (List.range' (σ.nextRow t) count) where
  rows_eq := by rw [List.length_range']
  nextRow_eq := by rw [List.length_range', h]
  lt _ := by
    rw [h]
    exact hcount

theorem append (hx : σ.Gives σ' t xs) (hy : σ'.Gives σ'' t ys) : σ.Gives σ'' t (xs ++ ys) where
  rows_eq :=
    calc xs ++ ys = List.range' (σ.nextRow t) xs.length ++
          List.range' (σ.nextRow t + xs.length) ys.length := by
          rw [← hx.rows_eq, ← hx.nextRow_eq, ← hy.rows_eq]
      _ = List.range' (σ.nextRow t) (xs.length + ys.length) := List.range'_append_1
      _ = List.range' (σ.nextRow t) (xs ++ ys).length := by rw [List.length_append]
  nextRow_eq := by
    rw [hy.nextRow_eq, hx.nextRow_eq, List.length_append, Nat.add_assoc]
  lt hne := by
    cases ys with
    | nil =>
      rw [List.append_nil] at hne
      rw [hy.nextRow_eq]
      exact hx.lt hne
    | cons => exact hy.lt (List.cons_ne_nil _ _)

end Gives
end Ledgers

namespace Store.Holds

variable {s s' : Store} {σ σ' : Ledgers} {t : TableId}

/-- The heads that are recorded are those of the ledgers. -/
theorem get?_table (hs : s.Holds σ) (t : TableId) :
    s.get? (.table t) = (σ t).map fun l => .plain l.dir l.head.toJson := by
  cases hl : σ t with
  | none => exact hs.absent t hl
  | some l => exact hs.head t l hl

/-- The counter is that of the recorded head. -/
theorem nextRow_eq (hs : s.Holds σ) {dir : Option DirId} {h : TableHead}
    (hr : s.get? (.table t) = some (.plain dir h.toJson)) : σ.nextRow t = h.nextRow := by
  rw [hs.get?_table, Option.map_eq_some_iff] at hr
  obtain ⟨l, hl, hrecord⟩ := hr
  rw [Ledgers.nextRow, hl]
  exact TableHead.nextRow_eq_of_toJson (congrArg Record.content hrecord)

/-- A table that has no head gave out nothing. -/
theorem nextRow_of_none (hs : s.Holds σ) (hr : s.get? (.table t) = none) : σ.nextRow t = 0 := by
  rw [hs.get?_table, Option.map_eq_none_iff] at hr
  rw [Ledgers.nextRow, hr]
  rfl

/-- The record of a table is that of a head, which counts its rows. -/
theorem exists_head (hs : s.Holds σ) {r : Record} (hr : s.get? (.table t) = some r) :
    ∃ dir, ∃ h : TableHead, r = .plain dir h.toJson ∧ h.nextRow = σ.nextRow t := by
  have hrecord := hr
  rw [hs.get?_table, Option.map_eq_some_iff] at hr
  obtain ⟨l, _, rfl⟩ := hr
  exact ⟨l.dir, l.head, rfl, (hs.nextRow_eq hrecord).symm⟩

/-- The counter stays where it is while the head does. -/
theorem nextRow_congr (hs : s.Holds σ) (hs' : s'.Holds σ')
    (heq : s'.get? (.table t) = s.get? (.table t)) : σ'.nextRow t = σ.nextRow t := by
  cases hr : s.get? (.table t) with
  | none => rw [hs.nextRow_of_none hr, hs'.nextRow_of_none (heq.trans hr)]
  | some r =>
    obtain ⟨dir, h, rfl, hnext⟩ := hs.exists_head hr
    rw [hs'.nextRow_eq (heq.trans hr), hnext]

/-- The counter of a new version is that of its head. -/
theorem nextRow_commit {dir : Option DirId} {now : Float} {h : TableHead} {schema : Option Schema}
    (hs' : (s.write (commitWrites t dir now h schema)).Holds σ') : σ'.nextRow t = h.nextRow :=
  hs'.nextRow_eq (by rw [get?_commit_table, if_pos rfl])

/-- The counter of a head that can be read is that of the ledger. -/
theorem nextRow_of_table (hs : s.Holds σ) (hσ : ∀ t l, σ t = some l → l.Numbered) {x : Table}
    (hx : s.table t = .ok x) : σ.nextRow t = x.head.nextRow := by
  obtain ⟨l, hl, rfl⟩ := hs.exists_ledger hσ hx
  rw [Ledgers.nextRow, hl]
  rfl

end Store.Holds

/-! ### Runs -/

namespace Catalog.Holds

variable {c : Catalog} {σ σ' : Ledgers} {t : TableId}

/-- A plan that is written gives out the rows that it answers. -/
theorem gives_of_plan (hc : c.Holds σ) {now : Float} {op : Operation} {room : Option Nat}
    {p : Plan Outcome} (hp : op.plan (c.limited room) now = .ok p)
    (hfresh : op.isFresh c.store = true) (hs' : (c.store.write p.writes).Holds σ') :
    σ.Gives σ' t (op.newRows t p.result) := by
  by_cases hop : op.table? = some t
  case neg =>
    rw [Operation.newRows_of_ne hop]
    exact .nil (hc.store.nextRow_congr hs' (get?_table_of_plan hp hop c.store))
  case pos =>
    cases effect_of_plan hp with
    | foreign hnone =>
      rw [hnone] at hop
      cases hop
    | birth hbirth =>
      cases Option.some.inj (hop.symm.trans hbirth.table?_eq)
      dsimp only at hs'
      -- the identifier is fresh, so the counter was 0 as it is now
      have hhead := hs'.nextRow_commit.trans hbirth.head_nextRow
      have hnone := hc.store.nextRow_of_none (hbirth.get?_eq_none hfresh)
      cases hbirth <;> exact .nil (hhead.trans hnone.symm)
    | edit htable hx _ _ _ hedit =>
      cases Option.some.inj (hop.symm.trans htable)
      dsimp only at hs'
      have hhead := hs'.nextRow_commit
      obtain ⟨_, _, hedited⟩ := hedit.head_eq
      rw [hedited] at hhead
      have hsame := hhead.trans (hc.store.nextRow_of_table hc.numbered hx).symm
      cases hedit <;> exact .nil hsame
    | rows htable hx _ _ hchange =>
      cases Option.some.inj (hop.symm.trans htable)
      dsimp only at hs'
      have hhead := hs'.nextRow_commit
      have hcurrent := hc.store.nextRow_of_table hc.numbered hx
      cases hchange with
      | insert _ hcount =>
        have hrows := newRows_of_insertRows hp hx
        rw [← hcurrent] at hhead hcount hrows
        rw [hrows]
        exact .next hhead hcount
      | update => exact .nil (hhead.trans hcurrent.symm)
      | delete => exact .nil (hhead.trans hcurrent.symm)

/-- An attempt gives out the rows that it answers. -/
theorem gives (hc : c.Holds σ) {a : Attempt} (ha : a.action.isFresh c.store = true)
    (hc' : (c.attempt a).Holds σ') : σ.Gives σ' t (c.inserted t a) := by
  have hstore := hc'.store
  have htrial := c.trial hc.unlimited a
  generalize c.attempt a = c' at htrial hstore
  cases htrial with
  | still hs hsame =>
    rw [hsame] at hstore
    rw [inserted_of_failure hs]
    exact .nil (hc.store.nextRow_congr hstore rfl)
  | done haction hp hs =>
    rw [haction] at ha
    rw [inserted_of_success hs]
    exact hc.gives_of_plan hp ha hstore
  | broken haction hp hs hn =>
    rw [haction] at ha
    obtain ⟨_, _, _, _, _, hpart⟩ := hc.step hp ha
    rw [inserted_of_failure hs]
    exact .nil ((hpart _ hn).nextRow_congr hstore rfl)

/-- Along a run a table gives out the rows that its insertions answer. -/
theorem insertions (hc : c.Holds σ) {as : List Attempt} (ha : c.IssuesFresh as) (t : TableId) :
    ∃ σ', (c.afterAttempts as).Holds σ' ∧ σ.Gives σ' t (c.insertions t as) := by
  induction as generalizing c σ with
  | nil => exact ⟨σ, hc, .nil rfl⟩
  | cons a as ih =>
    obtain ⟨σ', hc', _, _⟩ := hc.attempt ha.1
    obtain ⟨σ'', hc'', hlater⟩ := ih hc' ha.2
    exact ⟨σ'', hc'', (hc.gives ha.1 hc').append hlater⟩

end Catalog.Holds

/-- The numbers of the rows that a table gave out, as its catalog goes by them. -/
structure RowNumbering (c : Catalog) (t : TableId) (given : List RowId) : Prop where
  /-- They are 0, 1, … in this order, each of them once. -/
  given_eq : given = List.range given.length
  /-- The next one is that of the head. -/
  nextRow : ∀ x, c.store.table t = .ok x → x.head.nextRow = given.length
  /-- So it is recorded, be the head readable or not. -/
  recorded : ∀ r, c.store.get? (.table t) = some r →
    ∃ dir, ∃ h : TableHead, r = .plain dir h.toJson ∧ h.nextRow = given.length
  /-- A table without a head gave out none. -/
  absent : c.store.get? (.table t) = none → given = []
  /-- The next one fits a 64-bit word. -/
  lt : given.length < 2 ^ 64
  /-- Only rows that were given out are updated or deleted. -/
  mem : ∀ a op o v rows, c.success? a = some (op, o) →
    op = .updateRows t v rows ∨ op = .deleteRows t v rows → ∀ r ∈ rows, r ∈ given
  /-- Past the last number an insertion fails, and nothing changes. -/
  exhausted : ∀ now room v count, 2 ^ 64 ≤ given.length + count →
    c.success? ⟨.perform now (.insertRows t v count), room⟩ = none ∧
      c.attempt ⟨.perform now (.insertRows t v count), room⟩ = c
  /-- The error of one that is not refused otherwise says so. -/
  refusal : ∀ now room x count, c.store.table t = .ok x → x.head.isView = false →
    2 ^ 64 ≤ given.length + count →
      ((c.limited room).perform now (.insertRows t x.head.version count)).1.result =
        .error (.catalog (.rowIdsExhausted t count))

namespace Catalog

/-- Along every run of requests from an empty store the rows that the insertions
into a table answer are numbered from 0 on without a gap. -/
theorem rowNumbering {config : Config} {registry : Registry} {as : List Attempt}
    (ha : (fresh config registry).IssuesFresh as) (t : TableId) :
    RowNumbering ((fresh config registry).afterAttempts as) t
      ((fresh config registry).insertions t as) := by
  obtain ⟨σ, hc, hgives⟩ := (holds_fresh config registry).insertions ha t
  generalize (fresh config registry).afterAttempts as = c at hc
  generalize (fresh config registry).insertions t as = given at hgives
  have hnext : σ.nextRow t = given.length := hgives.nextRow_eq.trans (Nat.zero_add _)
  have hgiven : given = List.range given.length := by
    rw [List.range_eq_range']
    exact hgives.rows_eq
  have hcounter : ∀ x, c.store.table t = .ok x → x.head.nextRow = given.length := fun x hx =>
    (hc.store.nextRow_of_table hc.numbered hx).symm.trans hnext
  constructor
  case given_eq => exact hgiven
  case nextRow => exact hcounter
  case recorded =>
    intro r hr
    obtain ⟨dir, h, hrecord, hcounted⟩ := hc.store.exists_head hr
    exact ⟨dir, h, hrecord, hcounted.trans hnext⟩
  case absent =>
    intro hr
    rw [← List.length_eq_zero_iff, ← hnext]
    exact hc.store.nextRow_of_none hr
  case lt =>
    by_cases hnil : given = []
    · rw [hnil]
      exact Nat.two_pow_pos 64
    · rw [← hnext]
      exact hgives.lt hnil
  case mem =>
    intro a op o v rows hs hop r hr
    obtain ⟨now, p, hp, _⟩ := exists_plan_of_success? hc.unlimited hs
    obtain ⟨x, hx, hlt⟩ := lt_of_plan hop hp
    rw [hgiven, List.mem_range, ← hcounter x hx]
    exact hlt r hr
  case exhausted =>
    intro now room v count hcount
    cases hp : (Operation.insertRows t v count).plan (c.limited room) now with
    | error e => exact attempt_of_plan_error hc.unlimited hp
    | ok p =>
      obtain ⟨x, hx, hlt⟩ := lt_of_insertRows hp
      rw [hcounter x hx] at hlt
      exact absurd hlt (Nat.not_lt_of_le hcount)
  case refusal =>
    intro now room x count hx htable hcount
    rw [← hcounter x hx] at hcount
    have hx' : (c.limited room).store.table t = .ok x := hx
    rw [perform_of_plan_error (plan_insertRows_exhausted hx' htable hcount)]

end Catalog

/-- Rows are inserted twice. Between that a change breaks off, one comes too late,
one row is deleted and a column is dropped; in the end a row is updated that was
not given out. -/
def Sample.census : List Attempt := [
  ⟨.perform 2 (.insertRows people 0 2), none⟩,
  ⟨.perform 3 (.addColumn people 1 { name := "born", type := .string }), some 1⟩,
  ⟨.perform 4 (.deleteRows people 1 [0]), none⟩,
  ⟨.perform 5 (.insertRows people 1 10), none⟩,
  ⟨.perform 6 (.dropColumn people 2 "nick"), none⟩,
  ⟨.perform 7 (.insertRows people 3 3), none⟩,
  ⟨.perform 8 (.updateRows people 4 [5]), none⟩]

/-- The row that is deleted and the insertion that comes too late leave no gap. -/
theorem Sample.rowNumbering_people :
    Sample.start.IssuesFresh (Sample.founding ++ Sample.census) ∧
      Sample.start.insertions Sample.people (Sample.founding ++ Sample.census) =
        [0, 1, 2, 3, 4] ∧
      RowNumbering (Sample.start.afterAttempts (Sample.founding ++ Sample.census)) Sample.people
        (Sample.start.insertions Sample.people (Sample.founding ++ Sample.census)) := by
  have ha : Sample.start.IssuesFresh (Sample.founding ++ Sample.census) := by decide +kernel
  have hgiven : Sample.start.insertions Sample.people (Sample.founding ++ Sample.census) =
      [0, 1, 2, 3, 4] := by decide +kernel
  exact ⟨ha, hgiven, Catalog.rowNumbering ha Sample.people⟩

end Cadastre
