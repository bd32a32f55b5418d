/-
# Tables do not interfere

A mutation writes records of its own table only (`Catalog.get?_perform_of_ne`),
and what it answers and writes depends on no record of a table that is neither
its own nor a base of it (`Catalog.perform_of_sameBut`), whether that table's
records decode or not. So other tables may change at will without any read or
mutation of a table noticing, and mutations of two tables with neither among the
bases of the other can be swapped: they answer the same and leave the same store,
but for the times at which the versions were created (`Catalog.independence`).

Key definitions: `Store.Redated`, `Store.SameButTimes`.
Key theorems: `Catalog.get?_perform_of_ne`, `Catalog.perform_of_sameBut`,
`Catalog.independence`.
-/
import Cadastre.Proofs.Interruption
import Cadastre.Proofs.Separation

namespace Cadastre

namespace Store

/-- The same record, or none; or one data version, as created at two times. -/
inductive Redated (now now' : Float) : Option Record → Option Record → Prop
  | same (r : Option Record) : Redated now now' r r
  | version (v : Version) (k : SchemaVersion) :
      Redated now now' (some (.plain none (DataVersion.toJson ⟨now, v, k⟩)))
        (some (.plain none (DataVersion.toJson ⟨now', v, k⟩)))

/-- At the same time it is the same record. -/
theorem Redated.eq {now : Float} {r r' : Option Record} (h : Redated now now r r') : r' = r := by
  cases h <;> rfl

theorem Redated.symm {now now' : Float} {r r' : Option Record} (h : Redated now now' r r') :
    Redated now' now r' r := by
  cases h with
  | same => exact .same r
  | version v k => exact .version v k

/-- The stores hold the same records, but data versions may have been created at
other times. -/
def SameButTimes (s s' : Store) : Prop :=
  ∀ k, ∃ now now', Redated now now' (s.get? k) (s'.get? k)

/-- A version that is written at two times differs in its creation time. -/
theorem redated_commit {s s' : Store} {t : TableId} {dir : Option DirId} {now now' : Float}
    {h : TableHead} {schema : Option Schema} {k : Key} (hk : s'.get? k = s.get? k) :
    Redated now now' ((s.write (commitWrites t dir now h schema)).get? k)
      ((s'.write (commitWrites t dir now' h schema)).get? k) := by
  cases k with
  | table u =>
    rw [get?_commit_table, get?_commit_table, hk]
    exact .same _
  | tableVersion u v =>
    rw [get?_commit_tableVersion, get?_commit_tableVersion, hk]
    split
    · exact .version _ _
    · exact .same _
  | schemaVersion u v =>
    -- the record of the schema version, if it is written, has no time in it
    have heq : (s'.write (commitWrites t dir now' h schema)).get? (.schemaVersion u v) =
        (s.write (commitWrites t dir now h schema)).get? (.schemaVersion u v) := by
      by_cases hv : ∃ k ∈ schema, u = t ∧ v = k.version
      · obtain ⟨k, hschema, rfl, rfl⟩ := hv
        rw [get?_commit_schemaVersion_self hschema, get?_commit_schemaVersion_self hschema]
      · have hne : ∀ k ∈ schema, ¬ (u = t ∧ v = k.version) := fun k hk hv' => hv ⟨k, hk, hv'⟩
        rw [get?_commit_schemaVersion_of_ne hne, get?_commit_schemaVersion_of_ne hne, hk]
    rw [heq]
    exact .same _
  | _ =>
    rw [get?_write_of_notMem, get?_write_of_notMem, hk]
    · exact .same _
    all_goals
      intro w hw heq
      rcases mem_commitWrites_iff.1 hw with ⟨k, _, rfl⟩ | rfl | rfl <;> cases heq

end Store

namespace Catalog

variable {c c' : Catalog} {x y : TableId} {op : Operation} {now now' : Float}

/-- An operation on a table writes records of that table only. -/
theorem table?_of_plan (hop : op.table? = some y) {p : Plan Outcome} (hp : op.plan c now = .ok p) :
    ∀ w ∈ p.writes, w.1.table? = some y := by
  rcases writes_of_plan hp with ⟨hnone, _⟩ | ⟨t, dir, h, schema, htable, hwrites⟩
  · rw [hnone] at hop
    cases hop
  · obtain rfl := Option.some.inj (hop.symm.trans htable)
    rw [hwrites]
    intro w hw
    rcases Store.mem_commitWrites_iff.1 hw with ⟨k, _, rfl⟩ | rfl | rfl <;> rfl

/-- An operation on a table leaves all other records as they are, however it ends. -/
theorem get?_perform_of_ne (hop : op.table? = some y) {k : Key} (hk : k.table? ≠ some y) :
    (c.perform now op).2.store.get? k = c.store.get? k := by
  cases hp : op.plan c now with
  | error e => rw [perform_of_plan_error hp]
  | ok p =>
    have hne : ∀ w ∈ p.writes, w.1 ≠ k := by
      rintro w hw rfl
      exact hk (table?_of_plan hop hp w hw)
    rw [perform, hp]
    rcases putAll_cases c p.writes with ⟨left, hall⟩ | ⟨n, e, _, hpart⟩
    · rw [commit, hall]
      exact Store.get?_write_of_notMem hne
    · rw [commit, hpart]
      exact Store.get?_write_of_notMem fun w hw => hne w (List.take_subset _ _ hw)

theorem sameBut_perform (hop : op.table? = some y) :
    c.store.SameBut y (c.perform now op).2.store :=
  fun _ hk => get?_perform_of_ne hop hk

theorem perform_unlimited (hc : c.writesLeft = none) :
    (c.perform now op).2.writesLeft = none ∧ (c.perform now op).2.registry = c.registry := by
  cases hp : op.plan c now with
  | error e =>
    rw [perform_of_plan_error hp]
    exact ⟨hc, rfl⟩
  | ok p =>
    rw [perform_of_plan hc hp]
    exact ⟨hc, rfl⟩

/-! ### Records of another table -/

/-- How far records are written does not depend on the records that are there. -/
theorem putAll_of_sameBut (hleft : c'.writesLeft = c.writesLeft)
    (h : c.store.SameBut x c'.store) (ws : List (Key × Record)) :
    (c'.putAll ws).1 = (c.putAll ws).1 ∧
      Store.SameBut x (c.putAll ws).2.store (c'.putAll ws).2.store := by
  induction ws generalizing c c' with
  | nil => exact ⟨rfl, h⟩
  | cons w ws ih =>
    obtain ⟨k, r⟩ := w
    have hinsert : Store.SameBut x (c.store.insert k r) (c'.store.insert k r) := by
      intro j hj
      rw [SortedMap.get?_insert, SortedMap.get?_insert, h j hj]
    rw [putAll, putAll, put, put, hleft]
    cases c.writesLeft with
    | none => exact ih rfl hinsert
    | some n =>
      cases n with
      | zero => exact ⟨rfl, h⟩
      | succ n => exact ih rfl hinsert

/-- A plan is carried out the same over stores that differ in one table. -/
theorem commit_of_sameBut (hleft : c'.writesLeft = c.writesLeft)
    (h : c.store.SameBut x c'.store) (p : Except Error (Plan Outcome)) :
    (c'.commit p).1 = (c.commit p).1 ∧
      Store.SameBut x (c.commit p).2.store (c'.commit p).2.store := by
  cases p with
  | error e => exact ⟨rfl, h⟩
  | ok p =>
    obtain ⟨hresult, hstore⟩ := putAll_of_sameBut hleft h p.writes
    rw [commit, commit]
    generalize c.putAll p.writes = r, c'.putAll p.writes = r' at hresult hstore
    obtain ⟨result, d⟩ := r
    obtain ⟨result', d'⟩ := r'
    cases hresult
    cases result with
    | ok => exact ⟨rfl, hstore⟩
    | error e => exact ⟨rfl, hstore⟩

/-- A mutation answers the same over stores that differ in a table that is
neither its own nor a base of it, at whatever time, and what they hold alike is
alike afterwards. -/
theorem perform_of_sameBut (hc : c.writesLeft = none) (hc' : c'.writesLeft = none)
    (hregistry : c'.registry = c.registry) (h : c.store.SameBut x c'.store) (hy : y ≠ x)
    (hbase : ¬ c.store.IsBase x y) (hop : op.table? = some y)
    (hexpected : op.expected?.isSome = true) :
    (c'.perform now' op).1 = (c.perform now op).1 ∧ ∀ k, k.table? ≠ some x →
      Store.Redated now now' ((c.perform now op).2.store.get? k)
        ((c'.perform now' op).2.store.get? k) := by
  have hplan := (h.mutatesAs hregistry hy hbase).plan_alike now now' hop hexpected
  generalize hp : op.plan c now = p, hp' : op.plan c' now' = p' at hplan
  cases hplan with
  | error e =>
    rw [perform_of_plan_error hp, perform_of_plan_error hp']
    refine ⟨rfl, fun k hk => ?_⟩
    rw [h k hk]
    exact .same _
  | @foreign p hkeys =>
    rw [perform_of_plan hc hp, perform_of_plan hc' hp']
    refine ⟨rfl, fun k hk => ?_⟩
    dsimp only
    rw [Store.get?_write_congr (h k hk)]
    exact .same _
  | version t dir head schema a log =>
    rw [perform_of_plan hc hp, perform_of_plan hc' hp']
    exact ⟨rfl, fun k hk => Store.redated_commit (h k hk)⟩

/-! ### Two tables -/

/-- Mutations of two tables, neither of which is a base of the other, can be
swapped. -/
theorem mutations_commute (hc : c.writesLeft = none) (hxy : x ≠ y) (hy : ¬ c.store.IsBase x y)
    (hx : ¬ c.store.IsBase y x) {opx opy : Operation} (hopx : opx.table? = some x)
    (hexpx : opx.expected?.isSome = true) (hopy : opy.table? = some y)
    (hexpy : opy.expected?.isSome = true) (nowx nowx' nowy nowy' : Float) :
    let cx := (c.perform nowx opx).2
    let cy := (c.perform nowy' opy).2
    (cx.perform nowy opy).1 = (c.perform nowy' opy).1 ∧
      (cy.perform nowx' opx).1 = (c.perform nowx opx).1 ∧
      ∀ k, Store.Redated nowx nowx' ((cx.perform nowy opy).2.store.get? k)
          ((cy.perform nowx' opx).2.store.get? k) ∨
        Store.Redated nowy nowy' ((cx.perform nowy opy).2.store.get? k)
          ((cy.perform nowx' opx).2.store.get? k) := by
  intro cx cy
  obtain ⟨hcx, hregx⟩ : cx.writesLeft = none ∧ cx.registry = c.registry := perform_unlimited hc
  obtain ⟨hcy, hregy⟩ : cy.writesLeft = none ∧ cy.registry = c.registry := perform_unlimited hc
  -- each of the two answers after the other as before it
  obtain ⟨hanswery, hrecordsy⟩ : (cx.perform nowy opy).1 = (c.perform nowy' opy).1 ∧
      ∀ k, k.table? ≠ some x → Store.Redated nowy' nowy ((c.perform nowy' opy).2.store.get? k)
        ((cx.perform nowy opy).2.store.get? k) :=
    perform_of_sameBut hc hcx hregx (sameBut_perform hopx) hxy.symm hy hopy hexpy
  obtain ⟨hanswerx, hrecordsx⟩ : (cy.perform nowx' opx).1 = (c.perform nowx opx).1 ∧
      ∀ k, k.table? ≠ some y → Store.Redated nowx nowx' ((c.perform nowx opx).2.store.get? k)
        ((cy.perform nowx' opx).2.store.get? k) :=
    perform_of_sameBut hc hcy hregy (sameBut_perform hopy) hxy hx hopx hexpx
  refine ⟨hanswery, hanswerx, fun k => ?_⟩
  by_cases hk : k.table? = some x
  · -- a record of `x` is written by one of the two, after the other or before it
    have hky : k.table? ≠ some y := by
      rw [hk]
      exact fun heq => hxy (Option.some.inj heq)
    left
    rw [get?_perform_of_ne hopy hky]
    exact hrecordsx k hky
  · right
    rw [get?_perform_of_ne hopx hk]
    exact (hrecordsy k hk).symm

/-- Whatever the store holds: no change of the records of `x` is seen by a read of
another table `y` that does not have `x` among its bases, nor does it change what
a mutation of `y` answers and writes. And if neither is a base of the other, a
mutation of `x` and one of `y`, each at any time, answer the same in either order
and leave the same store, creation times aside; the very same store if the times
are the same. -/
theorem independence (hxy : x ≠ y) (hy : ¬ c.store.IsBase x y) :
    (∀ s', c.store.SameBut x s' → c.store.SameTable y s' ∧
      ∀ op now, op.table? = some y → op.expected?.isSome = true →
        let c' : Catalog := { c with store := s' }
        op.plan c' now = op.plan c now ∧ (c'.perform now op).1 = (c.perform now op).1 ∧
          Store.SameBut x (c.perform now op).2.store (c'.perform now op).2.store) ∧
    (c.writesLeft = none → ¬ c.store.IsBase y x → ∀ opx opy nowx nowx' nowy nowy',
      opx.table? = some x → opx.expected?.isSome = true →
      opy.table? = some y → opy.expected?.isSome = true →
      let cx := (c.perform nowx opx).2
      let cy := (c.perform nowy' opy).2
      (cx.perform nowy opy).1 = (c.perform nowy' opy).1 ∧
        (cy.perform nowx' opx).1 = (c.perform nowx opx).1 ∧
        Store.SameButTimes (cx.perform nowy opy).2.store (cy.perform nowx' opx).2.store ∧
        (nowx' = nowx → nowy' = nowy →
          (cy.perform nowx' opx).2.store = (cx.perform nowy opy).2.store)) := by
  constructor
  · intro s' h
    refine ⟨h.sameTable hxy.symm hy, fun op now hop hexpected => ?_⟩
    intro c'
    have hmutates : c.MutatesAs c' y := Store.SameBut.mutatesAs h rfl hxy.symm hy
    have hplan := (hmutates.plan_alike now now hop hexpected).eq
    refine ⟨hplan, ?_⟩
    have hleft : c'.writesLeft = c.writesLeft := rfl
    rw [perform, perform, hplan]
    exact commit_of_sameBut hleft h _
  · intro hc hx opx opy nowx nowx' nowy nowy' hopx hexpx hopy hexpy cx cy
    obtain ⟨hanswery, hanswerx, hrecords⟩ :=
      mutations_commute hc hxy hy hx hopx hexpx hopy hexpy nowx nowx' nowy nowy'
    refine ⟨hanswery, hanswerx, fun k => ?_, ?_⟩
    · rcases hrecords k with hk | hk
      · exact ⟨nowx, nowx', hk⟩
      · exact ⟨nowy, nowy', hk⟩
    · rintro rfl rfl
      refine SortedMap.ext_get? fun k => ?_
      rcases hrecords k with hk | hk
      · exact hk.eq
      · exact hk.eq

end Catalog

namespace Sample

def places : TableId := .ofNat 7

/-- A second table beside that of people, whose head is damaged. -/
def neighbours : Catalog :=
  let c := start.after (creation ++ [.perform 2 (.createTable places {
    dir := home
    name := "places"
    columns := [{ name := "id", type := .int, isKey := true }] })])
  { c with store := c.store.insert (.table people) (.plain home .null) }

/-- The same with the head as it was before the damage. -/
def repaired : Store :=
  neighbours.store.insert (.table people)
    (((start.after creation).store.get? (.table people)).getD (.plain home .null))

/-- No read of places and no change of them depends on the damage, and rows come
to both tables in either order. -/
theorem independence_places :
    let c := neighbours
    let repair : Catalog := { c with store := repaired }
    let born := Operation.addColumn places 0 { name := "born", type := .string }
    let more := Operation.insertRows people 0 10
    people ≠ places ∧ ¬ c.store.IsBase people places ∧ ¬ repaired.IsBase places people ∧
      c.store.SameBut people repaired ∧ c.store.SameTable places repaired ∧
      (repair.perform 3 born).1 = (c.perform 3 born).1 ∧
      (((repair.perform 3 more).2.perform 4 born).2.store =
        ((repair.perform 4 born).2.perform 3 more).2.store) := by
  intro c repair born more
  have hne : people ≠ places := by decide
  have hbase : ¬ c.store.IsBase people places := by decide +kernel
  have hbase' : ¬ repaired.IsBase people places := by decide +kernel
  have hbase'' : ¬ repaired.IsBase places people := by decide +kernel
  have hsame : c.store.SameBut people repaired := by
    intro k hk
    have hkey : k ≠ .table people := by
      rintro rfl
      exact hk rfl
    rw [repaired, SortedMap.get?_insert, if_neg hkey]
  obtain ⟨hreads, hmutations⟩ := (Catalog.independence hne hbase).1 repaired hsame
  obtain ⟨-, -, -, hswap⟩ := (Catalog.independence (c := repair) hne hbase').2 rfl hbase''
    more born 3 3 4 4 rfl rfl rfl rfl
  exact ⟨hne, hbase, hbase'', hsame, hreads, (hmutations born 3 rfl rfl).2.1, (hswap rfl rfl).symm⟩

end Sample
end Cadastre
