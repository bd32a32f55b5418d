/-
# A catalog does not corrupt itself

After every run from an empty store a catalog is intact. Every record can be read, and
what records refer to exists: the versions of a head, the schema version of a data
version and the one before it, the history of every column, the bases of a view at
the versions that are fixed, and the parent of a directory. No directory is above
itself, and every table can be read. So no operation fails as if a record were
corrupt, whatever its arguments are, and no look-up does but two: the loading of a
function passes on what the caller's own loader says, and the look-up of a schema
version that never was says that a record is missing.

Key definitions: `Query`, `Query.run`, `Query.Blames`, `Key.Decodes`, `Store.Intact`,
`Catalog.Intact`.
Key theorems: `Catalog.Sound.store_intact`, `Catalog.Sound.blames_of_run`,
`Catalog.integrity`.
-/
import Cadastre.Proofs.CleanPlans
import Cadastre.Proofs.ComputedColumns

namespace Cadastre

open Relation

/-! ### Look-ups -/

/-- A look-up that can fail. The list of all tables, and the search in it, cannot. -/
inductive Query where
  | directory (dir : DirId)
  | findDirectory (parent : Option DirId) (name : String)
  | directoryPath (dir : DirId)
  | table (table : TableId)
  | version (table : TableId) (version : Version)
  | versions (table : TableId)
  | schemaVersion (table : TableId) (version : SchemaVersion)
  | schemaVersions (table : TableId)
  | retainedVersions (table : TableId)
  | snapshot (table : TableId) (version : Option Version)
  | effectiveSchema (table : TableId) (version : Option Version)
  | reclaimCandidates (table : TableId)
  | loadFunction (function : FunctionId) (load : CallableLoader)

namespace Query

/-- Whether a look-up is answered, or its error. -/
def run (c : Catalog) : Query → Except Error Unit
  | directory d => (c.store.directory d).map fun _ => ()
  | findDirectory parent name => (c.store.findDirectory parent name).map fun _ => ()
  | directoryPath d => (c.store.directoryPath d).map fun _ => ()
  | table t => (c.store.table t).map fun _ => ()
  | version t v => (c.store.dataVersion t v).map fun _ => ()
  | versions t => (c.store.dataVersions t).map fun _ => ()
  | schemaVersion t v => (c.store.schema t v).map fun _ => ()
  | schemaVersions t => (c.store.schemas t).map fun _ => ()
  | retainedVersions t => (c.store.retainedVersions t).map fun _ => ()
  | snapshot t v => (c.store.snapshot t v).map fun _ => ()
  | effectiveSchema t v => (c.store.effectiveSchema t v).map fun _ => ()
  | reclaimCandidates t => (c.store.reclaimCandidates t).result.map fun _ => ()
  | loadFunction id load => (c.loadFunction id load).result.map fun _ => ()

/-- The errors by which a look-up blames a record of an intact store: a schema version
that does not exist is said to be missing, and a loader may say of a body what it will. -/
inductive Blames (s : Store) : Query → Error → Prop
  | missing {t : TableId} {v : SchemaVersion} (h : s.get? (.schemaVersion t v) = none) :
      Blames s (.schemaVersion t v) (.catalog (.missingRecord (.schemaVersion t v)))
  | loader {id : FunctionId} {load : CallableLoader} {body : List UInt8} {e : Error}
      (h : load body = .error e) : Blames s (.loadFunction id load) e

end Query

namespace Catalog.Sound

variable {c : Catalog} {σ : Ledgers}

/-- A look-up in a sound catalog blames a record in two ways only. -/
theorem blames_of_run (hc : c.Sound σ) {q : Query} {e : Error} (h : q.run c = .error e)
    (he : e.blamesRecord = true) : q.Blames c.store e := by
  have hclean : Clean (q.run c) → q.Blames c.store e := by
    intro hclean
    rw [hclean e h] at he
    cases he
  cases q with
  | directory d => exact hclean ((hc.founded.dirs.clean_directory d).map _)
  | findDirectory parent name =>
    obtain ⟨found, hfound⟩ := hc.founded.dirs.exists_findDirectory parent name
    exact hclean ((clean_of_eq_ok hfound).map _)
  | directoryPath d => exact hclean ((hc.founded.dirs.clean_directoryPath d).map _)
  | table t => exact hclean ((hc.keeps.store.clean_table t).map _)
  | version t v => exact hclean ((hc.keeps.store.clean_dataVersion t v).map _)
  | versions t =>
    obtain ⟨ds, hds⟩ := hc.keeps.store.exists_dataVersions t
    exact hclean ((clean_of_eq_ok hds).map _)
  | schemaVersion t v =>
    obtain ⟨hnone, rfl⟩ := hc.keeps.store.missing_of_schema (map_eq_error_iff.1 h)
    exact .missing hnone
  | schemaVersions t =>
    obtain ⟨ks, hks⟩ := hc.keeps.store.exists_schemas t
    exact hclean ((clean_of_eq_ok hks).map _)
  | retainedVersions t => exact hclean ((hc.clean_retainedVersions t).map _)
  | snapshot t v => exact hclean ((hc.clean_snapshot t v).map _)
  | effectiveSchema t v => exact hclean ((hc.clean_effectiveSchema t v).map _)
  | reclaimCandidates t => exact hclean ((hc.clean_reclaimCandidates t).map _)
  | loadFunction id load =>
    obtain ⟨body, hbody⟩ :=
      exists_body_of_loadFunction hc.founded.functions (map_eq_error_iff.1 h) he
    exact .loader hbody

end Catalog.Sound

/-! ### Intact stores -/

/-- The content is that of a record of the key's kind, and passes its rules. -/
def Key.Decodes (k : Key) (j : Json) : Prop :=
  match k with
  | systemInfo => ∃ a : SystemInfo, Payload.decode k j = .ok a
  | dir _ => ∃ a : DirInfo, Payload.decode k j = .ok a
  | table _ => ∃ a : TableHead, Payload.decode k j = .ok a
  | tableVersion .. => ∃ a : DataVersion, Payload.decode k j = .ok a
  | schemaVersion .. => ∃ a : Schema, Payload.decode k j = .ok a
  | function _ => ∃ a : FunctionInfo, Payload.decode k j = .ok a

/-- Every record can be read, and what records refer to exists. -/
structure Store.Intact (s : Store) : Prop where
  records : ∀ k r, s.get? k = some r → k.Decodes r.content
  /-- No head is skipped in the list of all tables. -/
  listed : s.tableWarnings = []
  /-- The data version and the schema version of a head exist. -/
  current : ∀ t x, s.table t = .ok x → (∃ d, s.dataVersion t x.head.version = .ok d) ∧
    ∃ k, s.schema t x.head.schemaVersion = .ok k
  /-- So does the schema version of every data version. -/
  paired : ∀ t v d, s.dataVersion t v = .ok d → ∃ k, s.schema t d.schemaVersion = .ok k
  /-- So does the schema version before every schema version. -/
  preceding : ∀ t v k, s.schema t v = .ok k → ∀ p ∈ k.preceding, ∃ j, s.schema t p = .ok j
  /-- The head has an entry for every column, which says that the column lives then. -/
  history : ∀ t v k, s.schema t v = .ok k → ∃ x, s.table t = .ok x ∧
    ∀ id ∈ k.columns.keys, ∃ l, x.head.history.get? id = some l ∧ l.LivesAt v
  /-- The bases of a view are tables that can be read at the versions that are fixed. -/
  bases : ∀ t x, s.table t = .ok x → ∀ b ∈ x.head.chain, ∃ y sn, s.table b.1 = .ok y ∧
    s.snapshotAt y (b.2.getD y.head.version) = .ok sn
  parents : ∀ d x, s.directory d = .ok x → ∀ p ∈ x.parent, ∃ y, s.directory p = .ok y
  acyclic : ∀ d, ¬ TransGen s.IsUnder d d
  paths : ∀ d x, s.directory d = .ok x → ∃ path, s.directoryPath d = .ok path
  /-- Every table can be read as it is now, and the columns to reclaim can be told. -/
  tables : ∀ t r, s.get? (.table t) = some r → (∃ x, s.table t = .ok x) ∧
    (∃ sn, s.snapshot t none = .ok sn) ∧ (∃ versions, s.retainedVersions t = .ok versions) ∧
    (∃ columns, s.effectiveSchema t none = .ok columns) ∧
    ∃ columns, (s.reclaimCandidates t).result = .ok columns

/-- The store is intact, and neither an operation nor a look-up blames a record,
whatever the arguments are. -/
structure Catalog.Intact (c : Catalog) : Prop where
  store : c.store.Intact
  operations : ∀ now op e, (c.perform now op).1.result = .error e → e.kind ≠ .corruptMetadata
  queries : ∀ (q : Query) e, q.run c = .error e → e.kind = .corruptMetadata → q.Blames c.store e

/-! ### What a sound catalog holds -/

namespace Catalog.Sound

variable {c : Catalog} {σ : Ledgers} {t : TableId}

theorem decodes (hc : c.Sound σ) {k : Key} {r : Record} (hr : c.store.get? k = some r) :
    k.Decodes r.content := by
  cases k with
  | systemInfo => exact ⟨_, hc.founded.system r hr⟩
  | dir d => exact hc.founded.dirs.exists_decode hr
  | table t => exact hc.keeps.store.exists_head hr
  | tableVersion t v =>
    obtain ⟨d, hd, _⟩ := hc.keeps.store.versionRecord t v r hr
    exact ⟨d, hd⟩
  | schemaVersion t v =>
    obtain ⟨k, hk, _⟩ := hc.keeps.store.schemaRecord t v r hr
    exact ⟨k, hk⟩
  | function id =>
    obtain ⟨i, hi, _⟩ := hc.founded.functions id r hr
    exact ⟨i, hi⟩

/-- A data version that is read is one of a ledger. -/
theorem exists_ledger_of_version (hc : c.Sound σ) {v : Version} {d : DataVersion}
    (hd : c.store.dataVersion t v = .ok d) : ∃ l, σ t = some l ∧ l.versions[v]? = some d := by
  obtain ⟨r, hr, _⟩ := Store.dataVersion_eq_ok_iff.1 hd
  obtain ⟨l, hl, _⟩ := hc.keeps.exact.version t v r hr
  exact ⟨l, hl, hc.keeps.version_of_read hl hd⟩

/-- A schema version that is read is one of a ledger. -/
theorem exists_ledger_of_schema (hc : c.Sound σ) {v : SchemaVersion} {k : Schema}
    (hk : c.store.schema t v = .ok k) : ∃ l, σ t = some l ∧ l.schemas[v]? = some k := by
  obtain ⟨r, hr, _⟩ := Store.schema_eq_ok_iff.1 hk
  obtain ⟨l, hl, _⟩ := hc.keeps.exact.schema t v r hr
  exact ⟨l, hl, hc.keeps.schema_of_read hl hk⟩

theorem exists_current (hc : c.Sound σ) {x : Table} (hx : c.store.table t = .ok x) :
    (∃ d, c.store.dataVersion t x.head.version = .ok d) ∧
      ∃ k, c.store.schema t x.head.schemaVersion = .ok k := by
  obtain ⟨l, hl, rfl⟩ := hc.keeps.store.exists_ledger hx
  obtain ⟨d, hd⟩ := (hc.keeps.sound t l hl).exists_version (Nat.le_refl _)
  obtain ⟨k, hk⟩ := (hc.keeps.sound t l hl).exists_schema (Nat.le_refl _)
  exact ⟨⟨d, hc.keeps.store.version t l _ d hl hd⟩, k, hc.keeps.store.schema t l _ k hl hk⟩

theorem exists_schema_of_version (hc : c.Sound σ) {v : Version} {d : DataVersion}
    (hd : c.store.dataVersion t v = .ok d) : ∃ k, c.store.schema t d.schemaVersion = .ok k := by
  obtain ⟨l, hl, hd⟩ := hc.exists_ledger_of_version hd
  have hs := hc.keeps.sound t l hl
  obtain ⟨k, hk⟩ := hs.exists_schema (hs.paired.schemaVersion_le hd)
  exact ⟨k, hc.keeps.store.schema t l _ k hl hk⟩

theorem exists_preceding (hc : c.Sound σ) {v : SchemaVersion} {k : Schema}
    (hk : c.store.schema t v = .ok k) {p : SchemaVersion} (hp : k.preceding = some p) :
    ∃ j, c.store.schema t p = .ok j := by
  obtain ⟨l, hl, hk⟩ := hc.exists_ledger_of_schema hk
  have hlinked := (hc.keeps.sound t l hl).linked
  cases v with
  | zero =>
    rw [hlinked.first k hk] at hp
    cases hp
  | succ v =>
    obtain rfl : v = p := Option.some.inj ((hlinked.next v k hk).symm.trans hp)
    have hlt : v < l.schemas.length :=
      Nat.lt_of_succ_lt (List.getElem?_eq_some_iff.1 hk).1
    exact ⟨_, hc.keeps.store.schema t l v _ hl (List.getElem?_eq_getElem hlt)⟩

theorem exists_history (hc : c.Sound σ) {v : SchemaVersion} {k : Schema}
    (hk : c.store.schema t v = .ok k) : ∃ x, c.store.table t = .ok x ∧
      ∀ id ∈ k.columns.keys, ∃ l, x.head.history.get? id = some l ∧ l.LivesAt v := by
  obtain ⟨l, hl, hk⟩ := hc.exists_ledger_of_schema hk
  refine ⟨_, hc.keeps.store.head t l hl, fun id hid => ?_⟩
  exact ((hc.keeps.sound t l hl).chronicle.member v k hk id).1 hid

theorem exists_base (hc : c.Sound σ) {x : Table} (hx : c.store.table t = .ok x)
    {b : TableId × Option Version} (hb : b ∈ x.head.chain) :
    ∃ y sn, c.store.table b.1 = .ok y ∧
      c.store.snapshotAt y (b.2.getD y.head.version) = .ok sn := by
  obtain ⟨u, v⟩ := b
  obtain ⟨l, hl, hle⟩ := hc.provides_of_table hx hb
  have hv : v.getD l.head.version ≤ l.head.version := by
    cases v with
    | none => exact Nat.le_refl _
    | some v => exact hle v rfl
  obtain ⟨sn, hsn, _⟩ := hc.keeps.snapshotAt_columns hl hv
  exact ⟨_, sn, hc.keeps.store.head u l hl, hsn⟩

/-- A table is read as it is now. -/
theorem exists_reads (hc : c.Sound σ) {r : Record} (hr : c.store.get? (.table t) = some r) :
    (∃ x, c.store.table t = .ok x) ∧ (∃ sn, c.store.snapshot t none = .ok sn) ∧
      (∃ versions, c.store.retainedVersions t = .ok versions) ∧
      (∃ columns, c.store.effectiveSchema t none = .ok columns) ∧
      ∃ columns, (c.store.reclaimCandidates t).result = .ok columns := by
  obtain ⟨l, hl⟩ := hc.keeps.exists_ledger (Option.isSome_iff_exists.2 ⟨r, hr⟩)
  have hx := hc.keeps.store.head t l hl
  have hs := hc.keeps.sound t l hl
  obtain ⟨sn, hsn, _⟩ := hc.keeps.snapshot_columns hl none hs.exists_current
  exact ⟨⟨_, hx⟩, ⟨sn, hsn⟩, ⟨_, hc.keeps.store.retainedVersions_eq hl hs⟩,
    ⟨_, hc.keeps.effectiveSchema_eq hc.based hl none hs.exists_current⟩,
    hc.exists_reclaimCandidates hx⟩

theorem store_intact (hc : c.Sound σ) : c.store.Intact where
  records _ _ hr := hc.decodes hr
  listed := hc.keeps.store.tableWarnings_eq_nil
  current _ _ hx := hc.exists_current hx
  paired _ _ _ hd := hc.exists_schema_of_version hd
  preceding _ _ _ hk _ hp := hc.exists_preceding hk hp
  history _ _ _ hk := hc.exists_history hk
  bases _ _ hx _ hb := hc.exists_base hx hb
  parents _ _ hx _ hp := hc.founded.dirs.exists_parent hx hp
  acyclic := hc.founded.dirs.not_under_self
  paths _ _ hx := hc.founded.dirs.exists_directoryPath hx
  tables _ _ hr := hc.exists_reads hr

/-- An operation that fails blames no record. -/
theorem kind_of_perform (hc : c.Sound σ) {now : Float} {op : Operation} {e : Error}
    (h : (c.perform now op).1.result = .error e) : e.kind ≠ .corruptMetadata := by
  intro hkind
  cases hp : op.plan c now with
  | error e' =>
    rw [perform_of_plan_error hp] at h
    cases h
    have hclean := hc.clean_plan now op e hp
    rw [Error.kind_eq_corruptMetadata_iff.1 hkind] at hclean
    cases hclean
  | ok p =>
    rw [perform_of_plan hc.keeps.unlimited hp] at h
    cases h

theorem intact (hc : c.Sound σ) : c.Intact where
  store := hc.store_intact
  operations _ _ _ h := hc.kind_of_perform h
  queries _ _ h he := hc.blames_of_run h (Error.kind_eq_corruptMetadata_iff.1 he)

end Catalog.Sound

/-! ### Every run -/

/-- After every run from an empty store the catalog is intact. -/
theorem Catalog.integrity {config : Config} {registry : Registry} {as : List Action}
    (ha : (fresh config registry).Admits as) (hsupplied : (fresh config registry).Supplied as) :
    ((fresh config registry).after as).Intact := by
  obtain ⟨σ, hc⟩ := (sound_fresh config registry).after ha hsupplied
  exact hc.intact

namespace Sample

/-- A directory under the first one. -/
def annex : DirId := .ofNat 6

/-- The run with the computed columns goes on: a snapshot of the table is taken in a
directory of its own, and the table is changed behind it. -/
def settlement : List Action := computation ++ [
  .perform 11 (.createDirectory annex (some home) "annex"),
  .perform 12 (.createView frozen {
    dir := annex
    name := "frozen"
    base := people
    isSnapshot := true }),
  .perform 13 (.dropColumn people 5 "tag")]

/-- The declaration of the template that is stored. -/
def shouting : FunctionDescriptor where
  name := "shout"
  module := none
  qualifiedName := "shout"
  params := [⟨"text", .known .string, none, false⟩]
  result := ⟨.known .string, false⟩

/-- The template is obtained by binding it, with its parameter for its body. -/
theorem obtained_shout : shout.Obtained := by
  have hbind : (Registry.bindTemplate .empty shout.id shouting none
      fun args => .ok (args.headD (.literal .none))).1.result = .ok shout := rfl
  exact .template (fun _ _ h => by cases h) hbind

theorem admits_settlement : start.Admits settlement := by
  decide +kernel

theorem supplied_creation : start.Supplied creation := by
  have hhome : start.Supplies (.perform 0 (.createDirectory home none "home")) := by
    refine ⟨fun id hid => ?_, fun dir f hop => by cases hop⟩
    cases hid
    rfl
  exact ⟨hhome, Catalog.supplied_of_isPlain (by decide)⟩

theorem supplies_storing (c : Catalog) (now : Float) : c.Supplies (storing now) := by
  refine ⟨nofun, fun dir f hop => ?_⟩
  cases hop
  exact ⟨obtained_shout, rfl⟩

theorem supplied_settlement : start.Supplied settlement := by
  have hcomputation : start.Supplied computation := by
    refine Catalog.supplied_append.2 ⟨?_, supplies_storing _ 3, ?_⟩
    · exact Catalog.supplied_append.2 ⟨supplied_creation, Catalog.supplied_of_isPlain (by decide)⟩
    · refine Catalog.supplied_append.2 ⟨Catalog.supplied_of_isPlain (by decide), ?_⟩
      exact ⟨supplies_storing _ 6, Catalog.supplied_of_isPlain (by decide)⟩
  have hannex : (start.after computation).Supplies
      (.perform 11 (.createDirectory annex (some home) "annex")) := by
    have hnone : ((start.after computation).store.get? (.dir annex)).isNone = true := by
      decide +kernel
    refine ⟨fun id hid => ?_, fun dir f hop => by cases hop⟩
    cases hid
    exact Option.isNone_iff_eq_none.1 hnone
  exact Catalog.supplied_append.2
    ⟨hcomputation, hannex, Catalog.supplied_of_isPlain (by decide)⟩

end Sample

theorem Sample.integrity_settlement :
    Sample.start.Admits Sample.settlement ∧ Sample.start.Supplied Sample.settlement ∧
      (Sample.start.after Sample.settlement).Intact :=
  ⟨Sample.admits_settlement, Sample.supplied_settlement,
    Catalog.integrity Sample.admits_settlement Sample.supplied_settlement⟩

/-- The look-up of a schema version that never was fails as if a record were corrupt,
although the table is there and its store is intact. -/
theorem Sample.missing_people :
    Sample.start.Admits Sample.creation ∧ Sample.start.Supplied Sample.creation ∧
      (∃ x, (Sample.start.after Sample.creation).store.table Sample.people = .ok x) ∧
      ∃ e, (Query.schemaVersion Sample.people 7).run (Sample.start.after Sample.creation) =
          .error e ∧ e.kind = .corruptMetadata := by
  have ha : Sample.start.Admits Sample.creation := by decide +kernel
  have htable : ((Sample.start.after Sample.creation).store.table
      Sample.people).toOption.isSome = true := by decide +kernel
  have hnone : ((Sample.start.after Sample.creation).store.get?
      (.schemaVersion Sample.people 7)).isNone = true := by decide +kernel
  obtain ⟨x, hx⟩ := Option.isSome_iff_exists.1 htable
  have hrun : (Query.schemaVersion Sample.people 7).run (Sample.start.after Sample.creation) =
      .error (.catalog (.missingRecord (.schemaVersion Sample.people 7))) := by
    rw [Query.run, Store.schema, Store.require, Option.isNone_iff_eq_none.1 hnone]
    rfl
  exact ⟨ha, Sample.supplied_creation, ⟨x, eq_ok_of_toOption hx⟩, _, hrun,
    Error.kind_eq_corruptMetadata_iff.2 rfl⟩

end Cadastre
