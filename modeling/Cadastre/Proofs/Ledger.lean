/-
# What a store keeps of its tables

A store keeps a ledger of every table: its directory, its head, its data
versions and its schema versions, each list in the order of the numbers. A
store keeps ledgers if the look-ups answer from them. Records of versions that
no ledger lists may lie in the store, as long as they are sound; a store that
has none keeps the ledgers exactly.

Writing the records of a new version pushes it onto the table's ledger, and
writing the first ones opens a ledger.

Key definitions: `Ledger`, `Ledger.push`, `Store.write`, `Store.Keeps`,
`Store.Exact`.
Key theorems: `Store.Keeps.commit`, `Store.Exact.commit`, `Store.Keeps.congr`.
-/
import Cadastre.Catalog.Mutation
import Cadastre.Proofs.RoundTrip.Table
import Mathlib.Logic.Function.Basic

namespace Cadastre

/-! ### Steps in sequence, lists that grow -/

theorem bind_eq_ok_iff {ε α β : Type} {x : Except ε α} {f : α → Except ε β} {b : β} :
    (x >>= f) = .ok b ↔ ∃ a, x = .ok a ∧ f a = .ok b := by
  cases x <;> simp [bind, Except.bind]

theorem map_eq_ok_iff {ε α β : Type} {x : Except ε α} {f : α → β} {b : β} :
    x.map f = .ok b ↔ ∃ a, x = .ok a ∧ f a = b := by
  cases x <;> simp [Except.map]

theorem eq_ok_of_toOption {ε α : Type} {x : Except ε α} {a : α} (h : x.toOption = some a) :
    x = .ok a := by
  cases x with
  | error e => cases h
  | ok b =>
    cases h
    rfl

theorem exists_error_of_toOption {ε α : Type} {x : Except ε α} (h : x.toOption.isNone = true) :
    ∃ e, x = .error e := by
  cases x with
  | error e => exact ⟨e, rfl⟩
  | ok a => cases h

theorem getElem?_concat_eq_some_iff {α : Type} {l : List α} {a b : α} {i : Nat} :
    (l ++ [a])[i]? = some b ↔ l[i]? = some b ∨ i = l.length ∧ a = b := by
  rcases Nat.lt_trichotomy i l.length with h | rfl | h
  · have hi : i ≠ l.length := Nat.ne_of_lt h
    simp [List.getElem?_append_left h, hi]
  · simp
  · have hi : i ≠ l.length := (Nat.ne_of_lt h).symm
    have hnone : (l ++ [a])[i]? = none := List.getElem?_eq_none (by simp; omega)
    simp [hnone, List.getElem?_eq_none (Nat.le_of_lt h), hi]

/-! ### Ledgers -/

/-- What is kept of a table: the versions and the schema versions are listed by number. -/
structure Ledger where
  dir : Option DirId
  head : TableHead
  versions : List DataVersion
  schemas : List Schema

/-- The ledgers of the tables that exist. -/
abbrev Ledgers := TableId → Option Ledger

namespace Ledger

/-- The ledger of a table without versions. -/
def blank (dir : Option DirId) (h : TableHead) : Ledger := ⟨dir, h, [], []⟩

/-- The ledger with the version of the head, and with its schema version if that is new. -/
def push (l : Ledger) (now : Float) (h : TableHead) (schema : Option Schema) : Ledger where
  dir := l.dir
  head := h.settled
  versions := l.versions ++ [⟨now, h.version, h.schemaVersion⟩]
  schemas := l.schemas ++ schema.toList

/-- A version that can be pushed onto a ledger: it has the next numbers, and its
records are sound and can be read back. -/
structure Takes (l : Ledger) (now : Float) (h : TableHead) (schema : Option Schema) : Prop where
  time : now.isFinite = true
  head : h.Readable ∧ h.Sound
  version : h.version = l.versions.length
  schema : ∀ k ∈ schema, k.Readable ∧ k.Sound ∧ k.version = l.schemas.length

end Ledger

/-- The ledgers with one of them replaced or opened. -/
def Ledgers.put (σ : Ledgers) (t : TableId) (l : Ledger) : Ledgers := Function.update σ t (some l)

@[simp] theorem Ledgers.put_self (σ : Ledgers) (t : TableId) (l : Ledger) : σ.put t l t = some l :=
  Function.update_self t _ σ

@[simp] theorem Ledgers.put_of_ne {t u : TableId} (h : u ≠ t) (σ : Ledgers) (l : Ledger) :
    σ.put t l u = σ u :=
  Function.update_of_ne h _ σ

/-- A ledger after one was put is that one, or it was there. -/
theorem Ledgers.put_cases {σ : Ledgers} {t u : TableId} {l m : Ledger}
    (h : σ.put t l u = some m) : u = t ∧ m = l ∨ u ≠ t ∧ σ u = some m := by
  by_cases hu : u = t
  · left
    rw [hu, put_self] at h
    cases h
    exact ⟨hu, rfl⟩
  · right
    rw [put_of_ne hu] at h
    exact ⟨hu, h⟩

/-- What holds of all ledgers and of a new one holds of all after it was put. -/
theorem Ledgers.forall_put {σ : Ledgers} {P : Ledger → Prop} (h : ∀ u m, σ u = some m → P m)
    {t : TableId} {l : Ledger} (hl : P l) : ∀ u m, σ.put t l u = some m → P m := by
  intro u m hm
  rcases put_cases hm with ⟨_, rfl⟩ | ⟨_, hm⟩
  · exact hl
  · exact h u m hm

/-- A schema version after a push was there before, or it is the new one. -/
theorem Ledger.getElem?_push_schemas {l : Ledger} {now : Float} {h : TableHead}
    {schema : Option Schema} {v : SchemaVersion} {k : Schema}
    (hk : (l.push now h schema).schemas[v]? = some k) :
    l.schemas[v]? = some k ∨ k ∈ schema ∧ v = l.schemas.length := by
  cases schema with
  | none =>
    left
    simpa [push] using hk
  | some k' =>
    rcases getElem?_concat_eq_some_iff.1 hk with hk | ⟨hv, rfl⟩
    · exact .inl hk
    · exact .inr ⟨rfl, hv⟩

namespace Store

/-! ### The look-ups -/

section Reads

variable {s : Store} {t : TableId}

theorem table_eq_ok_iff {x : Table} : s.table t = .ok x ↔
    ∃ r, s.get? (.table t) = some r ∧ Payload.decode (.table t) r.content = .ok x.head ∧
      x = ⟨t, r.dir, x.head⟩ := by
  unfold table read?
  cases hr : s.get? (.table t) with
  | none => simp
  | some r =>
    cases hd : (Payload.decode (.table t) r.content : Except Error TableHead) with
    | error e => simp [hd, Except.map]
    | ok h =>
      simp only [hd, Except.map, Except.ok.injEq, Option.some.injEq, exists_eq_left']
      constructor
      · rintro rfl
        exact ⟨rfl, rfl⟩
      · rintro ⟨rfl, hx⟩
        exact hx.symm

theorem dataVersion_eq_ok_iff {v : Version} {d : DataVersion} : s.dataVersion t v = .ok d ↔
    ∃ r, s.get? (.tableVersion t v) = some r ∧
      Payload.decode (.tableVersion t v) r.content = .ok d := by
  unfold dataVersion read?
  cases hr : s.get? (.tableVersion t v) with
  | none => simp
  | some r =>
    cases hd : (Payload.decode (.tableVersion t v) r.content : Except Error DataVersion) <;>
      simp [hd, Except.map]

theorem schema_eq_ok_iff {v : SchemaVersion} {k : Schema} : s.schema t v = .ok k ↔
    ∃ r, s.get? (.schemaVersion t v) = some r ∧
      Payload.decode (.schemaVersion t v) r.content = .ok k := by
  unfold schema require
  cases hr : s.get? (.schemaVersion t v) <;> simp

/-- A table is found under its own identifier. -/
theorem id_of_table {x : Table} (h : s.table t = .ok x) : x.id = t := by
  obtain ⟨r, _, _, hx⟩ := table_eq_ok_iff.1 h
  rw [hx]

/-- What is read has no flaw. -/
theorem flaw?_of_decode {α : Type} [Payload α] {key : Key} {j : Json} {a : α}
    (h : Payload.decode key j = .ok a) : Payload.flaw? a = none := by
  unfold Payload.decode at h
  split at h
  · cases h
  · split at h
    · cases h
    · rename_i hf
      cases h
      exact hf

/-- A head that is found is sound. -/
theorem sound_of_table {x : Table} (h : s.table t = .ok x) : x.head.Sound := by
  obtain ⟨r, _, hd, _⟩ := table_eq_ok_iff.1 h
  exact TableHead.flaw?_eq_none_iff.1 (flaw?_of_decode hd)

/-- A schema version that is found is sound. -/
theorem sound_of_schema {v : SchemaVersion} {k : Schema} (h : s.schema t v = .ok k) : k.Sound := by
  obtain ⟨r, _, hd⟩ := schema_eq_ok_iff.1 h
  exact Schema.flaw?_eq_none_iff.1 (flaw?_of_decode hd)

/-- A data version that is found is not older than its schema version. -/
theorem schemaVersion_le_of_dataVersion {v : Version} {d : DataVersion}
    (h : s.dataVersion t v = .ok d) : d.schemaVersion ≤ d.version := by
  obtain ⟨r, _, hd⟩ := dataVersion_eq_ok_iff.1 h
  exact DataVersion.flaw?_eq_none_iff.1 (flaw?_of_decode hd)

end Reads

/-! ### Writing records -/

/-- The store after records were written in order. -/
def write (s : Store) (ws : List (Key × Record)) : Store :=
  ws.foldl (fun s w => s.insert w.1 w.2) s

@[simp] theorem write_nil (s : Store) : s.write [] = s := rfl

@[simp] theorem write_cons (s : Store) (w : Key × Record) (ws : List (Key × Record)) :
    s.write (w :: ws) = Store.write (s.insert w.1 w.2) ws := rfl

/-- A key that is not written keeps its record. -/
theorem get?_write_of_notMem {s : Store} {ws : List (Key × Record)} {k : Key}
    (h : ∀ w ∈ ws, w.1 ≠ k) : (s.write ws).get? k = s.get? k := by
  induction ws generalizing s with
  | nil => rfl
  | cons w ws ih =>
    have hk : k ≠ w.1 := fun hk => h w List.mem_cons_self hk.symm
    rw [write_cons, ih fun x hx => h x (List.mem_cons_of_mem w hx), SortedMap.get?_insert,
      if_neg hk]

section Commit

variable {s : Store} {t : TableId} {dir : Option DirId} {now : Float} {h : TableHead}
  {schema : Option Schema}

/-- A version has the record of its schema version if that is new, that of its
data version, and its head. -/
theorem mem_commitWrites_iff {w : Key × Record} : w ∈ commitWrites t dir now h schema ↔
    (∃ k ∈ schema, w = (.schemaVersion t k.version, .plain none k.toJson)) ∨
      w = (.tableVersion t h.version,
        .plain none (DataVersion.toJson ⟨now, h.version, h.schemaVersion⟩)) ∨
      w = (.table t, .plain dir h.toJson) := by
  cases schema <;> simp [commitWrites]

@[simp] theorem get?_commit_table (u : TableId) :
    (s.write (commitWrites t dir now h schema)).get? (.table u) =
      if u = t then some (.plain dir h.toJson) else s.get? (.table u) := by
  cases schema <;> simp [commitWrites]

@[simp] theorem get?_commit_tableVersion (u : TableId) (v : Version) :
    (s.write (commitWrites t dir now h schema)).get? (.tableVersion u v) =
      if u = t ∧ v = h.version then
        some (.plain none (DataVersion.toJson ⟨now, h.version, h.schemaVersion⟩))
      else s.get? (.tableVersion u v) := by
  cases schema <;> simp [commitWrites]

theorem get?_commit_schemaVersion_self {k : Schema} (hk : k ∈ schema) :
    (s.write (commitWrites t dir now h schema)).get? (.schemaVersion t k.version) =
      some (.plain none k.toJson) := by
  rw [Option.mem_def.1 hk]
  simp [commitWrites]

theorem get?_commit_schemaVersion_of_ne {u : TableId} {v : SchemaVersion}
    (hne : ∀ k ∈ schema, ¬ (u = t ∧ v = k.version)) :
    (s.write (commitWrites t dir now h schema)).get? (.schemaVersion u v) =
      s.get? (.schemaVersion u v) := by
  cases schema with
  | none => simp [commitWrites]
  | some k => simp [commitWrites, hne k rfl]

theorem table_commit_self (hr : h.Readable) (hs : h.Sound) :
    (s.write (commitWrites t dir now h schema)).table t = .ok ⟨t, dir, h.settled⟩ :=
  table_eq_ok_iff.2 ⟨.plain dir h.toJson, by simp, TableHead.decode_toJson hr hs, rfl⟩

theorem table_commit_of_ne {u : TableId} (hu : u ≠ t) :
    (s.write (commitWrites t dir now h schema)).table u = s.table u := by
  simp [table, read?, hu]

theorem dataVersion_commit_self (hnow : now.isFinite = true) (hs : h.Sound) :
    (s.write (commitWrites t dir now h schema)).dataVersion t h.version =
      .ok ⟨now, h.version, h.schemaVersion⟩ :=
  dataVersion_eq_ok_iff.2 ⟨.plain none (DataVersion.toJson ⟨now, h.version, h.schemaVersion⟩),
    by simp, DataVersion.decode_toJson hnow hs.versions⟩

theorem dataVersion_commit_of_ne {u : TableId} {v : Version} (hne : ¬ (u = t ∧ v = h.version)) :
    (s.write (commitWrites t dir now h schema)).dataVersion u v = s.dataVersion u v := by
  simp [dataVersion, read?, hne]

theorem schema_commit_self {k : Schema} (hk : k ∈ schema) (hr : k.Readable) (hs : k.Sound) :
    (s.write (commitWrites t dir now h schema)).schema t k.version = .ok k :=
  schema_eq_ok_iff.2 ⟨.plain none k.toJson, get?_commit_schemaVersion_self hk,
    Schema.decode_toJson hr hs⟩

theorem schema_commit_of_ne {u : TableId} {v : SchemaVersion}
    (hne : ∀ k ∈ schema, ¬ (u = t ∧ v = k.version)) :
    (s.write (commitWrites t dir now h schema)).schema u v = s.schema u v := by
  simp [Store.schema, require, get?_commit_schemaVersion_of_ne hne]

end Commit

/-! ### Keeping ledgers -/

/-- The look-ups answer from the ledgers, and any other record of a version is
sound and of the version of its key. -/
structure Keeps (s : Store) (σ : Ledgers) : Prop where
  head : ∀ t l, σ t = some l → s.table t = .ok ⟨t, l.dir, l.head⟩
  absent : ∀ t, σ t = none → s.get? (.table t) = none
  version : ∀ t l v d, σ t = some l → l.versions[v]? = some d → s.dataVersion t v = .ok d
  schema : ∀ t l v k, σ t = some l → l.schemas[v]? = some k → s.schema t v = .ok k
  versionRecord : ∀ t v r, s.get? (.tableVersion t v) = some r →
    ∃ d : DataVersion, Payload.decode (.tableVersion t v) r.content = .ok d ∧ d.version = v
  schemaRecord : ∀ t v r, s.get? (.schemaVersion t v) = some r →
    ∃ k : Schema, Payload.decode (.schemaVersion t v) r.content = .ok k ∧ k.version = v

/-- The store has only the records of versions that the ledgers list. -/
structure Exact (s : Store) (σ : Ledgers) : Prop where
  version : ∀ t v r, s.get? (.tableVersion t v) = some r → ∃ l, σ t = some l ∧ v < l.versions.length
  schema : ∀ t v r, s.get? (.schemaVersion t v) = some r → ∃ l, σ t = some l ∧ v < l.schemas.length

/-- A store without records keeps no ledger. -/
theorem keeps_empty : Store.Keeps .empty fun _ => none where
  head _ _ hl := by cases hl
  absent _ _ := rfl
  version _ _ _ _ hl := by cases hl
  schema _ _ _ _ hl := by cases hl
  versionRecord _ _ _ hr := by cases hr
  schemaRecord _ _ _ hr := by cases hr

theorem exact_empty : Store.Exact .empty fun _ => none where
  version _ _ _ hr := by cases hr
  schema _ _ _ hr := by cases hr

/-- The same records of tables keep the same ledgers. -/
theorem Keeps.congr {s s' : Store} {σ : Ledgers} (hk : s.Keeps σ)
    (ht : ∀ t, s'.get? (.table t) = s.get? (.table t))
    (hv : ∀ t v, s'.get? (.tableVersion t v) = s.get? (.tableVersion t v))
    (hs : ∀ t v, s'.get? (.schemaVersion t v) = s.get? (.schemaVersion t v)) : s'.Keeps σ where
  head t l hl := by rw [← hk.head t l hl, table, table, read?, read?, ht]
  absent t hl := (ht t).trans (hk.absent t hl)
  version t l v d hl hd := by
    rw [← hk.version t l v d hl hd, dataVersion, dataVersion, read?, read?, hv]
  schema t l v k hl hd := by
    rw [← hk.schema t l v k hl hd, Store.schema, Store.schema, require, require, hs]
  versionRecord t v r hr := hk.versionRecord t v r (hv t v ▸ hr)
  schemaRecord t v r hr := hk.schemaRecord t v r (hs t v ▸ hr)

theorem Exact.congr {s s' : Store} {σ : Ledgers} (he : s.Exact σ)
    (hv : ∀ t v, s'.get? (.tableVersion t v) = s.get? (.tableVersion t v))
    (hs : ∀ t v, s'.get? (.schemaVersion t v) = s.get? (.schemaVersion t v)) : s'.Exact σ where
  version t v r hr := he.version t v r (hv t v ▸ hr)
  schema t v r hr := he.schema t v r (hs t v ▸ hr)

section Push

variable {s : Store} {σ : Ledgers} {t : TableId} {l : Ledger} {now : Float} {h : TableHead}
  {schema : Option Schema}

/-- The store keeps what it kept of a table, if anything, and a blank ledger else. -/
theorem Keeps.version_getD (hk : s.Keeps σ) (hl : (σ t).getD (.blank l.dir h) = l)
    {v : Version} {d : DataVersion} (hd : l.versions[v]? = some d) :
    s.dataVersion t v = .ok d := by
  cases hσ : σ t with
  | none =>
    rw [hσ, Option.getD_none] at hl
    rw [← hl] at hd
    cases hd
  | some old =>
    rw [hσ, Option.getD_some] at hl
    exact hk.version t old v d hσ (hl ▸ hd)

theorem Keeps.schema_getD (hk : s.Keeps σ) (hl : (σ t).getD (.blank l.dir h) = l)
    {v : SchemaVersion} {k : Schema}
    (hd : l.schemas[v]? = some k) : s.schema t v = .ok k := by
  cases hσ : σ t with
  | none =>
    rw [hσ, Option.getD_none] at hl
    rw [← hl] at hd
    cases hd
  | some old =>
    rw [hσ, Option.getD_some] at hl
    exact hk.schema t old v k hσ (hl ▸ hd)

/-- Writing the records of a version pushes it onto the ledger of the table, or
opens one. -/
theorem Keeps.commit (hk : s.Keeps σ) (hl : (σ t).getD (.blank l.dir h) = l)
    (ht : l.Takes now h schema) :
    (s.write (commitWrites t l.dir now h schema)).Keeps (σ.put t (l.push now h schema)) := by
  refine ⟨fun u m hm => ?_, fun u hu => ?_, fun u m v d hm hd => ?_, fun u m v k hm hd => ?_,
    fun u v r hr => ?_, fun u v r hr => ?_⟩
  · rcases Ledgers.put_cases hm with ⟨rfl, rfl⟩ | ⟨hu, hm⟩
    · exact table_commit_self ht.head.1 ht.head.2
    · rw [table_commit_of_ne hu, hk.head u m hm]
  · by_cases hut : u = t
    · subst hut
      simp at hu
    · rw [Ledgers.put_of_ne hut] at hu
      simpa [hut] using hk.absent u hu
  · rcases Ledgers.put_cases hm with ⟨rfl, rfl⟩ | ⟨hu, hm⟩
    · rcases getElem?_concat_eq_some_iff.1 hd with hd | ⟨rfl, rfl⟩
      · have hv : v < l.versions.length := (List.getElem?_eq_some_iff.1 hd).1
        have hne : v ≠ h.version := by rw [ht.version]; exact Nat.ne_of_lt hv
        rw [dataVersion_commit_of_ne (fun hv => hne hv.2), hk.version_getD hl hd]
      · rw [← ht.version, dataVersion_commit_self ht.time ht.head.2]
    · rw [dataVersion_commit_of_ne (fun hv => hu hv.1), hk.version u m v d hm hd]
  · rcases Ledgers.put_cases hm with ⟨rfl, rfl⟩ | ⟨hu, hm⟩
    · rcases Ledger.getElem?_push_schemas hd with hd | ⟨hk', rfl⟩
      · have hv : v < l.schemas.length := (List.getElem?_eq_some_iff.1 hd).1
        rw [schema_commit_of_ne, hk.schema_getD hl hd]
        intro k' hk' hv'
        rw [(ht.schema k' hk').2.2] at hv'
        exact Nat.ne_of_lt hv hv'.2
      · obtain ⟨hr, hs, hv⟩ := ht.schema k hk'
        rw [← hv, schema_commit_self hk' hr hs]
    · rw [schema_commit_of_ne (fun _ _ hv => hu hv.1), hk.schema u m v k hm hd]
  · rw [get?_commit_tableVersion] at hr
    split at hr
    · rename_i hv
      cases hr
      exact ⟨_, DataVersion.decode_toJson ht.time ht.head.2.versions, hv.2.symm⟩
    · exact hk.versionRecord u v r hr
  · by_cases hv : ∃ k ∈ schema, u = t ∧ v = k.version
    · obtain ⟨k, hk', rfl, rfl⟩ := hv
      rw [get?_commit_schemaVersion_self hk'] at hr
      cases hr
      exact ⟨k, Schema.decode_toJson (ht.schema k hk').1 (ht.schema k hk').2.1, rfl⟩
    · rw [get?_commit_schemaVersion_of_ne fun k hk' hv' => hv ⟨k, hk', hv'⟩] at hr
      exact hk.schemaRecord u v r hr

theorem Exact.commit (he : s.Exact σ) (hl : (σ t).getD (.blank l.dir h) = l)
    (ht : l.Takes now h schema) :
    (s.write (commitWrites t l.dir now h schema)).Exact (σ.put t (l.push now h schema)) := by
  have hgrow : ∀ u m, σ u = some m → ∃ m', σ.put t (l.push now h schema) u = some m' ∧
      m.versions.length ≤ m'.versions.length ∧ m.schemas.length ≤ m'.schemas.length := by
    intro u m hm
    by_cases hu : u = t
    · subst hu
      rw [hm, Option.getD_some] at hl
      exact ⟨_, Ledgers.put_self _ _ _, by simp [Ledger.push, hl], by simp [Ledger.push, hl]⟩
    · exact ⟨m, by rw [Ledgers.put_of_ne hu, hm], Nat.le_refl _, Nat.le_refl _⟩
  constructor
  · intro u v r hr
    by_cases hv : u = t ∧ v = h.version
    · obtain ⟨rfl, rfl⟩ := hv
      exact ⟨_, Ledgers.put_self _ _ _, by simp [Ledger.push, ht.version]⟩
    · rw [get?_commit_tableVersion, if_neg hv] at hr
      obtain ⟨m, hm, hlt⟩ := he.version u v r hr
      obtain ⟨m', hm', hle, _⟩ := hgrow u m hm
      exact ⟨m', hm', Nat.lt_of_lt_of_le hlt hle⟩
  · intro u v r hr
    by_cases hv : ∃ k ∈ schema, u = t ∧ v = k.version
    · obtain ⟨k, hk, rfl, rfl⟩ := hv
      refine ⟨_, Ledgers.put_self _ _ _, ?_⟩
      rw [(ht.schema k hk).2.2, Ledger.push, Option.mem_def.1 hk]
      simp
    · rw [get?_commit_schemaVersion_of_ne fun k hk hv' => hv ⟨k, hk, hv'⟩] at hr
      obtain ⟨m, hm, hlt⟩ := he.schema u v r hr
      obtain ⟨m', hm', _, hle⟩ := hgrow u m hm
      exact ⟨m', hm', Nat.lt_of_lt_of_le hlt hle⟩

end Push

end Store
end Cadastre
