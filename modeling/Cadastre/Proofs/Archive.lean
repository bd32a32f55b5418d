/-
# What a store holds without any promise

The times of operations may be no numbers, column numbers may pass 32 bits, and
operations may break off: then some records cannot be read back, but none is
written over. A store holds ledgers if the records of their heads and versions
are in it as they were written. What can be read of them at all is read as it
was written, so the counters that an operation goes by are those of the ledger,
and a version goes under keys that no completed version has. One attempt makes
no version, the first one of a new table, or the next one of a table
(`Progress`).

Key definitions: `Ledgers.Lists`, `Store.Holds`, `Catalog.Holds`, `Progress`.
Key theorems: `Store.Holds.exists_ledger`, `Store.Holds.commit`,
`Store.Holds.between`, `Catalog.Holds.attempt`.
-/
import Cadastre.Proofs.Attempt
import Cadastre.Proofs.Extension

namespace Cadastre

/-! ### Records of ledgers -/

/-- The records of the versions that the ledgers list, as they are written. -/
inductive Ledgers.Lists (σ : Ledgers) : Key × Record → Prop
  | version {t : TableId} {l : Ledger} {v : Version} {d : DataVersion} (hl : σ t = some l)
      (hd : l.versions[v]? = some d) : Lists σ (.tableVersion t v, .plain none d.toJson)
  | schema {t : TableId} {l : Ledger} {v : SchemaVersion} {k : Schema} (hl : σ t = some l)
      (hk : l.schemas[v]? = some k) : Lists σ (.schemaVersion t v, .plain none k.toJson)

/-- What is listed once stays listed. -/
theorem Ledgers.Extends.lists {σ σ' : Ledgers} (h : σ.Extends σ') {w : Key × Record}
    (hw : σ.Lists w) : σ'.Lists w := by
  cases hw with
  | version hl hd =>
    obtain ⟨l', hl', hext⟩ := h _ _ hl
    exact .version hl' (getElem?_of_isPrefix hext.versions hd)
  | schema hl hk =>
    obtain ⟨l', hl', hext⟩ := h _ _ hl
    exact .schema hl' (getElem?_of_isPrefix hext.schemas hk)

/-- A version with the next numbers. -/
structure Ledger.Follows (l : Ledger) (h : TableHead) (schema : Option Schema) : Prop where
  version : h.version = l.versions.length
  schema : ∀ k ∈ schema, k.version = l.schemas.length

namespace Ledgers

variable {σ : Ledgers} {t : TableId} {l : Ledger} {now : Float} {h : TableHead}
  {schema : Option Schema}

/-- A ledger with versions is one that was there. -/
theorem eq_some_of_getD (hl : (σ t).getD (.blank l.dir h) = l)
    (hne : l.versions ≠ [] ∨ l.schemas ≠ []) : σ t = some l := by
  cases hσ : σ t with
  | none =>
    rw [hσ, Option.getD_none] at hl
    rw [← hl] at hne
    rcases hne with hne | hne <;> exact absurd rfl hne
  | some m =>
    rw [hσ, Option.getD_some] at hl
    rw [hl]

/-- After a push, what is listed is one of the records of the new version, or it
was listed before and the new version has no record under its key. -/
theorem lists_put (hl : (σ t).getD (.blank l.dir h) = l) (hf : l.Follows h schema)
    {w : Key × Record} (hw : (σ.put t (l.push now h schema)).Lists w) :
    w ∈ commitWrites t l.dir now h schema ∨
      (σ.Lists w ∧ ∀ x ∈ commitWrites t l.dir now h schema, x.1 ≠ w.1) := by
  cases hw with
  | @version u m v d hm hd =>
    rcases put_cases hm with ⟨rfl, rfl⟩ | ⟨hu, hm⟩
    · rcases getElem?_concat_eq_some_iff.1 hd with hd | ⟨hv, rfl⟩
      · right
        have hlt : v < l.versions.length := (List.getElem?_eq_some_iff.1 hd).1
        have hne : l.versions ≠ [] := List.ne_nil_of_mem (List.mem_of_getElem? hd)
        refine ⟨.version (eq_some_of_getD hl (.inl hne)) hd, fun x hx => ?_⟩
        apply Store.ne_tableVersion_of_mem _ hx
        rintro ⟨_, rfl⟩
        rw [hf.version] at hlt
        exact Nat.lt_irrefl _ hlt
      · left
        rw [hv, ← hf.version]
        exact Store.mem_commitWrites_iff.2 (.inr (.inl rfl))
    · right
      exact ⟨.version hm hd, fun x hx => Store.ne_tableVersion_of_mem (fun hv => hu hv.1) hx⟩
  | @schema u m v k hm hk =>
    rcases put_cases hm with ⟨rfl, rfl⟩ | ⟨hu, hm⟩
    · rcases Ledger.getElem?_push_schemas hk with hk | ⟨hk', hv⟩
      · right
        have hlt : v < l.schemas.length := (List.getElem?_eq_some_iff.1 hk).1
        have hne : l.schemas ≠ [] := List.ne_nil_of_mem (List.mem_of_getElem? hk)
        refine ⟨.schema (eq_some_of_getD hl (.inr hne)) hk, fun x hx => ?_⟩
        apply Store.ne_schemaVersion_of_mem _ hx
        rintro k' hk' ⟨_, rfl⟩
        rw [hf.schema k' hk'] at hlt
        exact Nat.lt_irrefl _ hlt
      · left
        rw [hv, ← hf.schema k hk']
        exact Store.mem_commitWrites_iff.2 (.inl ⟨k, hk', rfl⟩)
    · right
      exact ⟨.schema hm hk, fun x hx => Store.ne_schemaVersion_of_mem (fun _ _ hv => hu hv.1) hx⟩

end Ledgers

namespace Store

/-- The records of the heads and of the listed versions are in the store as they
were written. -/
structure Holds (s : Store) (σ : Ledgers) : Prop where
  head : ∀ t l, σ t = some l → s.get? (.table t) = some (.plain l.dir l.head.toJson)
  absent : ∀ t, σ t = none → s.get? (.table t) = none
  listed : ∀ w, σ.Lists w → s.get? w.1 = some w.2

theorem holds_empty : Store.Holds .empty fun _ => none := by
  refine ⟨nofun, fun _ _ => rfl, fun w hw => ?_⟩
  cases hw with
  | version hl => cases hl
  | schema hl => cases hl

namespace Holds

variable {s : Store} {σ : Ledgers} {t : TableId} {l : Ledger} {now : Float} {h : TableHead}
  {schema : Option Schema}

/-- A head that can be read is that of the ledger. -/
theorem exists_ledger (hs : s.Holds σ) (hσ : ∀ t l, σ t = some l → l.Numbered) {x : Table}
    (hx : s.table t = .ok x) : ∃ l, σ t = some l ∧ x = ⟨t, l.dir, l.head⟩ := by
  obtain ⟨r, hr, hd, hx⟩ := table_eq_ok_iff.1 hx
  cases hl : σ t with
  | none =>
    rw [hs.absent t hl] at hr
    cases hr
  | some l =>
    rw [hs.head t l hl] at hr
    cases hr
    have hhead : x.head = l.head := by
      rw [TableHead.eq_settled_of_decode hd, (hσ t l hl).settled]
    exact ⟨l, rfl, by rw [hx, hhead]; rfl⟩

/-- A listed data version that can be read is read as it is listed. -/
theorem eq_of_dataVersion (hs : s.Holds σ) (hl : σ t = some l) {v : Version} {d e : DataVersion}
    (hd : l.versions[v]? = some d) (he : s.dataVersion t v = .ok e) : e = d := by
  obtain ⟨r, hr, he⟩ := dataVersion_eq_ok_iff.1 he
  have hrecord := hs.listed _ (.version hl hd)
  rw [hr] at hrecord
  cases hrecord
  exact DataVersion.eq_of_decode he

/-- Writing the records of the next version pushes it onto the ledger of the
table, or opens one. -/
theorem commit (hs : s.Holds σ) (hl : (σ t).getD (.blank l.dir h) = l) (hf : l.Follows h schema) :
    (s.write (commitWrites t l.dir now h schema)).Holds (σ.put t (l.push now h schema)) := by
  refine ⟨fun u m hm => ?_, fun u hu => ?_, fun w hw => ?_⟩
  · rcases Ledgers.put_cases hm with ⟨rfl, rfl⟩ | ⟨hu, hm⟩
    · rw [get?_commit_table, if_pos rfl]
      show some (Record.plain l.dir h.toJson) = some (.plain l.dir h.settled.toJson)
      rw [TableHead.toJson_settled]
    · rw [get?_commit_table, if_neg hu, hs.head u m hm]
  · by_cases hut : u = t
    · subst hut
      rw [Ledgers.put_self] at hu
      cases hu
    · rw [Ledgers.put_of_ne hut] at hu
      rw [get?_commit_table, if_neg hut, hs.absent u hu]
  · rcases Ledgers.lists_put hl hf hw with hnew | ⟨hold, hfree⟩
    · exact get?_write_of_mem nodup_commitWrites hnew
    · rw [get?_write_of_notMem hfree]
      exact hs.listed w hold

/-- Records that belong to no table do not matter. -/
theorem foreign (hs : s.Holds σ) {ws : List (Key × Record)}
    (hkeys : ∀ w ∈ ws, w.1.isForeign = true) : (s.write ws).Holds σ where
  head u m hm := (get?_write_foreign hkeys rfl).trans (hs.head u m hm)
  absent u hu := (get?_write_foreign hkeys rfl).trans (hs.absent u hu)
  listed w hw := by
    have hown : w.1.isForeign = false := by cases hw <;> rfl
    rw [get?_write_foreign hkeys hown]
    exact hs.listed w hw

/-- A store on the way to the next version still holds the ledgers. -/
theorem between {s' part : Store} {σ' : Ledgers} (hs : s.Holds σ) (hs' : s'.Holds σ')
    (hext : σ.Extends σ') (hpart : s.Between s' part) : part.Holds σ where
  head t l hl := (hpart.table t).trans (hs.head t l hl)
  absent t hl := (hpart.table t).trans (hs.absent t hl)
  listed w hw := by
    rcases hpart.other w.1 with hold | hnew
    · rw [hold, hs.listed w hw]
    · rw [hnew, hs'.listed w (hext.lists hw)]

end Holds
end Store

/-! ### Steps -/

/-- The data version that a mutation answers. -/
def Outcome.version? : Outcome → Option Version
  | version v => some v
  | column v _ => some v
  | rows v _ => some v
  | _ => none

/-- What the plan of an operation makes of the ledgers: nothing, or it opens one
at version 0, or it pushes the next version onto the one whose current version
the operation expects. -/
inductive Ledgers.Step (σ : Ledgers) (op : Operation) (p : Plan Outcome) : Ledgers → Prop
  | foreign (hop : op.table? = none) (hkeys : ∀ w ∈ p.writes, w.1.isForeign = true) :
      Step σ op p σ
  | birth {now : Float} {t : TableId} {dir : Option DirId} {h : TableHead} {k : Schema}
      (hop : op.table? = some t) (hexpected : op.expected? = none) (hnew : σ t = none)
      (hversion : h.version = 0) (hfollows : (Ledger.blank dir h).Follows h (some k))
      (hwrites : p.writes = commitWrites t dir now h (some k)) :
      Step σ op p (σ.put t ((Ledger.blank dir h).push now h (some k)))
  | mutation {now : Float} {t : TableId} {l : Ledger} {h : TableHead} {schema : Option Schema}
      (hop : op.table? = some t) (hl : σ t = some l) (hlive : l.head.isSnapshot = false)
      (hexpected : op.expected? = some l.head.version) (hversion : h.version = l.head.version + 1)
      (hanswer : p.result.version? = some h.version) (hfollows : l.Follows h schema)
      (hwrites : p.writes = commitWrites t l.dir now h schema) :
      Step σ op p (σ.put t (l.push now h schema))

/-- What an attempt makes of the ledgers. -/
inductive Progress (c : Catalog) (σ : Ledgers) (a : Attempt) : Ledgers → Prop
  | still (hs : c.success? a = none) : Progress c σ a σ
  | done {op : Operation} {p : Plan Outcome} {σ' : Ledgers}
      (hs : c.success? a = some (op, p.result)) (hwrites : c.completed a = p.writes)
      (hstep : σ.Step op p σ') : Progress c σ a σ'

namespace Catalog

/-- The store of a catalog holds ledgers that are numbered, and takes any number
of records. -/
structure Holds (c : Catalog) (σ : Ledgers) : Prop where
  unlimited : c.writesLeft = none
  store : c.store.Holds σ
  numbered : ∀ t l, σ t = some l → l.Numbered

/-- A catalog over an empty store holds no ledger. -/
theorem holds_fresh (config : Config) (registry : Registry) :
    (fresh config registry).Holds fun _ => none :=
  ⟨rfl, Store.holds_empty, nofun⟩

namespace Holds

variable {c : Catalog} {σ : Ledgers}

/-- The records of a version that follows can be written, all or in part. -/
theorem push (hc : c.Holds σ) {t : TableId} {l : Ledger} (now : Float) {h : TableHead}
    {schema : Option Schema} (hl : (σ t).getD (.blank l.dir h) = l) (hf : l.Follows h schema)
    (hpush : (l.push now h schema).Numbered) (hext : σ.Extends (σ.put t (l.push now h schema))) :
    (c.store.write (commitWrites t l.dir now h schema)).Holds (σ.put t (l.push now h schema)) ∧
      (∀ u m, σ.put t (l.push now h schema) u = some m → m.Numbered) ∧
      ∀ n < (commitWrites t l.dir now h schema).length,
        (c.store.write ((commitWrites t l.dir now h schema).take n)).Holds σ := by
  have hall : (c.store.write (commitWrites t l.dir now h schema)).Holds
      (σ.put t (l.push now h schema)) := hc.store.commit hl hf
  refine ⟨hall, Ledgers.forall_put hc.numbered hpush, fun n hn => ?_⟩
  exact hc.store.between hall hext (Store.between_write_take hn)

/-- The next version of a table follows its ledger. -/
theorem push_next (hc : c.Holds σ) {t : TableId} {l : Ledger} (hl : σ t = some l) (now : Float)
    (h : TableHead) (schema : Option Schema) (hversion : h.version = l.head.version + 1)
    (hschema : h.schemaVersion = l.head.schemaVersion + schema.toList.length)
    (hk : ∀ k ∈ schema, k.version = l.head.schemaVersion + 1) (hname : h.name = l.head.name)
    (hview : h.view = l.head.view) :
    l.Follows h schema ∧ σ.Extends (σ.put t (l.push now h schema)) ∧
      (c.store.write (commitWrites t l.dir now h schema)).Holds (σ.put t (l.push now h schema)) ∧
      (∀ u m, σ.put t (l.push now h schema) u = some m → m.Numbered) ∧
      ∀ n < (commitWrites t l.dir now h schema).length,
        (c.store.write ((commitWrites t l.dir now h schema).take n)).Holds σ := by
  have hl' : l.Numbered := hc.numbered t l hl
  have hf : l.Follows h schema := by
    refine ⟨?_, fun k hk' => ?_⟩
    · rw [hl'.paired.length, hversion]
    · rw [hl'.length, hk k hk']
  have hext : σ.Extends (σ.put t (l.push now h schema)) := by
    apply Ledgers.Extends.put
    intro m hm
    rw [hl] at hm
    cases hm
    exact hl'.extends_push hname hview
  exact ⟨hf, hext, hc.push now (by rw [hl]; rfl) hf (hl'.push hversion hschema) hext⟩

/-- The plan of an operation makes a step. If it is written in part, nothing happens. -/
theorem step (hc : c.Holds σ) {now : Float} {op : Operation} {room : Option Nat}
    {p : Plan Outcome} (hp : op.plan (c.limited room) now = .ok p)
    (hfresh : op.isFresh c.store = true) :
    ∃ σ', σ.Step op p σ' ∧ σ.Extends σ' ∧ (c.store.write p.writes).Holds σ' ∧
      (∀ u m, σ' u = some m → m.Numbered) ∧
      ∀ n < p.writes.length, (c.store.write (p.writes.take n)).Holds σ := by
  cases effect_of_plan hp with
  | foreign hop hkeys =>
    refine ⟨σ, .foreign hop hkeys, .refl σ, hc.store.foreign hkeys, hc.numbered, fun n _ => ?_⟩
    exact hc.store.foreign fun w hw => hkeys w (List.take_subset n _ hw)
  | @birth t dir d log hbirth =>
    have hnew : σ t = none := by
      cases hl : σ t with
      | none => rfl
      | some l =>
        have hhead := hc.store.head t l hl
        rw [hbirth.get?_eq_none hfresh] at hhead
        cases hhead
    have hexpected : op.expected? = none := by cases hbirth <;> rfl
    have hversion : d.head.version = 0 := hbirth.head_version
    have hschema : d.head.schemaVersion = 0 := hbirth.continues.schemaVersion
    have hf : (Ledger.blank dir d.head).Follows d.head (some d.schema) := by
      refine ⟨hversion, fun k hk => ?_⟩
      cases hk
      exact hbirth.continues.version
    have hext :
        σ.Extends (σ.put t ((Ledger.blank dir d.head).push now d.head (some d.schema))) := by
      apply Ledgers.Extends.put
      intro l hl
      rw [hnew] at hl
      cases hl
    have hpush := hc.push (t := t) now (by rw [hnew]; rfl) hf
      (Ledger.numbered_birth hversion hschema) hext
    exact ⟨_, .birth hbirth.table?_eq hexpected hnew hversion hf rfl, hext, hpush⟩
  | @edit t x k d answer log hop hx hlive hexpected hschema hedit hanswer =>
    obtain ⟨l, hl, rfl⟩ := hc.store.exists_ledger hc.numbered hx
    obtain ⟨n, history, hhead⟩ := hedit.head_eq
    obtain ⟨m, retained, hcolumns⟩ := hedit.schema_eq
    have hversion : d.head.version = l.head.version + 1 := by rw [hhead]; rfl
    have hnext : d.schema.compact.version = l.head.schemaVersion + 1 := by
      show d.schema.version = _
      rw [hcolumns]
      rfl
    have hresult : answer.version? = some d.head.version := by
      rcases hanswer with ⟨rfl, _⟩ | ⟨rfl, _⟩ <;> rfl
    obtain ⟨hf, hpush⟩ := hc.push_next hl now d.head (some d.schema.compact)
      hversion (by rw [hhead]; rfl) (fun k hk => by cases hk; exact hnext) (by rw [hhead]; rfl)
      (by rw [hhead]; rfl)
    exact ⟨_, .mutation hop hl hlive hexpected hversion hresult hf rfl, hpush⟩
  | @rows t x h answer log hop hx hlive hexpected hrows hanswer =>
    obtain ⟨l, hl, rfl⟩ := hc.store.exists_ledger hc.numbered hx
    obtain ⟨n, hhead⟩ := hrows.head_eq
    have hversion : h.version = l.head.version + 1 := by rw [hhead]
    have hresult : answer.version? = some h.version := by
      rcases hanswer with rfl | ⟨rows, rfl⟩ <;> rfl
    obtain ⟨hf, hpush⟩ := hc.push_next hl now h none hversion
      (by rw [hhead]; rfl) (fun k hk => by cases hk) (by rw [hhead]) (by rw [hhead])
    exact ⟨_, .mutation hop hl hlive hexpected hversion hresult hf rfl, hpush⟩

/-- An attempt makes progress, and the store goes on to hold ledgers. -/
theorem attempt (hc : c.Holds σ) {a : Attempt} (ha : a.action.isFresh c.store = true) :
    ∃ σ', (c.attempt a).Holds σ' ∧ Progress c σ a σ' ∧ σ.Extends σ' := by
  have htrial := c.trial hc.unlimited a
  generalize c.attempt a = c' at htrial ⊢
  cases htrial with
  | still hs hstore hleft =>
    have hold : c'.store.Holds σ := by
      rw [hstore]
      exact hc.store
    exact ⟨σ, ⟨hleft, hold, hc.numbered⟩, .still hs, .refl σ⟩
  | done haction hp hs =>
    rw [haction] at ha
    obtain ⟨σ', hstep, hext, hall, hnumbered, _⟩ := hc.step hp ha
    have hwrites := completed_of_success? haction hp hs
    exact ⟨σ', ⟨hc.unlimited, hall, hnumbered⟩, .done hs hwrites hstep, hext⟩
  | broken haction hp hs hn =>
    rw [haction] at ha
    obtain ⟨_, _, _, _, _, hpart⟩ := hc.step hp ha
    exact ⟨σ, ⟨hc.unlimited, hpart _ hn, hc.numbered⟩, .still hs, .refl σ⟩

end Holds
end Catalog

end Cadastre
