/-
# What holds along a run

Of every table a store keeps a sound ledger: its data versions are paired with
its schema versions, each schema version follows the one before it, and the
head chronicles them. An action that is allowed leaves the ledgers as they are,
opens one, or pushes one version onto one of them (`Advance`); the ledgers stay
sound (`Catalog.Keeps.act`), and so they do along a whole run, which advances
action by action (`Catalog.Keeps.after`). A catalog over an empty store keeps
no ledger, so this holds of every run from one.

Key definitions: `Paired`, `Linked`, `Ledger.Sound`, `Advance`,
`Catalog.Keeps`, `Ledgers.Commits`, `Course`.
Key theorems: `Catalog.Keeps.commits_of_plan`, `Catalog.Keeps.act`,
`Catalog.Keeps.after`, `Catalog.exists_course`.
-/
import Cadastre.Proofs.Effect

namespace Cadastre

/-! ### Chains of versions -/

/-- The data versions up to `v`, the last of them paired with schema version
`s`: each is paired with the schema version of the one before it or the next. -/
structure Paired (versions : List DataVersion) (v s : Nat) : Prop where
  length : versions.length = v + 1
  numbered : ∀ (i : Nat) d, versions[i]? = some d → d.version = i
  first : ∀ d, versions[0]? = some d → d.schemaVersion = 0
  step : ∀ (i : Nat) d e, versions[i]? = some d → versions[i + 1]? = some e →
    e.schemaVersion = d.schemaVersion ∨ e.schemaVersion = d.schemaVersion + 1
  last : ∀ d, versions[v]? = some d → d.schemaVersion = s
  le : s ≤ v

/-- The schema versions by number, each after the one before it. -/
structure Linked (schemas : List Schema) : Prop where
  numbered : ∀ (i : Nat) k, schemas[i]? = some k → k.version = i
  first : ∀ k, schemas[0]? = some k → k.preceding = none
  next : ∀ (i : Nat) k, schemas[i + 1]? = some k → k.preceding = some i

namespace Paired

theorem single (now : Float) : Paired [⟨now, 0, 0⟩] 0 0 where
  length := rfl
  numbered i d hd := by
    cases i with
    | zero => cases hd; rfl
    | succ i => cases hd
  first d hd := by cases hd; rfl
  step i d e _ he := by cases he
  last d hd := by cases hd; rfl
  le := Nat.le_refl 0

theorem push {versions : List DataVersion} {v s s' : Nat}
    (hp : Paired versions v s) (hs : s' = s ∨ s' = s + 1) (now : Float) :
    Paired (versions ++ [⟨now, v + 1, s'⟩]) (v + 1) s' := by
  have hle := hp.le
  refine ⟨by simp [hp.length], fun i d hd => ?_, fun d hd => ?_, fun i d e hd he => ?_,
    fun d hd => ?_, by omega⟩
  · rcases getElem?_concat_eq_some_iff.1 hd with hd | ⟨rfl, rfl⟩
    · exact hp.numbered i d hd
    · exact hp.length.symm
  · rcases getElem?_concat_eq_some_iff.1 hd with hd | ⟨h0, _⟩
    · exact hp.first d hd
    · rw [hp.length] at h0
      cases h0
  · rcases getElem?_concat_eq_some_iff.1 he with he | ⟨hi, rfl⟩
    · have hlt : i + 1 < versions.length := (List.getElem?_eq_some_iff.1 he).1
      rw [List.getElem?_append_left (by omega)] at hd
      exact hp.step i d e hd he
    · rw [hp.length] at hi
      obtain rfl : i = v := by omega
      rw [List.getElem?_append_left (by rw [hp.length]; omega)] at hd
      rw [hp.last d hd]
      exact hs
  · rcases getElem?_concat_eq_some_iff.1 hd with hd | ⟨_, rfl⟩
    · have hlt := (List.getElem?_eq_some_iff.1 hd).1
      rw [hp.length] at hlt
      omega
    · rfl

end Paired

namespace Linked

theorem single {k : Schema} (hv : k.version = 0) (hp : k.preceding = none) : Linked [k] where
  numbered i m hm := by
    cases i with
    | zero => cases hm; exact hv
    | succ i => cases hm
  first m hm := by cases hm; exact hp
  next i m hm := by cases hm

theorem push {schemas : List Schema} {k : Schema} {s : Nat} (hl : Linked schemas)
    (hlen : schemas.length = s + 1) (hv : k.version = s + 1) (hp : k.preceding = some s) :
    Linked (schemas ++ [k]) := by
  refine ⟨fun i m hm => ?_, fun m hm => ?_, fun i m hm => ?_⟩
  · rcases getElem?_concat_eq_some_iff.1 hm with hm | ⟨rfl, rfl⟩
    · exact hl.numbered i m hm
    · rw [hv, hlen]
  · rcases getElem?_concat_eq_some_iff.1 hm with hm | ⟨h0, _⟩
    · exact hl.first m hm
    · rw [hlen] at h0
      cases h0
  · rcases getElem?_concat_eq_some_iff.1 hm with hm | ⟨hi, rfl⟩
    · exact hl.next i m hm
    · rw [hlen] at hi
      rw [hp, Nat.succ_inj.1 hi]

end Linked

/-! ### Sound ledgers -/

namespace Ledger

/-- What holds of the ledger of every table. -/
structure Sound (l : Ledger) : Prop where
  paired : Paired l.versions l.head.version l.head.schemaVersion
  linked : Linked l.schemas
  chronicle : Chronicle l.head l.schemas
  schemas : ∀ k ∈ l.schemas, k.Sound ∧ k.Finite
  view : ∀ v ∈ l.head.view, v.Sound
  settled : l.head.settled = l.head
  version_le : l.head.version ≤ maxVersion
  nextColumn_lt : l.head.nextColumn < 2 ^ 32

theorem Sound.exists_schema {l : Ledger} (hl : l.Sound) {v : SchemaVersion}
    (hv : v ≤ l.head.schemaVersion) : ∃ k, l.schemas[v]? = some k := by
  have hlt : v < l.schemas.length := by
    rw [hl.chronicle.length]
    exact Nat.lt_succ_of_le hv
  exact ⟨l.schemas[v], List.getElem?_eq_getElem hlt⟩

theorem Sound.exists_version {l : Ledger} (hl : l.Sound) {v : Version} (hv : v ≤ l.head.version) :
    ∃ d, l.versions[v]? = some d := by
  have hlt : v < l.versions.length := by
    rw [hl.paired.length]
    exact Nat.lt_succ_of_le hv
  exact ⟨l.versions[v], List.getElem?_eq_getElem hlt⟩

section Push

variable {l : Ledger} {now : Float} {d : Draft}

/-- A draft that continues a ledger can be pushed onto it. -/
theorem takes_of_continues (hd : d.Continues l.schemas) (hs : d.schema.Sound)
    (hf : d.schema.Finite) (hv : d.head.version = l.versions.length)
    (hle : d.head.schemaVersion ≤ d.head.version) (hview : ∀ v ∈ d.head.view, v.Sound)
    (hnext : d.head.nextColumn < 2 ^ 32) (hnow : now.isFinite = true) :
    l.Takes now d.head (some d.schema) where
  time := hnow
  head := ⟨hd.chronicle.readable hnext, hd.chronicle.sound hle hview⟩
  version := hv
  schema k hk := by
    cases hk
    refine ⟨fun id c hc => ⟨?_, hf id c hc⟩, hs, hd.version⟩
    exact Nat.lt_trans (hd.lt_nextColumn (SortedMap.mem_keys_iff _ |>.2 ⟨c, hc⟩)) hnext

/-- Pushing a draft that continues a ledger keeps what the ledger says of the columns. -/
theorem sound_push (hd : d.Continues l.schemas) (hs : d.schema.Sound) (hf : d.schema.Finite)
    (hold : ∀ k ∈ l.schemas, k.Sound ∧ k.Finite)
    (hp : Paired (l.push now d.head (some d.schema)).versions d.head.version d.head.schemaVersion)
    (hl : Linked (l.push now d.head (some d.schema)).schemas) (hview : ∀ v ∈ d.head.view, v.Sound)
    (hmax : d.head.version ≤ maxVersion) (hnext : d.head.nextColumn < 2 ^ 32) :
    (l.push now d.head (some d.schema)).Sound where
  paired := hp
  linked := hl
  chronicle := hd.chronicle.congr rfl rfl rfl
  schemas k hk := by
    rcases List.mem_append.1 hk with hk | hk
    · exact hold k hk
    · rw [List.mem_singleton.1 hk]
      exact ⟨hs, hf⟩
  view v hv := by
    obtain ⟨w, hw, rfl⟩ := Option.map_eq_some_iff.1 hv
    exact ⟨(hview w hw).based, (hview w hw).fixed⟩
  settled := d.head.settled_settled
  version_le := hmax
  nextColumn_lt := hnext

end Push

/-- The first version of a table or view opens a sound ledger. -/
theorem sound_birth {c : Catalog} {op : Operation} {t : TableId} {dir : Option DirId} {d : Draft}
    {now : Float} (hb : Birth c op t dir d) (hop : op.isFinite = true)
    (hnow : now.isFinite = true) (hnext : d.head.nextColumn < 2 ^ 32) :
    (blank dir d.head).Takes now d.head (some d.schema) ∧
      ((blank dir d.head).push now d.head (some d.schema)).Sound := by
  have hv : d.head.version = 0 := hb.head_version
  have hs : d.head.schemaVersion = 0 := hb.continues.schemaVersion
  refine ⟨takes_of_continues hb.continues hb.sound (hb.finite hop) hv (by rw [hs, hv])
    hb.view_sound hnext hnow,
      sound_push hb.continues hb.sound (hb.finite hop) nofun ?_ ?_ hb.view_sound ?_ hnext⟩
  · rw [push, hv, hs]
    exact .single now
  · exact .single hb.continues.version hb.preceding
  · rw [hv]
    exact Nat.zero_le _

/-- The draft of the next schema version has sound columns. -/
theorem Sound.nextDraft {l : Ledger} (hl : l.Sound) {k : Schema}
    (hk : l.schemas[l.head.schemaVersion]? = some k) :
    (Catalog.nextDraft l.head k).schema.Sound := by
  obtain ⟨hks, _⟩ := hl.schemas k (List.mem_of_getElem? hk)
  refine ⟨fun p hp => ?_, hks.typed, hks.named, hks.retained⟩
  cases hp
  exact Nat.lt_succ_of_le (Nat.le_of_eq (hl.linked.numbered _ k hk))

/-- An edit of the current schema version makes the next version of a sound ledger. -/
theorem Sound.edit {l : Ledger} (hl : l.Sound) {c : Catalog} {op : Operation} {t : TableId}
    {k : Schema} {d : Draft} {now : Float} (hk : l.schemas[l.head.schemaVersion]? = some k)
    (he : Edit c t (Catalog.nextDraft l.head k) op d) (hop : op.isFinite = true)
    (hnow : now.isFinite = true) (hmax : d.head.version ≤ maxVersion)
    (hnext : d.head.nextColumn < 2 ^ 32) :
    l.Takes now d.head (some d.schema.compact) ∧
      (l.push now d.head (some d.schema.compact)).Sound := by
  obtain ⟨_, hkf⟩ := hl.schemas k (List.mem_of_getElem? hk)
  obtain ⟨n, history, hhead⟩ := he.head_eq
  obtain ⟨m, retained, hschema⟩ := he.schema_eq
  have hcont : d.Continues l.schemas :=
    he.continues (hl.chronicle.next hk) fun id x hx => hl.chronicle.added_lt_next hx
  have hcompact : Draft.Continues { d with schema := d.schema.compact } l.schemas :=
    hcont.congr rfl fun id => by rw [Schema.keys_compact]
  have hs : d.schema.compact.Sound := (he.sound (hl.nextDraft hk)).compact
  have hf : d.schema.compact.Finite := (he.finite hop hkf).compact
  have hv : d.head.version = l.head.version + 1 := by rw [hhead]; rfl
  have hsv : d.head.schemaVersion = l.head.schemaVersion + 1 := by rw [hhead]; rfl
  have hview : ∀ v ∈ d.head.view, v.Sound := by rw [hhead]; exact hl.view
  have hle : d.head.schemaVersion ≤ d.head.version := by
    rw [hv, hsv]
    exact Nat.succ_le_succ hl.paired.le
  refine ⟨takes_of_continues hcompact hs hf ?_ hle hview hnext hnow,
    sound_push hcompact hs hf hl.schemas ?_ ?_ hview hmax hnext⟩
  · rw [hl.paired.length, hv]
  · show Paired (l.versions ++ [⟨now, d.head.version, d.head.schemaVersion⟩]) d.head.version
      d.head.schemaVersion
    rw [hv, hsv]
    exact hl.paired.push (.inr rfl) now
  · refine hl.linked.push hl.chronicle.length ?_ ?_
    · rw [← hl.chronicle.length]
      exact hcompact.version
    · show d.schema.preceding = _
      rw [hschema]
      exact congrArg some (hl.linked.numbered _ k hk)

/-- A change of rows makes the next version of a sound ledger, at the same schema version. -/
theorem Sound.rows {l : Ledger} (hl : l.Sound) {op : Operation} {t : TableId} {h : TableHead}
    {now : Float} (hr : RowChange t { l.head with version := l.head.version + 1 } op h)
    (hnow : now.isFinite = true) (hmax : h.version ≤ maxVersion) :
    l.Takes now h none ∧ (l.push now h none).Sound := by
  obtain ⟨n, rfl⟩ := hr.head_eq
  have hc : Chronicle { l.head with version := l.head.version + 1, nextRow := n } l.schemas :=
    hl.chronicle.congr rfl rfl rfl
  have hle := hl.paired.le
  refine ⟨⟨hnow, ⟨hc.readable hl.nextColumn_lt, hc.sound (Nat.le_succ_of_le hle) hl.view⟩,
    hl.paired.length.symm, nofun⟩, ?_⟩
  constructor
  · exact hl.paired.push (.inl rfl) now
  · simpa [push] using hl.linked
  · show Chronicle _ (l.schemas ++ [])
    rw [List.append_nil]
    exact hc.congr rfl rfl rfl
  · simpa [push] using hl.schemas
  · intro v hv
    obtain ⟨w, hw, rfl⟩ := Option.map_eq_some_iff.1 hv
    exact ⟨(hl.view w hw).based, (hl.view w hw).fixed⟩
  · exact TableHead.settled_settled _
  · exact hmax
  · exact hl.nextColumn_lt

end Ledger

/-! ### Steps -/

namespace Catalog

variable {c : Catalog} {t : TableId} {now : Float} {op : Operation}

/-- An operation changes only the table that it names. -/
theorem table?_of_change? {a : Action} (h : c.change? t a = some op) : op.table? = some t := by
  cases a with
  | perform now op' =>
    rw [change?] at h
    split at h
    · split at h
      · cases h
        assumption
      · cases h
    · cases h
  | register f => cases h

theorem change?_of_ok {o : Outcome} (h : (c.perform now op).1.result = .ok o)
    (ht : op.table? = some t) : c.change? t (.perform now op) = some op := by
  simp [change?, h, ht]

/-- An operation on one table changes no other. -/
theorem change?_of_ne {u : TableId} {a : Action} (h : c.change? t a = some op) (hu : u ≠ t) :
    c.change? u a = none := by
  cases hc : c.change? u a with
  | none => rfl
  | some op' =>
    cases a with
    | perform now op'' =>
      have hop : ∀ {w o}, c.change? w (.perform now op'') = some o → o = op'' := by
        intro w o ho
        rw [change?] at ho
        split at ho
        · split at ho
          · cases ho
            rfl
          · cases ho
        · cases ho
      have htu := table?_of_change? hc
      rw [hop hc, ← hop h, table?_of_change? h, Option.some.injEq] at htu
      exact absurd htu.symm hu
    | register f => cases h

end Catalog

/-- What an action does to the ledgers: nothing, or it opens one, or it pushes a
version onto one. -/
inductive Advance (c : Catalog) (σ : Ledgers) : Action → Ledgers → Prop
  | idle {a : Action} (hidle : ∀ t, c.change? t a = none) : Advance c σ a σ
  | birth {now : Float} {op : Operation} {t : TableId} {dir : Option DirId} {d : Draft}
      (hchange : c.change? t (.perform now op) = some op) (hnew : σ t = none)
      (hbirth : Birth c op t dir d) :
      Advance c σ (.perform now op)
        (σ.put t ((Ledger.blank dir d.head).push now d.head (some d.schema)))
  | edit {now : Float} {op : Operation} {t : TableId} {l : Ledger} {k : Schema} {d : Draft}
      (hchange : c.change? t (.perform now op) = some op) (hl : σ t = some l)
      (hlive : l.head.isSnapshot = false) (hexpected : op.expected? = some l.head.version)
      (hschema : l.schemas[l.head.schemaVersion]? = some k)
      (hedit : Edit c t (Catalog.nextDraft l.head k) op d) :
      Advance c σ (.perform now op) (σ.put t (l.push now d.head (some d.schema.compact)))
  | rows {now : Float} {op : Operation} {t : TableId} {l : Ledger} {h : TableHead}
      (hchange : c.change? t (.perform now op) = some op) (hl : σ t = some l)
      (hlive : l.head.isSnapshot = false) (hexpected : op.expected? = some l.head.version)
      (hrows : RowChange t { l.head with version := l.head.version + 1 } op h) :
      Advance c σ (.perform now op) (σ.put t (l.push now h none))

/-- A catalog keeps sound ledgers, and its store takes any number of records. -/
structure Catalog.Keeps (c : Catalog) (σ : Ledgers) : Prop where
  unlimited : c.writesLeft = none
  store : c.store.Keeps σ
  exact : c.store.Exact σ
  sound : ∀ t l, σ t = some l → l.Sound

namespace Store

/-- Records that belong to no table do not matter to the ledgers. -/
theorem get?_write_foreign {s : Store} {ws : List (Key × Record)}
    (h : ∀ w ∈ ws, w.1.isForeign = true) {k : Key} (hk : k.isForeign = false) :
    (s.write ws).get? k = s.get? k :=
  get?_write_of_notMem fun w hw he => by
    rw [← he, h w hw] at hk
    cases hk

theorem Keeps.foreign {s : Store} {σ : Ledgers} (hk : s.Keeps σ) {ws : List (Key × Record)}
    (h : ∀ w ∈ ws, w.1.isForeign = true) : (s.write ws).Keeps σ :=
  hk.congr (fun _ => get?_write_foreign h rfl) (fun _ _ => get?_write_foreign h rfl)
    fun _ _ => get?_write_foreign h rfl

theorem Exact.foreign {s : Store} {σ : Ledgers} (he : s.Exact σ) {ws : List (Key × Record)}
    (h : ∀ w ∈ ws, w.1.isForeign = true) : (s.write ws).Exact σ :=
  he.congr (fun _ _ => get?_write_foreign h rfl) fun _ _ => get?_write_foreign h rfl

theorem Keeps.exists_ledger {s : Store} {σ : Ledgers} (hk : s.Keeps σ) {t : TableId} {x : Table}
    (hx : s.table t = .ok x) : ∃ l, σ t = some l ∧ x = ⟨t, l.dir, l.head⟩ := by
  cases hl : σ t with
  | none =>
    obtain ⟨r, hr, _⟩ := table_eq_ok_iff.1 hx
    rw [hk.absent t hl] at hr
    cases hr
  | some l =>
    rw [hk.head t l hl, Except.ok.injEq] at hx
    exact ⟨l, rfl, hx.symm⟩

end Store

namespace Catalog

variable {c : Catalog} {σ : Ledgers}

/-- A catalog over an empty store keeps no ledger. -/
theorem keeps_fresh (config : Config) (registry : Registry) :
    (fresh config registry).Keeps fun _ => none where
  unlimited := rfl
  store := Store.keeps_empty
  exact := Store.exact_empty
  sound := nofun

/-- Pushing a version that the ledger takes keeps the ledgers. -/
theorem Keeps.commit (hc : c.Keeps σ) {t : TableId} {l : Ledger} {now : Float} {h : TableHead}
    {schema : Option Schema} (hl : (σ t).getD (.blank l.dir h) = l)
    (ht : l.Takes now h schema) (hs : (l.push now h schema).Sound) :
    Keeps { c with store := c.store.write (commitWrites t l.dir now h schema) }
      (σ.put t (l.push now h schema)) where
  unlimited := hc.unlimited
  store := hc.store.commit hl ht
  exact := hc.exact.commit hl ht
  sound := Ledgers.forall_put hc.sound hs

end Catalog

/-- What the plan of an operation makes of the ledgers: nothing, as it writes no
record of a table; or it pushes a version onto one of them, or opens one. -/
inductive Ledgers.Commits (σ : Ledgers) (now : Float) (op : Operation) (p : Plan Outcome) :
    Ledgers → Prop
  | foreign (hop : op.table? = none) (hkeys : ∀ w ∈ p.writes, w.1.isForeign = true) :
      Commits σ now op p σ
  | version {t : TableId} {l : Ledger} {h : TableHead} {schema : Option Schema}
      (hl : (σ t).getD (.blank l.dir h) = l)
      (hwrites : p.writes = commitWrites t l.dir now h schema)
      (htakes : l.Takes now h schema) (hsound : (l.push now h schema).Sound) :
      Commits σ now op p (σ.put t (l.push now h schema))

namespace Catalog

variable {c : Catalog} {σ : Ledgers}

/-- The plan of an operation that is allowed advances the ledgers. -/
theorem Keeps.commits_of_plan (hc : c.Keeps σ) {now : Float} {op : Operation} {p : Plan Outcome}
    (ha : c.Allows (.perform now op)) (hp : op.plan c now = .ok p) :
    ∃ σ', σ.Commits now op p σ' ∧ Advance c σ (.perform now op) σ' := by
  obtain ⟨hnow, hop, hfresh, hlimits⟩ := ha
  have hperform := perform_of_plan hc.unlimited hp
  have hok : (c.perform now op).1.result = .ok p.result := by rw [hperform]
  rw [hperform] at hlimits
  cases effect_of_plan hp with
  | foreign htable hkeys =>
    exact ⟨σ, .foreign htable hkeys, .idle fun t => by simp [change?, hok, htable]⟩
  | @birth t dir d log hbirth =>
    have hnew : σ t = none := by
      cases hσ : σ t with
      | none => rfl
      | some l =>
        obtain ⟨r, hr, _⟩ := Store.table_eq_ok_iff.1 (hc.store.head t l hσ)
        rw [hbirth.get?_eq_none hfresh] at hr
        cases hr
    have hnext : d.head.nextColumn < 2 ^ 32 := by
      simpa [Reported.isWithinLimits, Outcome.isWithinLimits] using hlimits
    obtain ⟨htakes, hsound⟩ := Ledger.sound_birth hbirth hop hnow hnext
    exact ⟨_, .version (by rw [hnew]; rfl) rfl htakes hsound,
      .birth (change?_of_ok hok hbirth.table?_eq) hnew hbirth⟩
  | @edit t x k d answer log htable hx hlive hexpected hschema hedit hanswer =>
    obtain ⟨l, hl, rfl⟩ := hc.store.exists_ledger hx
    have hsound := hc.sound t l hl
    obtain ⟨k', hk'⟩ := hsound.exists_schema (Nat.le_refl _)
    obtain rfl : k = k' := by
      have hread := hc.store.schema t l _ k' hl hk'
      rw [hschema] at hread
      cases hread
      rfl
    have hmax : d.head.version ≤ maxVersion ∧ d.head.nextColumn < 2 ^ 32 := by
      rcases hanswer with ⟨rfl, hn⟩ | ⟨rfl, hn⟩
      · rw [hn]
        exact ⟨by simpa [Reported.isWithinLimits, Outcome.isWithinLimits] using hlimits,
          hsound.nextColumn_lt⟩
      · rw [hn]
        simpa [Reported.isWithinLimits, Outcome.isWithinLimits] using hlimits
    obtain ⟨htakes, hpush⟩ := hsound.edit hk' hedit hop hnow hmax.1 hmax.2
    exact ⟨_, .version (by rw [hl]; rfl) rfl htakes hpush,
      .edit (change?_of_ok hok htable) hl hlive hexpected hk' hedit⟩
  | @rows t x h answer log htable hx hlive hexpected hrows hanswer =>
    obtain ⟨l, hl, rfl⟩ := hc.store.exists_ledger hx
    have hmax : h.version ≤ maxVersion := by
      rcases hanswer with rfl | ⟨rows, rfl⟩ <;>
        simpa [Reported.isWithinLimits, Outcome.isWithinLimits] using hlimits
    obtain ⟨htakes, hpush⟩ := (hc.sound t l hl).rows hrows hnow hmax
    exact ⟨_, .version (by rw [hl]; rfl) rfl htakes hpush,
      .rows (change?_of_ok hok htable) hl hlive hexpected hrows⟩

/-- Writing a plan keeps what it makes of the ledgers. -/
theorem Keeps.write (hc : c.Keeps σ) {now : Float} {op : Operation} {p : Plan Outcome}
    {σ' : Ledgers} (h : σ.Commits now op p σ') :
    Keeps { c with store := c.store.write p.writes } σ' := by
  cases h with
  | foreign _ hkeys =>
    exact ⟨hc.unlimited, hc.store.foreign hkeys, hc.exact.foreign hkeys, hc.sound⟩
  | version hl hwrites htakes hsound =>
    rw [hwrites]
    exact hc.commit hl htakes hsound

/-- An action that is allowed advances the ledgers and keeps them. -/
theorem Keeps.act (hc : c.Keeps σ) {a : Action} (ha : c.Allows a) :
    ∃ σ', (c.act a).Keeps σ' ∧ Advance c σ a σ' := by
  cases a with
  | register f => exact ⟨σ, ⟨hc.unlimited, hc.store, hc.exact, hc.sound⟩, .idle fun _ => rfl⟩
  | perform now op =>
    cases hp : op.plan c now with
    | error e =>
      have hperform := perform_of_plan_error hp
      refine ⟨σ, ?_, .idle fun t => by simp [change?, hperform]⟩
      rw [Catalog.act, hperform]
      exact hc
    | ok p =>
      obtain ⟨σ', hcommits, hadvance⟩ := hc.commits_of_plan ha hp
      refine ⟨σ', ?_, hadvance⟩
      rw [Catalog.act, perform_of_plan hc.unlimited hp]
      exact hc.write hcommits

end Catalog

/-! ### Runs -/

/-- The advance of a run, action by action, with the ledgers kept before each. -/
inductive Course : Catalog → Ledgers → List Action → Ledgers → Prop
  | nil {c : Catalog} {σ : Ledgers} : Course c σ [] σ
  | cons {c : Catalog} {σ σ' σ'' : Ledgers} {a : Action} {as : List Action} (hc : c.Keeps σ)
      (hadvance : Advance c σ a σ') (hrest : Course (c.act a) σ' as σ'') : Course c σ (a :: as) σ''

/-- A run that is admitted advances the ledgers and keeps them. -/
theorem Catalog.Keeps.after {c : Catalog} {σ : Ledgers} (hc : c.Keeps σ) {as : List Action}
    (ha : c.Admits as) : ∃ σ', (c.after as).Keeps σ' ∧ Course c σ as σ' := by
  induction as generalizing c σ with
  | nil => exact ⟨σ, hc, .nil⟩
  | cons a as ih =>
    obtain ⟨σ', hc', hadvance⟩ := hc.act ha.1
    obtain ⟨σ'', hc'', hrest⟩ := ih hc' ha.2
    exact ⟨σ'', hc'', .cons hc hadvance hrest⟩

/-- Every admitted run from an empty store keeps sound ledgers. -/
theorem Catalog.exists_course {config : Config} {registry : Registry} {as : List Action}
    (ha : (fresh config registry).Admits as) :
    ∃ σ, ((fresh config registry).after as).Keeps σ ∧
      Course (fresh config registry) (fun _ => none) as σ :=
  (keeps_fresh config registry).after ha

end Cadastre
