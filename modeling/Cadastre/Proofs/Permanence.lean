/-
# Reclaimed columns stay out of reach

A column that can be reclaimed was dropped with a schema version that no
reachable data version is read with an earlier one than. Later data versions
are not read with an earlier one either, and a new snapshot fixes only versions
that stay readable. So the column stays out of reach for as long as no version
comes back: as long as no change of the retention reaches further back than the
oldest version that stayed readable when the column was chosen. A change that
does brings the column back (`Sample.readable_after_widening`).

Key definitions: `Operation.firstRetained?`, `Ledgers.Clears`.
Key theorems: `Ledger.Extends.notMem_of_dropped`, `Advance.clears`,
`Catalog.Keeps.after_clears`, `Catalog.unreadable_after_reclaimCandidates`.
-/
import Cadastre.Proofs.Bases
import Cadastre.Proofs.Reclaim

namespace Cadastre

/-- The first version that stays readable after a change of the retention. -/
def Operation.firstRetained? : Operation → Option Version
  | setRetention _ expected retained => some (expected + 2 - retained.toNat)
  | _ => none

/-! ### Dropped columns -/

/-- What was dropped stays dropped: the history of a ledger that has grown tells
the same of the schema versions that it had. -/
theorem Ledger.Extends.notMem_of_dropped {l l' : Ledger} (h : l.Extends l')
    (hl : Chronicle l.head l.schemas) (hl' : Chronicle l'.head l'.schemas) {id : ColumnId}
    {e : ColumnLife} (he : l.head.history.get? id = some e) {d : SchemaVersion}
    (hd : e.dropped = some d) {v : SchemaVersion} (hv : d ≤ v) {k : Schema}
    (hk : l'.schemas[v]? = some k) : id ∉ k.columns.keys := by
  obtain ⟨hadded, hdropped⟩ := (hl.recorded id e he).dropped d hd
  have hget : ∀ i ≤ l.head.schemaVersion, ∃ m, l.schemas[i]? = some m := by
    intro i hi
    have hlt : i < l.schemas.length := by
      rw [hl.length]
      exact Nat.lt_succ_of_le hi
    exact ⟨_, List.getElem?_eq_getElem hlt⟩
  -- the column lives when it is added, and no more when it is dropped
  obtain ⟨first, hfirst⟩ := hget e.added (hl.recorded id e he).added
  obtain ⟨last, hlast⟩ := hget d hdropped
  have hborn : id ∈ first.columns.keys := by
    refine (hl.member _ first hfirst id).2 ⟨e, he, Nat.le_refl _, fun x hx => ?_⟩
    rw [hd] at hx
    cases hx
    exact hadded
  have hgone : id ∉ last.columns.keys := by
    intro hmem
    obtain ⟨e', he', hlives⟩ := (hl.member _ last hlast id).1 hmem
    rw [he] at he'
    cases he'
    exact Nat.lt_irrefl d (hlives.2 d hd)
  -- so its entry in the longer history ends by then
  obtain ⟨e', he', hlives'⟩ :=
    (hl'.member _ first (getElem?_of_isPrefix h.schemas hfirst) id).1 hborn
  intro hmem
  obtain ⟨e'', he'', hlives⟩ := (hl'.member _ k hk id).1 hmem
  rw [he'] at he''
  cases he''
  apply hgone
  refine (hl'.member _ last (getElem?_of_isPrefix h.schemas hlast) id).2 ⟨e', he', ?_, ?_⟩
  · exact hlives'.1.trans (Nat.le_of_lt hadded)
  · exact fun x hx => Nat.lt_of_le_of_lt hv (hlives.2 x hx)

/-! ### Versions that stay clear of a drop -/

/-- The data versions from `first` on are read with schema version `d` or later,
and no earlier one stays readable. -/
structure Ledger.Clears (l : Ledger) (d : SchemaVersion) (first : Version) : Prop where
  window : ∀ k, l.schemas[l.head.schemaVersion]? = some k →
    first ≤ l.head.version + 1 - k.retained.toNat
  later : ∀ v e, first ≤ v → l.versions[v]? = some e → d ≤ e.schemaVersion

/-- A snapshot fixes the version of the table. -/
def Ledgers.Pins (σ : Ledgers) (t : TableId) (v : Version) : Prop :=
  ∃ w m source, σ w = some m ∧ m.head.view = some source ∧ (t, some v) ∈ source.bases

/-- All versions of table `t` that can be read are read with schema version `d`
or later, those that snapshots fix among them. -/
structure Ledgers.Clears (σ : Ledgers) (t : TableId) (l : Ledger) (d : SchemaVersion)
    (first : Version) : Prop where
  ledger : σ t = some l
  own : l.Clears d first
  pinned : ∀ v, σ.Pins t v → ∃ e, l.versions[v]? = some e ∧ d ≤ e.schemaVersion

namespace Ledger

variable {l : Ledger} {d : SchemaVersion} {first : Version}

/-- The current version is among those that stay readable. -/
theorem Clears.first_le (h : l.Clears d first) (hl : l.Sound) : first ≤ l.head.version := by
  obtain ⟨k, hk⟩ := hl.exists_schema (Nat.le_refl _)
  exact (h.window k hk).trans (hl.first_retained_le hk)

/-- The next version is clear too, if the retention does not reach back. -/
theorem Clears.push (h : l.Clears d first) (hl : l.Sound) {now : Float} {head : TableHead}
    {schema : Option Schema} (hl' : (l.push now head schema).Sound)
    (hwindow : ∀ k, (l.push now head schema).schemas[head.schemaVersion]? = some k →
      first ≤ head.version + 1 - k.retained.toNat) : (l.push now head schema).Clears d first where
  window := hwindow
  later v e hv he := by
    obtain ⟨e₀, he₀⟩ := hl.exists_version (h.first_le hl)
    have he₀' : (l.push now head schema).versions[first]? = some e₀ :=
      getElem?_of_isPrefix (List.prefix_append _ _) he₀
    exact (h.later first e₀ (Nat.le_refl _) he₀).trans (hl'.paired.schemaVersion_mono he₀' he hv)

end Ledger

/-- Of the edits only a change of the retention changes it. -/
theorem Edit.retained_eq {c : Catalog} {t : TableId} {d d' : Draft} {op : Operation}
    (he : Edit c t d op d') : d'.schema.retained = d.schema.retained ∨
      ∃ expected, op = .setRetention t expected d'.schema.retained := by
  cases he with
  | add => exact .inl rfl
  | rename => exact .inl rfl
  | alter => exact .inl rfl
  | drop => exact .inl rfl
  | retain => exact .inr ⟨_, rfl⟩

/-- A step leaves the ledger of the table clear, if the retention does not reach back. -/
theorem Advance.clears_own {c : Catalog} {σ σ' : Ledgers} {a : Action} (h : Advance c σ a σ')
    (hc : c.Keeps σ) (hc' : (c.act a).Keeps σ') {t : TableId} {l : Ledger} {d : SchemaVersion}
    {first : Version} (hl : σ t = some l) (hclear : l.Clears d first)
    (hkeep : ∀ op, c.change? t a = some op → ∀ v ∈ op.firstRetained?, first ≤ v) :
    ∃ l', σ' t = some l' ∧ l'.Clears d first := by
  have hs : l.Sound := hc.sound t l hl
  obtain ⟨k, hk⟩ := hs.exists_schema (Nat.le_refl _)
  have hwindow := hclear.window k hk
  cases h with
  | idle => exact ⟨l, hl, hclear⟩
  | @birth now op u dir d hchange hnew hbirth =>
    have hu : t ≠ u := by
      rintro rfl
      rw [hl] at hnew
      cases hnew
    exact ⟨l, by rw [Ledgers.put_of_ne hu, hl], hclear⟩
  | @edit now op u m k' draft hchange hm hlive hexpected hschema hedit =>
    by_cases hu : t = u
    · subst hu
      rw [hl] at hm
      cases hm
      rw [hk] at hschema
      cases hschema
      have hs' := hc'.sound t _ (Ledgers.put_self _ _ _)
      refine ⟨_, Ledgers.put_self _ _ _, hclear.push hs hs' fun k' hk' => ?_⟩
      obtain ⟨n, history, hhead⟩ := hedit.head_eq
      have hversion : draft.head.version = l.head.version + 1 := by rw [hhead]; rfl
      have hnext : draft.head.schemaVersion = l.schemas.length := by
        rw [hs.chronicle.length, hhead]
        rfl
      have hk' : k' = draft.schema.compact := by
        rw [hnext, Ledger.push, Option.toList_some, List.getElem?_concat_length] at hk'
        cases hk'
        rfl
      rw [hk', hversion]
      show first ≤ l.head.version + 2 - draft.schema.retained.toNat
      rcases hedit.retained_eq with hsame | ⟨expected, hop⟩
      · rw [hsame]
        exact hwindow.trans (Nat.sub_le_sub_right (Nat.le_succ _) _)
      · -- a change of the retention, which `hkeep` bounds
        have hbound := hkeep op hchange
        rw [hop] at hexpected hbound
        cases hexpected
        exact hbound _ rfl
    · exact ⟨l, by rw [Ledgers.put_of_ne hu, hl], hclear⟩
  | @rows now op u m h hchange hm hlive hexpected hrows =>
    by_cases hu : t = u
    · subst hu
      rw [hl] at hm
      cases hm
      have hs' := hc'.sound t _ (Ledgers.put_self _ _ _)
      refine ⟨_, Ledgers.put_self _ _ _, hclear.push hs hs' fun k' hk' => ?_⟩
      obtain ⟨n, rfl⟩ := hrows.head_eq
      have hk' : k' = k := by
        rw [Ledger.push, Option.toList_none, List.append_nil, hk] at hk'
        cases hk'
        rfl
      rw [hk']
      exact hwindow.trans (Nat.sub_le_sub_right (Nat.le_succ _) _)
    · exact ⟨l, by rw [Ledgers.put_of_ne hu, hl], hclear⟩

/-- A version that a snapshot of the table reads is clear. -/
theorem Catalog.Keeps.le_of_snapshot {c : Catalog} {σ : Ledgers} (hc : c.Keeps σ) {t : TableId}
    {l : Ledger} {d : SchemaVersion} {first : Version} (hσ : σ.Clears t l d first)
    {version : Option Version} {sn : Snapshot} (h : c.store.snapshot t version = .ok sn) :
    ∃ e k, l.versions[version.getD l.head.version]? = some e ∧ d ≤ e.schemaVersion ∧
      l.schemas[e.schemaVersion]? = some k ∧ sn = ⟨t, l.head.name, e, k⟩ := by
  have hs : l.Sound := hc.sound t l hσ.ledger
  obtain ⟨e, k, hretained, he, hk, hsn⟩ := hc.store.exists_of_snapshot hσ.ledger hs h
  obtain ⟨current, hcurrent⟩ := hs.exists_schema (Nat.le_refl _)
  have hwindow := ((hs.mem_retained_iff hcurrent).1 hretained).2
  rw [hs.paired.numbered _ e he] at hwindow
  have hle : d ≤ e.schemaVersion :=
    hσ.own.later _ e ((hσ.own.window current hcurrent).trans hwindow) he
  exact ⟨e, k, he, hle, hk, hsn⟩

/-- A step leaves the table clear: the versions that a new snapshot fixes were
readable, or fixed by the snapshot that it is taken of, or current. -/
theorem Advance.clears {c : Catalog} {σ σ' : Ledgers} {a : Action} (h : Advance c σ a σ')
    (hc : c.Keeps σ) (hc' : (c.act a).Keeps σ') {t : TableId} {l : Ledger} {d : SchemaVersion}
    {first : Version} (hσ : σ.Clears t l d first)
    (hkeep : ∀ op, c.change? t a = some op → ∀ v ∈ op.firstRetained?, first ≤ v) :
    ∃ l', σ'.Clears t l' d first := by
  obtain ⟨l', hl', hclear⟩ := h.clears_own hc hc' hσ.ledger hσ.own hkeep
  obtain ⟨m, hm, hext⟩ := h.extends hc t l hσ.ledger
  rw [hl'] at hm
  cases hm
  refine ⟨l', hl', hclear, fun v hv => ?_⟩
  have hold : (∃ e, l.versions[v]? = some e ∧ d ≤ e.schemaVersion) →
      ∃ e, l'.versions[v]? = some e ∧ d ≤ e.schemaVersion := by
    rintro ⟨e, he, hle⟩
    exact ⟨e, getElem?_of_isPrefix hext.versions he, hle⟩
  apply hold
  obtain ⟨w, m, source, hw, hview, hbase⟩ := hv
  rcases h.origin hc hw hview with ⟨m₀, hm₀, hview₀⟩ | ⟨base, version, hx, hbases⟩
  · exact hσ.pinned v ⟨w, m₀, source, hm₀, hview₀, hbase⟩
  · rcases Store.mem_resolveBases hbases hbase with ⟨hid, hread⟩ | ⟨source₀, hview₀, hmem⟩ |
      ⟨x, hx', hcurrent⟩
    · obtain ⟨sn, hsn⟩ := hread v rfl
      have hid : t = base.id := hid
      rw [← hid] at hsn
      obtain ⟨e, k, he, hle, _, _⟩ := hc.le_of_snapshot hσ hsn
      exact ⟨e, he, hle⟩
    · obtain ⟨m₀, hm₀, hbase₀⟩ := hc.store.exists_ledger hx
      rw [hbase₀] at hview₀
      exact hσ.pinned v ⟨base.id, m₀, source₀, hm₀, hview₀, hmem⟩
    · obtain ⟨l₀, hl₀, rfl⟩ := hc.store.exists_ledger hx'
      rw [hσ.ledger] at hl₀
      cases hl₀
      have hv : v = l.head.version := Option.some.inj hcurrent
      rw [hv]
      obtain ⟨e, he⟩ := (hc.sound t l hσ.ledger).exists_version (Nat.le_refl _)
      exact ⟨e, he, hσ.own.later _ e (hσ.own.first_le (hc.sound t l hσ.ledger)) he⟩

/-- A run leaves the table clear, if no change of the retention reaches back. -/
theorem Catalog.Keeps.after_clears {c : Catalog} {σ : Ledgers} (hc : c.Keeps σ) {t : TableId}
    {l : Ledger} {d : SchemaVersion} {first : Version} (hσ : σ.Clears t l d first)
    {as : List Action} (ha : c.Admits as)
    (hkeep : ∀ op ∈ c.changes t as, ∀ v ∈ op.firstRetained?, first ≤ v) :
    ∃ σ' l', (c.after as).Keeps σ' ∧ σ.Extends σ' ∧ σ'.Clears t l' d first := by
  induction as generalizing c σ l with
  | nil => exact ⟨σ, l, hc, .refl σ, hσ⟩
  | cons a as ih =>
    obtain ⟨σ', hc', hadvance⟩ := hc.act ha.1
    have hnow : ∀ op, c.change? t a = some op → ∀ v ∈ op.firstRetained?, first ≤ v := by
      intro op hop
      refine hkeep op (List.mem_append_left _ ?_)
      rw [hop]
      exact List.mem_singleton.2 rfl
    obtain ⟨l', hσ'⟩ := hadvance.clears hc hc' hσ hnow
    have hlater : ∀ op ∈ (c.act a).changes t as, ∀ v ∈ op.firstRetained?, first ≤ v :=
      fun op hop => hkeep op (List.mem_append_right _ hop)
    obtain ⟨σ'', l'', hc'', hext, hσ''⟩ := ih hc' hσ' ha.2 hlater
    exact ⟨σ'', l'', hc'', (hadvance.extends hc).trans hext, hσ''⟩

/-! ### What was chosen stays out of reach -/

namespace Catalog.Keeps

variable {c : Catalog} {σ : Ledgers} {t : TableId} {l : Ledger}

/-- When columns to reclaim are chosen, the table is clear of the drop of each of them. -/
theorem clears_of_reclaimCandidates (hc : c.Keeps σ) (hσ : σ.Based) (hl : σ t = some l)
    {cs : List ColumnId} (h : (c.store.reclaimCandidates t).result = .ok cs) {id : ColumnId}
    (hid : id ∈ cs) {oldest : DataVersion} {newer : List DataVersion}
    (hr : c.store.retainedVersions t = .ok (oldest :: newer)) :
    ∃ e d, l.head.history.get? id = some e ∧ e.dropped = some d ∧
      σ.Clears t l d oldest.version := by
  have hs : l.Sound := hc.sound t l hl
  obtain ⟨x, ks, rs, ps, hx, _, hrs, hps, rfl⟩ := Store.reclaimCandidates_eq_ok h
  rw [hc.store.head t l hl] at hx
  cases hx
  obtain ⟨i, e, d, he, hcolumn, hd, hreach⟩ := exists_drop_of_mem_reclaimable hid
  have hi : i = id := (hs.chronicle.recorded i e he).filed.symm.trans hcolumn
  subst hi
  -- no reachable version is read with a schema version from before the drop
  have hle : ∀ v r, c.store.IsReachable t v → l.versions[v]? = some r → d ≤ r.schemaVersion :=
    fun v r hv hr =>
      hreach _ (hc.store.mem_reachable hrs hps hv (hc.store.version t l v r hl hr))
  have hretained : l.retained = oldest :: newer := by
    have heq := hc.store.retainedVersions_eq hl hs
    rw [hr] at heq
    exact (Except.ok.inj heq).symm
  obtain ⟨k, hk⟩ := hs.exists_schema (Nat.le_refl _)
  have hfloor : oldest.version = l.head.version + 1 - k.retained.toNat := by
    have hfirst : l.versions[l.versions.length - k.retained.toNat]? = some oldest := by
      have hget : l.retained[0]? = some oldest := by rw [hretained]; rfl
      rw [Ledger.retained, hk] at hget
      show l.versions[l.versions.length - k.retained.toNat + 0]? = some oldest
      rw [← List.getElem?_drop]
      exact hget
    rw [hs.paired.numbered _ oldest hfirst, hs.paired.length]
  refine ⟨e, d, he, hd, hl, ⟨fun k' hk' => ?_, fun v r hv hr' => ?_⟩, fun v hpin => ?_⟩
  · rw [hk] at hk'
    cases hk'
    exact Nat.le_of_eq hfloor
  · have hmem : r ∈ l.retained := by
      refine (hs.mem_retained_iff hk).2 ⟨List.mem_of_getElem? hr', ?_⟩
      rw [← hfloor, hs.paired.numbered v r hr']
      exact hv
    rw [hretained] at hmem
    exact hle v r (.inl ⟨_, r, hr, hmem, hs.paired.numbered v r hr'⟩) hr'
  · obtain ⟨w, m, source, hm, hview, hbase⟩ := hpin
    obtain ⟨l₀, hl₀, hbound⟩ := hσ w m source hm hview _ hbase
    rw [hl] at hl₀
    cases hl₀
    obtain ⟨r, hr'⟩ := hs.exists_version (hbound v rfl)
    have hsnap : source.isSnapshot = true :=
      (((hc.sound w m hm).view source hview).fixed _ hbase).symm
    exact ⟨r, hr', hle v r (.inr ⟨w, _, source, hc.store.head w m hm, hview, hsnap, hbase⟩) hr'⟩

/-- A version that is read through a table or a view is clear. -/
theorem le_of_mem_effectiveSchema (hc : c.Keeps σ) {d : SchemaVersion} {first : Version}
    (hσ : σ.Clears t l d first) {w : TableId} {version : Option Version}
    {es : List EffectiveColumn} (h : c.store.effectiveSchema w version = .ok es)
    {e : EffectiveColumn} (he : e ∈ es) (ht : e.table = t) :
    ∃ v k, d ≤ v ∧ l.schemas[v]? = some k ∧ e.id ∈ k.columns.keys := by
  have hs : l.Sound := hc.sound t l hσ.ledger
  subst ht
  rcases Store.routes_of_mem_effectiveSchema h he with
    ⟨sn, hsn, hmem⟩ | ⟨y, source, v, x, sn, hy, hview, hbase, hx, hsn, hmem⟩
  · obtain ⟨r, k, _, hle, hk, rfl⟩ := hc.le_of_snapshot hσ hsn
    exact ⟨r.schemaVersion, k, hle, hk, hmem⟩
  · obtain ⟨m, hm, rfl⟩ := hc.store.exists_ledger hx
    rw [hσ.ledger] at hm
    cases hm
    obtain ⟨r, k, hr, hk, rfl⟩ := hc.store.exists_of_snapshotAt hσ.ledger hs hsn
    refine ⟨r.schemaVersion, k, ?_, hk, hmem⟩
    cases v with
    | none => exact hσ.own.later _ r (hσ.own.first_le hs) hr
    | some v =>
      obtain ⟨m, hm, rfl⟩ := hc.store.exists_ledger hy
      obtain ⟨r', hr', hle⟩ := hσ.pinned v ⟨w, m, source, hm, hview, hbase⟩
      rw [Option.getD_some, hr'] at hr
      cases hr
      exact hle

end Catalog.Keeps

/-- A column that can be reclaimed is in no snapshot of its table and is read
through no table or view at any later point of the run, if no change of the
retention in between reaches further back than the oldest version that was
readable. -/
theorem Catalog.unreadable_after_reclaimCandidates {config : Config} {registry : Registry}
    {as bs : List Action} (ha : (fresh config registry).Admits (as ++ bs)) {t : TableId}
    {cs : List ColumnId}
    (h : (((fresh config registry).after as).store.reclaimCandidates t).result = .ok cs)
    {id : ColumnId} (hid : id ∈ cs) {oldest : DataVersion} {newer : List DataVersion}
    (hr : ((fresh config registry).after as).store.retainedVersions t = .ok (oldest :: newer))
    (hkeep : ∀ op ∈ ((fresh config registry).after as).changes t bs,
      ∀ v ∈ op.firstRetained?, oldest.version ≤ v) :
    (∀ version sn, ((fresh config registry).after (as ++ bs)).store.snapshot t version = .ok sn →
      id ∉ sn.schema.columns.keys) ∧
    (∀ w version es,
      ((fresh config registry).after (as ++ bs)).store.effectiveSchema w version = .ok es →
        ∀ e ∈ es, ¬ (e.table = t ∧ e.id = id)) := by
  rw [admits_append] at ha
  obtain ⟨σ, hc, _, hσ⟩ := (keeps_fresh config registry).after_based Ledgers.based_empty ha.1
  obtain ⟨x, _, _, _, hx, _⟩ := Store.reclaimCandidates_eq_ok h
  obtain ⟨l, hl, _⟩ := hc.store.exists_ledger hx
  obtain ⟨e, d, he, hd, hclear⟩ := hc.clears_of_reclaimCandidates hσ hl h hid hr
  obtain ⟨σ', l', hc', hext, hclear'⟩ := hc.after_clears hclear ha.2 hkeep
  obtain ⟨m, hm, hgrow⟩ := hext t l hl
  rw [hclear'.ledger] at hm
  cases hm
  have hgone : ∀ v k, d ≤ v → l'.schemas[v]? = some k → id ∉ k.columns.keys := fun v k hv hk =>
    hgrow.notMem_of_dropped (hc.sound t l hl).chronicle (hc'.sound t l' hclear'.ledger).chronicle
      he hd hv hk
  rw [after_append]
  constructor
  · intro version sn hsn
    obtain ⟨r, k, _, hle, hk, rfl⟩ := hc'.le_of_snapshot hclear' hsn
    exact hgone r.schemaVersion k hle hk
  · rintro w version es hes e' he' ⟨ht, rfl⟩
    obtain ⟨v, k, hle, hk, hmem⟩ := hc'.le_of_mem_effectiveSchema hclear' hes he' ht
    exact hgone v k hle hk hmem

namespace Sample

/-- A column is dropped, and as one version stays readable, it can be reclaimed. -/
def loss : List Action := creation ++ [.perform 2 (.dropColumn people 0 "nick")]

/-- The retention is changed, but reaches no further back, and rows come in. -/
def sequel : List Action := [
  .perform 3 (.setRetention people 1 2),
  .perform 4 (.insertRows people 2 10)]

/-- The retention is widened to versions that were no longer readable. -/
def widening : List Action := [.perform 3 (.setRetention people 1 10)]

end Sample

/-- The sequel does not bring the dropped column back. -/
theorem Sample.unreadable_after_loss :
    Sample.start.Admits (Sample.loss ++ Sample.sequel) ∧
      ((Sample.start.after Sample.loss).store.reclaimCandidates Sample.people).result = .ok [1] ∧
      1 ∈ [1] ∧ ∃ oldest newer,
        (Sample.start.after Sample.loss).store.retainedVersions Sample.people =
          .ok (oldest :: newer) ∧
        (∀ op ∈ (Sample.start.after Sample.loss).changes Sample.people Sample.sequel,
          ∀ v ∈ op.firstRetained?, oldest.version ≤ v) ∧
        (∀ version sn, (Sample.start.after (Sample.loss ++ Sample.sequel)).store.snapshot
          Sample.people version = .ok sn → 1 ∉ sn.schema.columns.keys) ∧
        (∀ w version es,
          (Sample.start.after (Sample.loss ++ Sample.sequel)).store.effectiveSchema w version =
            .ok es → ∀ e ∈ es, ¬ (e.table = Sample.people ∧ e.id = 1)) := by
  have ha : Sample.start.Admits (Sample.loss ++ Sample.sequel) := by decide +kernel
  have h : ((Sample.start.after Sample.loss).store.reclaimCandidates Sample.people).result =
      .ok [1] := eq_ok_of_toOption (by decide +kernel)
  have hid : 1 ∈ [1] := List.mem_singleton.2 rfl
  have hversions : ((Sample.start.after Sample.loss).store.retainedVersions
      Sample.people).toOption.map (fun rs => rs.map (·.version)) = some [1] := by decide +kernel
  obtain ⟨rs, hrs, hnumbers⟩ := Option.map_eq_some_iff.1 hversions
  obtain ⟨oldest, newer, rfl, holdest, _⟩ := List.map_eq_cons_iff.1 hnumbers
  have hr := eq_ok_of_toOption hrs
  have hkeep : ∀ op ∈ (Sample.start.after Sample.loss).changes Sample.people Sample.sequel,
      ∀ v ∈ op.firstRetained?, oldest.version ≤ v := by
    rw [holdest]
    have hfirst : ((Sample.start.after Sample.loss).changes Sample.people
        Sample.sequel).map Operation.firstRetained? = [some 1, none] := by decide +kernel
    intro op hop v hv
    have hmem : op.firstRetained? ∈ [some 1, none] := hfirst ▸ List.mem_map.2 ⟨op, hop, rfl⟩
    rw [Option.mem_def.1 hv] at hmem
    have hone : v = 1 := by simpa using hmem
    exact Nat.le_of_eq hone.symm
  exact ⟨ha, h, hid, oldest, newer, hr, hkeep,
    Catalog.unreadable_after_reclaimCandidates ha h hid hr hkeep⟩

/-- A widened retention makes a column readable again that could be reclaimed. -/
theorem Sample.readable_after_widening :
    Sample.start.Admits (Sample.loss ++ Sample.widening) ∧
      ((Sample.start.after Sample.loss).store.reclaimCandidates Sample.people).result = .ok [1] ∧
      ∃ sn, (Sample.start.after (Sample.loss ++ Sample.widening)).store.snapshot Sample.people
        (some 0) = .ok sn ∧ 1 ∈ sn.schema.columns.keys := by
  have ha : Sample.start.Admits (Sample.loss ++ Sample.widening) := by decide +kernel
  have h : ((Sample.start.after Sample.loss).store.reclaimCandidates Sample.people).result =
      .ok [1] := eq_ok_of_toOption (by decide +kernel)
  have hkeys : ((Sample.start.after (Sample.loss ++ Sample.widening)).store.snapshot Sample.people
      (some 0)).toOption.map (fun sn => sn.schema.columns.keys) = some [0, 1] := by decide +kernel
  obtain ⟨sn, hsn, hsnkeys⟩ := Option.map_eq_some_iff.1 hkeys
  refine ⟨ha, h, sn, eq_ok_of_toOption hsn, ?_⟩
  rw [hsnkeys]
  exact List.mem_cons_of_mem 0 (List.mem_singleton.2 rfl)

end Cadastre
