/-
# The bases of views

A view names its bases when it is created, and never again. A snapshot fixes of
every base a version that could be read then: of the direct base one that stays
readable, of the live bases behind it the current one, of the fixed ones the
version that they were fixed at (`Store.mem_resolveBases`). So along every run
the bases of every view are tables that exist, and a fixed version is never past
the current one (`Catalog.Keeps.after_based`).

Key definitions: `Ledgers.Based`.
Key theorems: `Store.mem_resolveBases`, `Birth.bases_eq`, `Advance.origin`,
`Advance.based`, `Catalog.Keeps.after_based`.
-/
import Cadastre.Proofs.Extension
import Cadastre.Proofs.Window

namespace Cadastre

/-! ### What the bases of a new view are -/

namespace Store

variable {s : Store}

/-- A base with its version fixed was fixed before, or it is fixed at the
current version of its table. -/
theorem mem_pinAll {bases pinned : List (TableId × Option Version)}
    (h : s.pinAll bases = .ok pinned) {b : TableId × Option Version} (hb : b ∈ pinned) :
    b ∈ bases ∨ ∃ x, s.table b.1 = .ok x ∧ b.2 = some x.head.version := by
  induction bases generalizing pinned with
  | nil =>
    cases h
    cases hb
  | cons a bases ih =>
    obtain ⟨t, v⟩ := a
    cases v with
    | some v =>
      obtain ⟨more, hmore, h⟩ := bind_eq_ok_iff.1 h
      cases h
      rcases List.mem_cons.1 hb with rfl | hb
      · exact .inl List.mem_cons_self
      · exact (ih hmore hb).imp_left (List.mem_cons_of_mem _)
    | none =>
      obtain ⟨x, hx, h⟩ := bind_eq_ok_iff.1 h
      obtain ⟨more, hmore, h⟩ := bind_eq_ok_iff.1 h
      cases h
      rcases List.mem_cons.1 hb with rfl | hb
      · exact .inr ⟨x, hx, rfl⟩
      · exact (ih hmore hb).imp_left (List.mem_cons_of_mem _)

/-- A base of a new view is the direct base, at a version that stays readable if
one is fixed; or one of the direct base's own bases; or a table that is fixed at
its current version. -/
theorem mem_resolveBases {base : Table} {isSnapshot : Bool} {version : Option Version}
    {bases : List (TableId × Option Version)}
    (h : s.resolveBases base isSnapshot version = .ok bases) {b : TableId × Option Version}
    (hb : b ∈ bases) :
    (b.1 = base.id ∧ ∀ v ∈ b.2, ∃ sn, s.snapshot base.id (some v) = .ok sn) ∨
      (∃ source, base.head.view = some source ∧ b ∈ source.bases) ∨
      ∃ x, s.table b.1 = .ok x ∧ b.2 = some x.head.version := by
  have hchain : b ∈ (base.head.view.map (·.bases)).getD [] →
      ∃ source, base.head.view = some source ∧ b ∈ source.bases := by
    intro hmem
    cases hview : base.head.view with
    | none =>
      rw [hview] at hmem
      cases hmem
    | some source =>
      rw [hview] at hmem
      exact ⟨source, rfl, hmem⟩
  unfold resolveBases at h
  cases isSnapshot with
  | true =>
    obtain ⟨sn, hsn, h⟩ := bind_eq_ok_iff.1 h
    obtain ⟨pinned, hpinned, h⟩ := bind_eq_ok_iff.1 h
    cases h
    rcases List.mem_cons.1 hb with rfl | hb
    · refine .inl ⟨rfl, fun v hv => ?_⟩
      cases hv
      exact ⟨sn, hsn⟩
    · rcases mem_pinAll hpinned hb with hmem | hcurrent
      · exact .inr (.inl (hchain hmem))
      · exact .inr (.inr hcurrent)
  | false =>
    simp only [Bool.false_eq_true, if_false] at h
    split at h
    · cases h
    · cases version with
      | some v => cases h
      | none =>
        cases h
        rcases List.mem_cons.1 hb with rfl | hb
        · exact .inl ⟨rfl, nofun⟩
        · exact .inr (.inl (hchain hb))

end Store

/-- The bases of a new view are resolved from those of a table that exists. -/
theorem Birth.bases_eq {c : Catalog} {op : Operation} {t : TableId} {dir : Option DirId} {d : Draft}
    (hb : Birth c op t dir d) {source : ViewSource} (hview : d.head.view = some source) :
    ∃ base version, c.store.table base.id = .ok base ∧
      c.store.resolveBases base source.isSnapshot version = .ok source.bases := by
  cases hb with
  | table _ hstart hgrow =>
    obtain ⟨n, _, rfl⟩ := newDraft_eq_ok hstart
    obtain ⟨m, history, hhead⟩ := hgrow.head_eq
    rw [hhead] at hview
    cases hview
  | @view _ _ _ base _ _ _ _ _ hbase hbases hstart _ hgrow =>
    obtain ⟨n, _, rfl⟩ := newDraft_eq_ok hstart
    obtain ⟨m, history, hhead⟩ := hgrow.head_eq
    rw [hhead] at hview
    cases hview
    have hid := Store.id_of_table hbase
    rw [← hid] at hbase
    exact ⟨base, _, hbase, hbases⟩

/-! ### Views that a step leaves or makes -/

/-- The view of a table after a step is the view that it had before, or the
table is new. -/
theorem Advance.origin {c : Catalog} {σ σ' : Ledgers} {a : Action} (h : Advance c σ a σ')
    (hc : c.Keeps σ) {w : TableId} {m' : Ledger} (hm' : σ' w = some m') {source : ViewSource}
    (hview : m'.head.view = some source) :
    (∃ m, σ w = some m ∧ m.head.view = some source) ∨
      ∃ base version, c.store.table base.id = .ok base ∧
        c.store.resolveBases base source.isSnapshot version = .ok source.bases := by
  cases hm : σ w with
  | some m =>
    obtain ⟨l, hl, hext⟩ := h.extends hc w m hm
    rw [hm'] at hl
    cases hl
    exact .inl ⟨m, rfl, hext.view ▸ hview⟩
  | none =>
    right
    have hne : ∀ {u : TableId} {l : Ledger}, σ u = some l → w ≠ u := by
      rintro u l hl rfl
      rw [hm] at hl
      cases hl
    cases h with
    | idle =>
      rw [hm] at hm'
      cases hm'
    | @birth now op u dir d hchange hnew hbirth =>
      rcases Ledgers.put_cases hm' with ⟨rfl, rfl⟩ | ⟨_, hm'⟩
      · obtain ⟨source', hsource, rfl⟩ := Option.map_eq_some_iff.1 hview
        show ∃ base version, c.store.table base.id = .ok base ∧
          c.store.resolveBases base source'.isSnapshot version = .ok source'.bases
        exact hbirth.bases_eq hsource
      · rw [hm] at hm'
        cases hm'
    | edit _ hl =>
      rw [Ledgers.put_of_ne (hne hl), hm] at hm'
      cases hm'
    | rows _ hl =>
      rw [Ledgers.put_of_ne (hne hl), hm] at hm'
      cases hm'

/-! ### Bases that exist -/

/-- The bases of every view have ledgers, and no fixed version is past the
current one of its table. -/
def Ledgers.Based (σ : Ledgers) : Prop :=
  ∀ (w : TableId) (m : Ledger) (source : ViewSource), σ w = some m → m.head.view = some source →
    ∀ b ∈ source.bases, ∃ l, σ b.1 = some l ∧ ∀ v ∈ b.2, v ≤ l.head.version

theorem Ledgers.based_empty : Ledgers.Based fun _ => none := by
  intro w m source hm
  cases hm

/-- The resolved bases have ledgers, and their versions are not past the current ones. -/
theorem Catalog.Keeps.based_of_resolveBases {c : Catalog} {σ : Ledgers} (hc : c.Keeps σ)
    (hσ : σ.Based) {base : Table} (hbase : c.store.table base.id = .ok base) {isSnapshot : Bool}
    {version : Option Version} {bases : List (TableId × Option Version)}
    (h : c.store.resolveBases base isSnapshot version = .ok bases) :
    ∀ b ∈ bases, ∃ l, σ b.1 = some l ∧ ∀ v ∈ b.2, v ≤ l.head.version := by
  intro b hb
  obtain ⟨l, hl, hx⟩ := hc.store.exists_ledger hbase
  rcases Store.mem_resolveBases h hb with ⟨hid, hread⟩ | ⟨source, hview, hmem⟩ | ⟨x, hx', hfixed⟩
  · rw [hid]
    refine ⟨l, hl, fun v hv => ?_⟩
    obtain ⟨sn, hsn⟩ := hread v hv
    obtain ⟨d, k, _, hd, _⟩ := hc.store.exists_of_snapshot hl (hc.sound _ l hl) hsn
    have hlt : v < l.versions.length := (List.getElem?_eq_some_iff.1 hd).1
    rw [(hc.sound _ l hl).paired.length] at hlt
    exact Nat.le_of_lt_succ hlt
  · rw [hx] at hview
    exact hσ _ l source hl hview b hmem
  · obtain ⟨m, hm, rfl⟩ := hc.store.exists_ledger hx'
    refine ⟨m, hm, fun v hv => ?_⟩
    rw [hfixed] at hv
    cases hv
    exact Nat.le_refl _

/-- A step keeps the bases. -/
theorem Advance.based {c : Catalog} {σ σ' : Ledgers} {a : Action} (h : Advance c σ a σ')
    (hc : c.Keeps σ) (hc' : (c.act a).Keeps σ') (hσ : σ.Based) : σ'.Based := by
  -- what was not past a current version is not past the next one
  have hgrow : ∀ b : TableId × Option Version,
      (∃ l, σ b.1 = some l ∧ ∀ v ∈ b.2, v ≤ l.head.version) →
        ∃ l, σ' b.1 = some l ∧ ∀ v ∈ b.2, v ≤ l.head.version := by
    rintro b ⟨l, hl, hle⟩
    obtain ⟨l', hl', hext⟩ := h.extends hc b.1 l hl
    have hv := hext.version_le (hc.sound _ l hl).numbered (hc'.sound _ l' hl').numbered
    exact ⟨l', hl', fun v hmem => (hle v hmem).trans hv⟩
  intro w m' source hm' hview b hb
  apply hgrow
  rcases h.origin hc hm' hview with ⟨m, hm, hview'⟩ | ⟨base, version, hbase, hbases⟩
  · exact hσ w m source hm hview' b hb
  · exact hc.based_of_resolveBases hσ hbase hbases b hb

/-- A run that is admitted keeps the ledgers and the bases. -/
theorem Catalog.Keeps.after_based {c : Catalog} {σ : Ledgers} (hc : c.Keeps σ) (hσ : σ.Based)
    {as : List Action} (ha : c.Admits as) :
    ∃ σ', (c.after as).Keeps σ' ∧ Course c σ as σ' ∧ σ'.Based := by
  induction as generalizing c σ with
  | nil => exact ⟨σ, hc, .nil, hσ⟩
  | cons a as ih =>
    obtain ⟨σ', hc', hadvance⟩ := hc.act ha.1
    have hσ' : σ'.Based := hadvance.based hc hc' hσ
    obtain ⟨σ'', hc'', hrest, hσ''⟩ := ih hc' hσ' ha.2
    exact ⟨σ'', hc'', .cons hc hadvance hrest, hσ''⟩

end Cadastre
