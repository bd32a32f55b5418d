/-
# Ledgers that grow

The versions of a table are only ever added to: what a step or a run makes of a
ledger extends it, with the versions that were there in their places and the
name and the view as they were.

Key definitions: `Ledger.Numbered`, `Ledger.Extends`, `Ledgers.Extends`.
Key theorems: `Ledger.Numbered.push`, `Ledger.Numbered.extends_push`,
`Ledgers.Extends.put`, `Advance.extends`, `Course.extends`.
-/
import Cadastre.Proofs.Run

namespace Cadastre

theorem getElem?_of_isPrefix {α : Type} {l m : List α} (h : l <+: m) {i : Nat} {a : α}
    (ha : l[i]? = some a) : m[i]? = some a := by
  obtain ⟨rest, rfl⟩ := h
  rw [List.getElem?_append_left (List.getElem?_eq_some_iff.1 ha).1, ha]

/-! ### Numbers of versions -/

/-- The versions of a ledger are numbered up to the counters of its head. -/
structure Ledger.Numbered (l : Ledger) : Prop where
  paired : Paired l.versions l.head.version l.head.schemaVersion
  length : l.schemas.length = l.head.schemaVersion + 1
  settled : l.head.settled = l.head

theorem Ledger.Sound.numbered {l : Ledger} (hl : l.Sound) : l.Numbered :=
  ⟨hl.paired, hl.chronicle.length, hl.settled⟩

/-- A ledger with more versions, of the same table. -/
structure Ledger.Extends (l l' : Ledger) : Prop where
  versions : l.versions <+: l'.versions
  schemas : l.schemas <+: l'.schemas
  name : l'.head.name = l.head.name
  view : l'.head.view = l.head.view

namespace Ledger

section Push

variable {l : Ledger} {now : Float} {h : TableHead} {schema : Option Schema}

/-- The first version of a table is numbered, if its counters are at the start. -/
theorem numbered_birth {dir : Option DirId} {k : Schema} (hv : h.version = 0)
    (hs : h.schemaVersion = 0) : ((blank dir h).push now h (some k)).Numbered where
  paired := by
    show Paired [⟨now, h.version, h.schemaVersion⟩] h.version h.schemaVersion
    rw [hv, hs]
    exact .single now
  length := by
    show 1 = h.schemaVersion + 1
    rw [hs]
  settled := h.settled_settled

/-- The next version is numbered, with the next schema version or the same one. -/
theorem Numbered.push (hl : l.Numbered) (hv : h.version = l.head.version + 1)
    (hs : h.schemaVersion = l.head.schemaVersion + schema.toList.length) :
    (l.push now h schema).Numbered where
  paired := by
    have hnext : h.schemaVersion = l.head.schemaVersion ∨
        h.schemaVersion = l.head.schemaVersion + 1 := by
      cases schema with
      | none => exact .inl hs
      | some k => exact .inr hs
    show Paired (l.versions ++ [⟨now, h.version, h.schemaVersion⟩]) h.version h.schemaVersion
    rw [hv]
    exact hl.paired.push hnext now
  length := by
    show (l.schemas ++ schema.toList).length = h.schemaVersion + 1
    rw [List.length_append, hl.length, hs]
    omega
  settled := h.settled_settled

/-- One more version of the same table extends its ledger. -/
theorem Numbered.extends_push (hl : l.Numbered) (hname : h.name = l.head.name)
    (hview : h.view = l.head.view) : l.Extends (l.push now h schema) where
  versions := List.prefix_append _ _
  schemas := List.prefix_append _ _
  name := hname
  view := by
    show h.view.map ViewSource.settled = l.head.view
    rw [hview]
    exact congrArg TableHead.view hl.settled

end Push

namespace Extends

theorem refl (l : Ledger) : l.Extends l := ⟨List.prefix_refl _, List.prefix_refl _, rfl, rfl⟩

theorem trans {l l' l'' : Ledger} (h : l.Extends l') (h' : l'.Extends l'') : l.Extends l'' where
  versions := h.versions.trans h'.versions
  schemas := h.schemas.trans h'.schemas
  name := h'.name.trans h.name
  view := h'.view.trans h.view

variable {l l' : Ledger}

/-- The current version does not go back. -/
theorem version_le (h : l.Extends l') (hl : l.Numbered) (hl' : l'.Numbered) :
    l.head.version ≤ l'.head.version := by
  have hle := h.versions.length_le
  rw [hl.paired.length, hl'.paired.length] at hle
  exact Nat.le_of_succ_le_succ hle

end Extends
end Ledger

/-! ### All ledgers -/

/-- Every ledger is there still, with more versions. -/
def Ledgers.Extends (σ σ' : Ledgers) : Prop :=
  ∀ t l, σ t = some l → ∃ l', σ' t = some l' ∧ l.Extends l'

namespace Ledgers.Extends

theorem refl (σ : Ledgers) : σ.Extends σ := fun _ l hl => ⟨l, hl, .refl l⟩

theorem trans {σ σ' σ'' : Ledgers} (h : σ.Extends σ') (h' : σ'.Extends σ'') : σ.Extends σ'' := by
  intro t l hl
  obtain ⟨l', hl', hext⟩ := h t l hl
  obtain ⟨l'', hl'', hext'⟩ := h' t l' hl'
  exact ⟨l'', hl'', hext.trans hext'⟩

/-- A ledger that is opened, or replaced by one that extends it. -/
theorem put {σ : Ledgers} {t : TableId} {m : Ledger}
    (h : ∀ l, σ t = some l → l.Extends m) : σ.Extends (σ.put t m) := by
  intro u l hl
  by_cases hu : u = t
  · subst hu
    exact ⟨m, Ledgers.put_self _ _ _, h l hl⟩
  · exact ⟨l, by rw [Ledgers.put_of_ne hu, hl], .refl l⟩

end Ledgers.Extends

/-! ### Steps and runs -/

/-- A step extends the ledgers. -/
theorem Advance.extends {c : Catalog} {σ σ' : Ledgers} {a : Action} (h : Advance c σ a σ')
    (hc : c.Keeps σ) : σ.Extends σ' := by
  cases h with
  | idle => exact .refl σ
  | birth _ hnew =>
    apply Ledgers.Extends.put
    intro l hl
    rw [hnew] at hl
    cases hl
  | @edit now op t m k d _ hm _ _ _ hedit =>
    apply Ledgers.Extends.put
    intro l hl
    rw [hm] at hl
    cases hl
    obtain ⟨n, history, hhead⟩ := hedit.head_eq
    have hname : d.head.name = m.head.name := by rw [hhead]; rfl
    have hview : d.head.view = m.head.view := by rw [hhead]; rfl
    exact (hc.sound t m hm).numbered.extends_push hname hview
  | @rows now op t m h _ hm _ _ hrows =>
    apply Ledgers.Extends.put
    intro l hl
    rw [hm] at hl
    cases hl
    obtain ⟨n, hhead⟩ := hrows.head_eq
    have hname : h.name = m.head.name := by rw [hhead]
    have hview : h.view = m.head.view := by rw [hhead]
    exact (hc.sound t m hm).numbered.extends_push hname hview

/-- A run extends the ledgers. -/
theorem Course.extends {c : Catalog} {σ σ' : Ledgers} {as : List Action}
    (h : Course c σ as σ') : σ.Extends σ' := by
  induction h with
  | nil => exact .refl _
  | cons hc hadvance _ ih => exact (hadvance.extends hc).trans ih

end Cadastre
