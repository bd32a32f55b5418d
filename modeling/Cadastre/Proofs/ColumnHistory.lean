/-
# The history of a table's columns agrees with its schema versions

In every store that a run reaches, the history of a table tells for each column
number that was given out in which schema versions the column is: from the one
that added it up to the one that dropped it, and in no other. So no number is
given to a second column.

Key definitions: `HistoryAgrees`.
Key theorems: `Catalog.columnHistory`.
-/
import Cadastre.Proofs.VersionChain

namespace Cadastre

/-- The history in the head of a table, against the records of its schema versions. -/
structure HistoryAgrees (s : Store) (x : Table) : Prop where
  /-- There is an entry for every number that was given out. -/
  keys : x.head.history.keys = List.range x.head.nextColumn
  filed : ∀ id l, x.head.history.get? id = some l → l.column = id
  added : ∀ id l, x.head.history.get? id = some l → l.added ≤ x.head.schemaVersion
  dropped : ∀ id l d, x.head.history.get? id = some l → l.dropped = some d →
    l.added < d ∧ d ≤ x.head.schemaVersion
  /-- A schema version holds the columns that live at it. -/
  member : ∀ v ≤ x.head.schemaVersion, ∃ k, s.schema x.id v = .ok k ∧ ∀ id,
    id ∈ k.columns.keys ↔
      ∃ l, x.head.history.get? id = some l ∧ l.added ≤ v ∧ ∀ d, l.dropped = some d → v < d

/-- The ledger of a table says what its history says. -/
theorem Catalog.Keeps.historyAgrees {c : Catalog} {σ : Ledgers} (hc : c.Keeps σ) {t : TableId}
    {l : Ledger} (hl : σ t = some l) : HistoryAgrees c.store ⟨t, l.dir, l.head⟩ := by
  have hs := hc.sound t l hl
  have hchron : Chronicle l.head l.schemas := hs.chronicle
  constructor
  · exact SortedMap.keys_eq_range hchron.allocated
  · intro id e he
    exact (hchron.recorded id e he).filed
  · intro id e he
    exact (hchron.recorded id e he).added
  · intro id e d he hd
    exact (hchron.recorded id e he).dropped d hd
  · intro v hv
    obtain ⟨k, hk⟩ := hs.exists_schema hv
    refine ⟨k, hc.store.schema t l v k hl hk, fun id => ?_⟩
    exact hchron.member v k hk id

/-- Of every table or view that exists after a run, the history agrees with the
schema versions. -/
theorem Catalog.columnHistory {config : Config} {registry : Registry} {as : List Action}
    (ha : (fresh config registry).Admits as) {t : TableId}
    (ht : (((fresh config registry).after as).store.get? (.table t)).isSome = true) :
    ∃ x, ((fresh config registry).after as).store.table t = .ok x ∧
      HistoryAgrees ((fresh config registry).after as).store x := by
  obtain ⟨σ, hc, _⟩ := exists_course ha
  obtain ⟨l, hl⟩ := hc.exists_ledger ht
  exact ⟨⟨t, l.dir, l.head⟩, hc.store.head t l hl, hc.historyAgrees hl⟩

theorem Sample.columnHistory_people :
    Sample.start.Admits (Sample.creation ++ Sample.evolution) ∧
      ∃ x, (Sample.start.after (Sample.creation ++ Sample.evolution)).store.table Sample.people =
          .ok x ∧
        HistoryAgrees (Sample.start.after (Sample.creation ++ Sample.evolution)).store x := by
  have ha : Sample.start.Admits (Sample.creation ++ Sample.evolution) := by decide +kernel
  have ht : ((Sample.start.after (Sample.creation ++ Sample.evolution)).store.get?
      (.table Sample.people)).isSome = true := by decide +kernel
  exact ⟨ha, Catalog.columnHistory ha ht⟩

end Cadastre
