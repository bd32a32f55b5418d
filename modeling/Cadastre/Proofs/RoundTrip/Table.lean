/-
# Heads and data versions are read back from their records

A head is read back as it was written but for the free-form values of a view:
a predicate or iterator arguments that are `null` are read as absent. So a head
that was read once is read the same ever after (`TableHead.settled_settled`).

Key definitions: `ViewSource.settled`, `TableHead.settled`, `TableHead.Readable`,
`TableHead.Sound`.
Key theorems: `TableHead.flaw?_eq_none_iff`, `TableHead.decode_toJson`,
`DataVersion.decode_toJson`.
-/
import Cadastre.Metadata.Table
import Cadastre.Proofs.RoundTrip.Schema

namespace Cadastre

theorem ColumnLife.ofJson?_toJson {l : ColumnLife} (h : l.column < 2 ^ 32) :
    ofJson? l.toJson = some l := by
  have hd : Json.nullable Json.nat? (.ofOption .ofNat l.dropped) = some l.dropped :=
    Json.nullable_ofOption (fun _ => nofun) fun _ _ => rfl
  simp [ofJson?, toJson, Json.members?, Json.ofNat,
    Json.nat32?_ofNat h, Json.nat?_ofNat, hd]

/-- Only a column number that fits is read back. -/
theorem ColumnLife.lt_of_ofJson? {l l' : ColumnLife} (h : ofJson? l.toJson = some l') :
    l.column < 2 ^ 32 := by
  simp only [ofJson?, toJson, Json.members?, Option.bind_eq_bind, Option.bind_some,
    Json.required_cons_self, Option.bind_eq_some_iff] at h
  obtain ⟨c, hc, _⟩ := h
  exact Json.lt_of_nat32?_ofNat hc

/-! ### Views -/

namespace ViewSource

/-- A value that is `null` is none. -/
def settle : Option Json → Option Json
  | some .null => none
  | o => o

/-- The source of a view as it is read back. -/
def settled (s : ViewSource) : ViewSource :=
  { s with predicate := settle s.predicate, iteratorArgs := settle s.iteratorArgs }

/-- What the rule of a view's source asks for: the bases are all fixed or all live. -/
structure Sound (s : ViewSource) : Prop where
  based : s.bases ≠ []
  fixed : ∀ b ∈ s.bases, b.2.isSome = s.isSnapshot

theorem settle_settle (o : Option Json) : settle (settle o) = settle o := by
  cases o with
  | none => rfl
  | some j => cases j <;> rfl

@[simp] theorem settled_settled (s : ViewSource) : s.settled.settled = s.settled := by
  simp [settled, settle_settle]

theorem freeJson?_ofOption (o : Option Json) : freeJson? (.ofOption id o) = some (settle o) := by
  cases o with
  | none => rfl
  | some j => cases j <;> rfl

theorem baseOfJson?_baseToJson (b : TableId × Option Version) :
    baseOfJson? (baseToJson b) = some b := by
  have hv : Json.nullable Json.nat? (.ofOption .ofNat b.2) = some b.2 :=
    Json.nullable_ofOption (fun _ => nofun) fun _ _ => rfl
  simp [baseOfJson?, baseToJson, Uuid.ofJson?_toJson, hv]

theorem ofJson?_toJson (s : ViewSource) : ofJson? s.toJson = some s.settled := by
  have hb : Json.list? baseOfJson? (.ofList baseToJson s.bases) = some s.bases :=
    Json.list?_ofList fun b _ => baseOfJson?_baseToJson b
  have hi : Json.nullable Json.str? (.ofOption .str s.iterator) = some s.iterator :=
    Json.nullable_ofOption (fun _ => nofun) fun _ _ => rfl
  simp [ofJson?, toJson, Json.members?, Json.bool?, hb,
    hi, freeJson?_ofOption, settled]

theorem flaw?_eq_none_iff {s : ViewSource} : s.flaw? = none ↔ s.Sound := by
  have hsnap : (s.isSnapshot && s.bases.any (·.2.isNone)) = true ↔
      s.isSnapshot = true ∧ ∃ b ∈ s.bases, b.2.isSome = false := by
    simp only [Bool.and_eq_true, List.any_eq_true, Option.isNone_iff_eq_none,
      Option.isSome_eq_false_iff]
  have hlive : (!s.isSnapshot && s.bases.any (·.2.isSome)) = true ↔
      s.isSnapshot = false ∧ ∃ b ∈ s.bases, b.2.isSome = true := by
    simp only [Bool.and_eq_true, List.any_eq_true, Bool.not_eq_true']
  rw [flaw?]
  constructor
  · intro h
    split at h
    · cases h
    · rename_i hbased
      split at h
      · cases h
      · rename_i hnosnap
        split at h
        · cases h
        · rename_i hnolive
          refine ⟨by simpa using hbased, fun b hb => ?_⟩
          cases hb2 : b.2.isSome <;> cases hs : s.isSnapshot
          · rfl
          · exact absurd (hsnap.2 ⟨hs, b, hb, hb2⟩) hnosnap
          · exact absurd (hlive.2 ⟨hs, b, hb, hb2⟩) hnolive
          · rfl
  · rintro ⟨hbased, hfixed⟩
    rw [if_neg (by simpa using hbased), if_neg, if_neg]
    · intro h
      obtain ⟨hs, b, hb, hb2⟩ := hlive.1 h
      rw [hfixed b hb, hs] at hb2
      cases hb2
    · intro h
      obtain ⟨hs, b, hb, hb2⟩ := hsnap.1 h
      rw [hfixed b hb, hs] at hb2
      cases hb2

end ViewSource

/-! ### Heads -/

namespace TableHead

/-- The head as it is read back. -/
def settled (h : TableHead) : TableHead := { h with view := h.view.map ViewSource.settled }

/-- The column numbers fit a 32-bit word. -/
structure Readable (h : TableHead) : Prop where
  next : h.nextColumn < 2 ^ 32
  columns : ∀ id l, h.history.get? id = some l → id < 2 ^ 32 ∧ l.column < 2 ^ 32

/-- What the rule of a head asks for the history entry of a column. -/
structure EntrySound (h : TableHead) (column : ColumnId) (l : ColumnLife) : Prop where
  filed : l.column = column
  allocated : column < h.nextColumn
  added : l.added ≤ h.schemaVersion
  dropped : ∀ d ∈ l.dropped, l.added < d

/-- What the rule of a head asks for. -/
structure Sound (h : TableHead) : Prop where
  versions : h.schemaVersion ≤ h.version
  history : ∀ id l, h.history.get? id = some l → h.EntrySound id l
  view : ∀ v ∈ h.view, v.Sound

@[simp] theorem settled_settled (h : TableHead) : h.settled.settled = h.settled := by
  simp [settled, Function.comp_def]

theorem ofJson?_toJson {h : TableHead} (hr : h.Readable) : ofJson? h.toJson = some h.settled := by
  have hh : Json.columnMap? ColumnLife.ofJson? (.ofColumnMap ColumnLife.toJson h.history) =
      some h.history :=
    Json.columnMap?_ofColumnMap fun id l hl =>
      ⟨(hr.columns id l hl).1, ColumnLife.ofJson?_toJson (hr.columns id l hl).2⟩
  have hv : Json.nullable ViewSource.ofJson? (.ofOption ViewSource.toJson h.view) =
      some (h.view.map ViewSource.settled) := by
    cases h.view with
    | none => rfl
    | some v =>
      show Json.nullable ViewSource.ofJson? v.toJson = _
      have hread := v.ofJson?_toJson
      rw [ViewSource.toJson] at hread ⊢
      rw [Json.nullable, hread]
      · rfl
      · exact Json.noConfusion
  simp [ofJson?, toJson, Json.members?, Json.ofNat,
    Json.nat32?_ofNat hr.next, Json.nat?_ofNat, Json.str?, hh, hv, settled]

theorem entryFlaw?_eq_none_iff {h : TableHead} {id : ColumnId} {l : ColumnLife} :
    h.entryFlaw? id l = none ↔ h.EntrySound id l := by
  have hd : l.dropped.any (· ≤ l.added) = true ↔ ¬ ∀ d ∈ l.dropped, l.added < d := by
    cases l.dropped <;> simp
  rw [entryFlaw?]
  constructor
  · intro he
    split at he
    · cases he
    · rename_i hfiled
      split at he
      · cases he
      · rename_i hnext
        split at he
        · cases he
        · rename_i hadded
          split at he
          · cases he
          · rename_i hdropped
            exact ⟨(not_not.1 hfiled).symm, Nat.lt_of_not_le hnext, Nat.le_of_not_lt hadded,
              not_not.1 (hdropped ∘ hd.2)⟩
  · rintro ⟨hfiled, hnext, hadded, hdropped⟩
    have hany : ¬ l.dropped.any (· ≤ l.added) = true := fun hany => hd.1 hany hdropped
    rw [if_neg (by simp [hfiled]), if_neg (Nat.not_le.2 hnext), if_neg (Nat.not_lt.2 hadded),
      if_neg hany]

/-- The rule is passed by the sound heads, and by no other. -/
theorem flaw?_eq_none_iff {h : TableHead} : h.flaw? = none ↔ h.Sound := by
  have hhistory : (h.history.entries.findSome? fun e => h.entryFlaw? e.1 e.2) = none ↔
      ∀ id l, h.history.get? id = some l → h.EntrySound id l := by
    simp [List.findSome?_eq_none_iff, entryFlaw?_eq_none_iff, SortedMap.mem_entries_iff]
  have hview : h.view.bind ViewSource.flaw? = none ↔ ∀ v ∈ h.view, v.Sound := by
    cases h.view <;> simp [ViewSource.flaw?_eq_none_iff]
  rw [flaw?]
  constructor
  · intro hf
    split at hf
    · cases hf
    · rename_i hversions
      split at hf
      · cases hf
      · rename_i hnone
        exact ⟨Nat.le_of_not_lt hversions, hhistory.1 hnone, hview.1 hf⟩
  · rintro ⟨hversions, hsound, hsource⟩
    rw [if_neg (Nat.not_lt.2 hversions), hhistory.2 hsound]
    exact hview.2 hsource

theorem Sound.settled {h : TableHead} (hs : h.Sound) : h.settled.Sound where
  versions := hs.versions
  history id l hl := ⟨(hs.history id l hl).filed, (hs.history id l hl).allocated,
    (hs.history id l hl).added, (hs.history id l hl).dropped⟩
  view v hv := by
    obtain ⟨w, hw, rfl⟩ := Option.map_eq_some_iff.1 hv
    exact ⟨(hs.view w hw).based, (hs.view w hw).fixed⟩

/-- A sound head is read back from its record as it settles. -/
theorem decode_toJson {h : TableHead} {key : Key} (hr : h.Readable) (hs : h.Sound) :
    Payload.decode key h.toJson = .ok h.settled := by
  have hread : (Payload.ofJson? h.toJson : Option TableHead) = some h.settled := ofJson?_toJson hr
  have hflaw : Payload.flaw? h.settled = none := flaw?_eq_none_iff.2 hs.settled
  rw [Payload.decode, hread]
  simp [hflaw]

/-- Only a head whose column numbers fit is read back at all. -/
theorem readable_of_ofJson? {h h' : TableHead} (hread : ofJson? h.toJson = some h') :
    h.Readable := by
  simp only [ofJson?, toJson, Json.members?, Option.bind_eq_bind, Option.bind_some, ne_eq,
    String.reduceEq, not_false_eq_true, Json.required_cons_of_ne, Json.required_cons_self,
    Json.defaulted_cons_of_ne, Json.defaulted_cons_self, Option.bind_eq_some_iff] at hread
  obtain ⟨_, _, _, _, _, _, n, hnext, _, _, m, hhistory, _⟩ := hread
  refine ⟨Json.lt_of_nat32?_ofNat hnext, fun id l hl => ?_⟩
  obtain ⟨hid, k, hk⟩ := Json.lt_of_columnMap?_ofColumnMap hhistory hl
  exact ⟨hid, ColumnLife.lt_of_ofJson? hk⟩

/-- A head that is read back at all is read back as it settles. -/
theorem eq_settled_of_decode {h h' : TableHead} {key : Key}
    (hd : Payload.decode key h.toJson = .ok h') : h' = h.settled := by
  unfold Payload.decode at hd
  split at hd
  · cases hd
  · rename_i a hread
    have hread : ofJson? h.toJson = some a := hread
    have hback := ofJson?_toJson (readable_of_ofJson? hread)
    rw [hread, Option.some.injEq] at hback
    split at hd
    · cases hd
    · cases hd
      exact hback

/-- A head is written as it settles. -/
@[simp] theorem toJson_settled (h : TableHead) : h.settled.toJson = h.toJson := by
  have hfree : ∀ o : Option Json, Json.ofOption id (ViewSource.settle o) = .ofOption id o := by
    intro o
    cases o with
    | none => rfl
    | some j => cases j <;> rfl
  have hview : ∀ v : ViewSource, v.settled.toJson = v.toJson := by
    intro v
    simp only [ViewSource.toJson, ViewSource.settled, hfree]
  simp only [toJson, settled]
  cases h.view with
  | none => rfl
  | some v => simp only [Option.map_some, Json.ofOption, hview]

end TableHead

/-! ### Data versions -/

namespace DataVersion

theorem flaw?_eq_none_iff {v : DataVersion} : v.flaw? = none ↔ v.schemaVersion ≤ v.version := by
  rw [flaw?]
  split <;> simp_all

/-- A data version is read back from its record, if its time is a number. -/
theorem decode_toJson {v : DataVersion} {key : Key} (hf : v.createdAt.isFinite = true)
    (hv : v.schemaVersion ≤ v.version) : Payload.decode key v.toJson = .ok v := by
  have hx : Json.float? (.ofFloat v.createdAt) = some v.createdAt := by
    simp [Json.ofFloat, hf, Json.float?]
  have hread : ofJson? v.toJson = some v := by
    simp [ofJson?, toJson, Json.members?, Json.ofNat, Json.nat?_ofNat,
      hx]
  exact Payload.decode_toJson hread (flaw?_eq_none_iff.2 hv)

/-- A data version that is read back at all is read back as it was written. -/
theorem eq_of_decode {v w : DataVersion} {key : Key} (hd : Payload.decode key v.toJson = .ok w) :
    w = v := by
  unfold Payload.decode at hd
  split at hd
  · cases hd
  · rename_i a hread
    have hread : ofJson? v.toJson = some a := hread
    simp only [ofJson?, toJson, Json.members?, Option.bind_eq_bind, Option.bind_some, ne_eq,
      String.reduceEq, not_false_eq_true, Json.required_cons_of_ne, Json.required_cons_self,
      Option.bind_eq_some_iff, Option.some.injEq] at hread
    obtain ⟨createdAt, hcreated, version, hversion, schemaVersion, hschema, hread⟩ := hread
    have hversion : version = v.version := by
      simpa [Json.ofNat, Json.nat?_ofNat, eq_comm] using hversion
    have hschema : schemaVersion = v.schemaVersion := by
      simpa [Json.ofNat, Json.nat?_ofNat, eq_comm] using hschema
    -- a time that is no number is written as `null`, which no time is read from
    have htime : createdAt = v.createdAt := by
      unfold Json.ofFloat at hcreated
      split at hcreated
      · simpa [Json.float?, eq_comm] using hcreated
      · cases hcreated
    split at hd
    · cases hd
    · cases hd
      rw [← hread, htime, hversion, hschema]

end DataVersion
end Cadastre
