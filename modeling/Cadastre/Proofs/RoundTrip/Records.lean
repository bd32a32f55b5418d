/-
# Records are read back as they were written

The catalog keeps records of six kinds: the layout of the store, directories, the heads,
data versions and schema versions of tables, and functions. What is written of a record
is read back as the record, if the record is in the range of its kind and passes the
kind's rule. The range is what the written form has room for: floats are numbers,
for no reader takes the `null` that is written of the others, and column numbers are
words of 32 bits; the rule of a head says that its columns are below the next one, so
there it is a matter of that number alone (`TableHead.Sound.readable`).

A free-form value of a view that is `null` is written as its absence is, and read back
as that (`TableHead.settled`); nothing else is lost. Column types are read back from
records of their own, and all but the invalid one have one.

Key definitions: `Payload.ReadsBack`.
Key theorems: `SystemInfo.decode_toJson`, `DirInfo.decode_toJson`,
`TableHead.settled_eq_self_iff`, `Payload.roundTrip`.
-/
import Cadastre.ColumnType.Concrete
import Cadastre.Proofs.RoundTrip.Function
import Cadastre.Proofs.RoundTrip.Table

namespace Cadastre

/-! ### The small kinds -/

/-- The layout is read back from its record. -/
theorem SystemInfo.decode_toJson {key : Key} {i : SystemInfo} (h : i.layout ≠ 0) :
    Payload.decode key (Payload.toJson i) = .ok i := by
  have hlayout : Json.uint32? (.ofNat i.layout.toNat) = some i.layout := Json.uint32?_toNat _
  have hread : (Payload.ofJson? (Payload.toJson i) : Option SystemInfo) = some i := by
    simp [Payload.ofJson?, Payload.toJson, Json.members?, hlayout]
  exact Payload.decode_toJson hread (if_neg h)

/-- A directory is read back from its record. -/
theorem DirInfo.decode_toJson {key : Key} (i : DirInfo) :
    Payload.decode key (Payload.toJson i) = .ok i :=
  Payload.decode_toJson (by simp [Payload.ofJson?, Payload.toJson, Json.members?, Json.str?]) rfl

/-! ### Heads -/

theorem ViewSource.settle_eq_self_iff {o : Option Json} : settle o = o ↔ o ≠ some .null := by
  rcases o with - | - | - <;> simp [settle]

/-- What is read back of the source of a view is the source, unless a free-form value
of it is `null`. -/
theorem ViewSource.settled_eq_self_iff {s : ViewSource} :
    s.settled = s ↔ s.predicate ≠ some .null ∧ s.iteratorArgs ≠ some .null := by
  rw [← settle_eq_self_iff, ← settle_eq_self_iff]
  constructor
  · intro h
    exact ⟨congrArg ViewSource.predicate h, congrArg ViewSource.iteratorArgs h⟩
  · rintro ⟨hpredicate, hargs⟩
    rw [settled, hpredicate, hargs]

theorem TableHead.settled_eq_self_iff {h : TableHead} :
    h.settled = h ↔ ∀ v ∈ h.view, v.predicate ≠ some .null ∧ v.iteratorArgs ≠ some .null := by
  have hview : h.settled = h ↔ h.view.map ViewSource.settled = h.view := by
    constructor
    · exact fun heq => congrArg TableHead.view heq
    · intro heq
      rw [settled, heq]
  rw [hview]
  cases h.view with
  | none => simp
  | some v => simp [ViewSource.settled_eq_self_iff]

/-- The columns of a sound head are below the next one. -/
theorem TableHead.Sound.readable {h : TableHead} (hs : h.Sound) (hnext : h.nextColumn < 2 ^ 32) :
    h.Readable := by
  refine ⟨hnext, fun id l hl => ?_⟩
  have hentry := hs.history id l hl
  have hid : id < 2 ^ 32 := hentry.allocated.trans hnext
  exact ⟨hid, by rw [hentry.filed]; exact hid⟩

/-! ### All kinds -/

/-- Each record of the kind that is in the range and passes the rule is read back from
what is written of it, as `settle` says. -/
def Payload.ReadsBack (α : Type) [Payload α] (inRange : α → Prop) (settle : α → α) : Prop :=
  ∀ (key : Key) (a : α), inRange a → flaw? a = none → decode key (toJson a) = .ok (settle a)

theorem SystemInfo.readsBack : Payload.ReadsBack SystemInfo (fun _ => True) id := by
  intro key i _ hflaw
  refine SystemInfo.decode_toJson fun hzero => ?_
  have hsome : Payload.flaw? i = some "schema version 0 does not exist" := if_pos hzero
  rw [hflaw] at hsome
  cases hsome

theorem TableHead.readsBack :
    Payload.ReadsBack TableHead (fun h => h.nextColumn < 2 ^ 32) TableHead.settled := by
  intro key h hnext hflaw
  have hsound : h.Sound := TableHead.flaw?_eq_none_iff.1 hflaw
  exact TableHead.decode_toJson (hsound.readable hnext) hsound

theorem DataVersion.readsBack :
    Payload.ReadsBack DataVersion (fun v => v.createdAt.isFinite = true) id :=
  fun _ _ hfinite hflaw =>
    DataVersion.decode_toJson hfinite (DataVersion.flaw?_eq_none_iff.1 hflaw)

theorem Schema.readsBack : Payload.ReadsBack Schema Schema.Readable id :=
  fun _ _ hreadable hflaw => Schema.decode_toJson hreadable (Schema.flaw?_eq_none_iff.1 hflaw)

theorem FunctionInfo.readsBack :
    Payload.ReadsBack FunctionInfo (fun i => i.function.isFinite = true) id :=
  fun _ _ hfinite hflaw =>
    FunctionInfo.decode_toJson hfinite (FunctionInfo.flaw?_eq_none_iff.1 hflaw)

/-- A type other than the invalid one has a record, from which it is read back. -/
theorem ColumnType.exists_toRecord {t : ColumnType} (h : t ≠ .invalid) :
    ∃ j, t.toRecord = .ok j ∧ ofRecord j = .ok t := by
  have hvalid : t.isInvalid = false := by
    cases t with
    | invalid => exact absurd rfl h
    | _ => rfl
  have hrecord : t.toRecord = .ok t.toJson := by
    rw [toRecord, hvalid]
    rfl
  exact ⟨t.toJson, hrecord, ofRecord_toRecord hrecord⟩

/-- Records of every kind are read back as they were written, but for free-form values
of views that are `null`; and so are the types of columns. -/
theorem Payload.roundTrip :
    Payload.ReadsBack SystemInfo (fun _ => True) id ∧
      Payload.ReadsBack DirInfo (fun _ => True) id ∧
      Payload.ReadsBack TableHead (fun h => h.nextColumn < 2 ^ 32) TableHead.settled ∧
      Payload.ReadsBack DataVersion (fun v => v.createdAt.isFinite = true) id ∧
      Payload.ReadsBack Schema Schema.Readable id ∧
      Payload.ReadsBack FunctionInfo (fun i => i.function.isFinite = true) id ∧
      ∀ t : ColumnType, t ≠ .invalid → ∃ j, t.toRecord = .ok j ∧ ColumnType.ofRecord j = .ok t :=
  ⟨SystemInfo.readsBack, fun _ i _ _ => DirInfo.decode_toJson i, TableHead.readsBack,
    DataVersion.readsBack, Schema.readsBack, FunctionInfo.readsBack,
    fun _ => ColumnType.exists_toRecord⟩

namespace Sample

/-- The head of a snapshot with an iterator, whose predicate is `null`. -/
def tilesHead : TableHead where
  name := "tiles"
  version := 5
  schemaVersion := 3
  nextColumn := 3
  nextRow := 0
  history := .ofList [(0, ⟨0, 0, none⟩), (2, ⟨2, 1, some 3⟩)]
  view := some {
    isSnapshot := true
    bases := [(.ofNat 7, some 4), (.ofNat 8, some 0)]
    predicate := some .null
    iterator := some "udfs.Tiles"
    iteratorArgs := some (.obj [("size", .int 3)]) }

/-- A schema version with a column that is computed from another one. -/
def tilesSchema : Schema where
  version := 3
  preceding := some 1
  columns := .ofList [
    (0, ⟨0, "photo", .image (some 10) none (some .rgb), true, none, none, true⟩),
    (2, ⟨1, "small", .array (some [2]) .float16, false, some (.expr
      (.call (.id (.ofNat 9)) 1 [.column "photo" (.image none none none), .literal (.float 0.5)]
        (.array (some [2]) .float16))), some false, false⟩)]
  retained := 2
  comment := "tiles of photos"

/-- The signature of a template with defaults. -/
def scaledSignature : Signature :=
  ⟨[⟨"photo", .image none none none, none, false⟩, ⟨"factor", .float, some (.float 0.5), false⟩,
    ⟨"options", .dict, some (.dict .null), false⟩], .array (some [2]) .float16, false⟩

/-- The record of the template. -/
def scaledInfo : FunctionInfo where
  name := some "scaled"
  function := {
    name := "scaled"
    kind := .template
    signatures := [scaledSignature]
    batchSize := none
    templates := [⟨scaledSignature, .call (.path "images.scale") 0
      [.var "photo" (.image none none none), .var "factor" .float, .literal .none]
      (.array (some [2]) .float16)⟩] }

end Sample

/-- A predicate that is `null` is read back as absent, and the rest as it is. -/
theorem Sample.roundTrip_tiles :
    Payload.decode .systemInfo (Payload.toJson (SystemInfo.mk 1)) = .ok (SystemInfo.mk 1) ∧
      Payload.decode (.dir (.ofNat 1)) (Payload.toJson (DirInfo.mk "home")) =
        .ok (DirInfo.mk "home") ∧
      Payload.decode (.table (.ofNat 6)) (Payload.toJson Sample.tilesHead) =
        .ok Sample.tilesHead.settled ∧
      Sample.tilesHead.settled ≠ Sample.tilesHead ∧
      Payload.decode (.tableVersion (.ofNat 6) 5) (Payload.toJson (DataVersion.mk 0.5 5 3)) =
        .ok (DataVersion.mk 0.5 5 3) ∧
      Payload.decode (.schemaVersion (.ofNat 6) 3) (Payload.toJson Sample.tilesSchema) =
        .ok Sample.tilesSchema ∧
      Payload.decode (.function (.ofNat 9)) (Payload.toJson Sample.scaledInfo) =
        .ok Sample.scaledInfo ∧
      ∃ j, (ColumnType.array (some [2]) .float16).toRecord = .ok j ∧
        ColumnType.ofRecord j = .ok (.array (some [2]) .float16) := by
  obtain ⟨hsystem, hdirectory, hhead, hversion, hschema, hfunction, htype⟩ := Payload.roundTrip
  have hreadable : Sample.tilesSchema.Readable := by
    intro id c hc
    have hmem : (id, c) ∈ Sample.tilesSchema.columns.entries :=
      Sample.tilesSchema.columns.mem_entries_iff.2 hc
    have hall : ∀ e ∈ Sample.tilesSchema.columns.entries,
        e.1 < 2 ^ 32 ∧ e.2.isFinite = true := by decide +kernel
    exact hall _ hmem
  have hnull : Sample.tilesHead.settled ≠ Sample.tilesHead := by
    intro h
    exact (TableHead.settled_eq_self_iff.1 h _ rfl).1 rfl
  exact ⟨hsystem _ _ trivial rfl, hdirectory _ _ trivial rfl,
    hhead _ _ (by decide +kernel) (by decide +kernel), hnull,
    hversion _ _ (by decide +kernel) (by decide +kernel),
    hschema _ _ hreadable (by decide +kernel),
    hfunction _ _ (by decide +kernel) (by decide +kernel), htype _ nofun⟩

end Cadastre
