/-
# Schema versions are read back from their records

The columns of a schema version are stored under their numbers in decimal, so
a map whose numbers stay below `2 ^ 32` is read back entry by entry. What is
read passes the rule of its kind exactly if it is sound: it follows an earlier
version, its columns have types and different names, and it retains a version.

Key definitions: `Column.isFinite`, `Schema.Readable`, `Schema.Sound`.
Key theorems: `Json.columnMap?_ofColumnMap`, `Schema.flaw?_eq_none_iff`,
`Schema.decode_toJson`.
-/
import Cadastre.Metadata.Schema
import Cadastre.Proofs.RoundTrip.Expr
import Mathlib.Data.List.Pairwise

namespace Cadastre

/-! ### Maps by column number -/

namespace SortedMap

variable {κ : Type} {β : Type}

theorem find?_eq_none [DecidableEq κ] {k : κ} {l : List (κ × β)} (h : ∀ e ∈ l, e.1 ≠ k) :
    find? k l = none := by
  induction l with
  | nil => rfl
  | cons e l ih =>
    have hk : k ≠ e.1 := fun hk => h e List.mem_cons_self hk.symm
    rw [find?, if_neg hk, ih fun e he => h e (List.mem_cons_of_mem _ he)]

variable [LT κ] [DecidableLT κ] [DecidableEq κ] [KeyOrder κ]

/-- Inserting sorted entries one by one adds them to the look-up. -/
theorem get?_foldl_insert {l : List (κ × β)} (hl : l.Pairwise fun a b => a.1 < b.1)
    (m : SortedMap κ β) (k : κ) :
    (l.foldl (fun m e => m.insert e.1 e.2) m).get? k = (find? k l).or (m.get? k) := by
  induction l generalizing m with
  | nil => simp [find?]
  | cons e l ih =>
    obtain ⟨hhead, htail⟩ := List.pairwise_cons.1 hl
    rw [List.foldl_cons, ih htail, get?_insert, find?]
    by_cases hk : k = e.1
    · subst hk
      have hrest : find? e.1 l = none := find?_eq_none fun x hx hxe => by
        have hlt := hhead x hx
        rw [hxe] at hlt
        exact KeyOrder.irrefl e.1 hlt
      simp [hrest]
    · simp [hk]

/-- A map is the map of its entries. -/
theorem ofList_entries (m : SortedMap κ β) : ofList m.entries = m :=
  ext_get? fun k => by
    rw [ofList, get?_foldl_insert m.sorted, get?_empty, Option.or_none]
    rfl

end SortedMap

theorem ColumnId.text_injective {c d : ColumnId} (h : text c = text d) : c = d := by
  have hvalue : ∀ n : ColumnId, Text.digitsValue (text n).toList = n := by
    intro n
    rw [text, String.toList_ofList, Text.digitsValue_decimal]
  rw [← hvalue c, h, hvalue d]

theorem ColumnId.lt_of_ofText? {s : String} {c : ColumnId} (h : ofText? s = some c) :
    c < 2 ^ 32 := by
  unfold ofText? at h
  split at h
  · rename_i hs
    cases h
    exact hs.1
  · cases h

namespace Json

variable {α : Type} {write : α → Json} {read : Json → Option α}

theorem columnEntries?_map {l : List (ColumnId × α)}
    (h : ∀ e ∈ l, e.1 < 2 ^ 32 ∧ read (write e.2) = some e.2) :
    columnEntries? read (l.map fun e => (ColumnId.text e.1, write e.2)) = some l := by
  induction l with
  | nil => rfl
  | cons e l ih =>
    obtain ⟨hid, hread⟩ := h e List.mem_cons_self
    have ih := ih fun x hx => h x (List.mem_cons_of_mem e hx)
    simp only [List.map_cons, columnEntries?, ColumnId.ofText?_text hid, hread, ih]

/-- A map by column number is read back if its columns fit and its values are
read back. -/
theorem columnMap?_ofColumnMap {m : SortedMap ColumnId α}
    (h : ∀ id a, m.get? id = some a → id < 2 ^ 32 ∧ read (write a) = some a) :
    columnMap? read (ofColumnMap write m) = some m := by
  have he : columnEntries? read (m.entries.map fun e => (ColumnId.text e.1, write e.2)) =
      some m.entries :=
    columnEntries?_map fun e he => h e.1 e.2 (m.mem_entries_iff.1 he)
  rw [ofColumnMap, columnMap?, he, Option.map_some, SortedMap.ofList_entries]

theorem lt_of_nat32?_ofNat {n m : Nat} (h : nat32? (.ofNat n) = some m) : n < 2 ^ 32 := by
  simp only [nat32?, Json.ofNat, nat?_ofNat] at h
  split at h
  · assumption
  · cases h

theorem lt_of_columnEntries? {l es : List (ColumnId × α)}
    (h : columnEntries? read (l.map fun e => (ColumnId.text e.1, write e.2)) = some es)
    {e : ColumnId × α} (he : e ∈ l) : e.1 < 2 ^ 32 ∧ ∃ a, read (write e.2) = some a := by
  induction l generalizing es with
  | nil => cases he
  | cons x l ih =>
    rw [List.map_cons, columnEntries?] at h
    split at h
    · rename_i c a rest hc ha hrest
      rcases List.mem_cons.1 he with rfl | he
      · have hid : c < 2 ^ 32 ∧ ColumnId.text c = ColumnId.text e.1 :=
          ⟨ColumnId.lt_of_ofText? hc, ColumnId.text_of_ofText? hc⟩
        rw [← ColumnId.text_injective hid.2]
        exact ⟨hid.1, a, ha⟩
      · exact ih hrest he
    · cases h

/-- A map by column number is read back only if its columns fit and its values
can be read. -/
theorem lt_of_columnMap?_ofColumnMap {m m' : SortedMap ColumnId α}
    (h : columnMap? read (ofColumnMap write m) = some m') {id : ColumnId} {a : α}
    (ha : m.get? id = some a) : id < 2 ^ 32 ∧ ∃ b, read (write a) = some b := by
  obtain ⟨es, hes, _⟩ := Option.map_eq_some_iff.1 h
  exact lt_of_columnEntries? hes (m.mem_entries_iff.2 ha)

end Json

/-! ### Columns -/

/-- The literals of a value expression are numbers. A tree is taken as it stands. -/
def ComputedValue.isFinite : ComputedValue → Bool
  | expr e => e.isFinite
  | tree _ => true

theorem ComputedValue.ofJson?_toJson {v : ComputedValue} (h : v.isFinite = true) :
    ofJson? v.toJson = some v := by
  cases v with
  | expr e =>
    have he : Expr.read? .inner e.toJson = some e := Expr.read?_toJson .inner h
    simp [ofJson?, toJson, Json.variant?, Json.tag?, Json.members?, he]
  | tree j =>
    simp [ofJson?, toJson, Json.variant?, Json.tag?, Json.members?]

namespace Column

/-- The literals of the column's value are numbers. -/
def isFinite (c : Column) : Bool := c.computed.all ComputedValue.isFinite

theorem ofJson?_toJson {c : Column} (h : c.isFinite = true) : ofJson? c.toJson = some c := by
  have hv : Json.nullable ComputedValue.ofJson? (.ofOption ComputedValue.toJson c.computed) =
      some c.computed := by
    refine Json.nullable_ofOption (fun v => ?_) fun v hv => ?_
    · cases v <;> exact nofun
    · rw [isFinite, Option.mem_def.1 hv] at h
      exact ComputedValue.ofJson?_toJson h
  have hs : Json.nullable Json.bool? (.ofOption .bool c.stored) = some c.stored :=
    Json.nullable_ofOption (fun _ => nofun) fun _ _ => rfl
  have ht : ColumnType.ofJson? c.type.toJson = some c.type := c.type.read?_toJson .outer
  simp [ofJson?, toJson, Json.members?, Json.ofNat, Json.nat?_ofNat, Json.str?, Json.bool?, ht, hv,
    hs]

end Column

/-! ### Schema versions -/

namespace Schema

/-- The column numbers fit a 32-bit word and the literals are numbers. -/
def Readable (s : Schema) : Prop :=
  ∀ id c, s.columns.get? id = some c → id < 2 ^ 32 ∧ c.isFinite = true

/-- What the rule of a schema version asks for. -/
structure Sound (s : Schema) : Prop where
  preceding : ∀ p ∈ s.preceding, p < s.version
  typed : ∀ id c, s.columns.get? id = some c → c.type.isInvalid = false
  named : ∀ i j c d, s.columns.get? i = some c → s.columns.get? j = some d → c.name = d.name →
    i = j
  retained : s.retained ≠ 0

theorem ofJson?_toJson {s : Schema} (h : s.Readable) : ofJson? s.toJson = some s := by
  have hp : Json.nullable Json.nat? (.ofOption .ofNat s.preceding) = some s.preceding :=
    Json.nullable_ofOption (fun _ => nofun) fun _ _ => rfl
  have hc : Json.columnMap? Column.ofJson? (.ofColumnMap Column.toJson s.columns) =
      some s.columns :=
    Json.columnMap?_ofColumnMap fun id c hc => ⟨(h id c hc).1, Column.ofJson?_toJson (h id c hc).2⟩
  have hr : Json.uint32? (.ofNat s.retained.toNat) = some s.retained := Json.uint32?_toNat _
  simp [ofJson?, toJson, Json.members?, Json.str?, hp,
    hc, hr]
  rfl

theorem columnFlaw?_eq_none_iff {seen : List String} {l : List (ColumnId × Column)} :
    columnFlaw? seen l = none ↔
      (∀ e ∈ l, e.2.type.isInvalid = false ∧ e.2.name ∉ seen) ∧
        l.Pairwise fun a b => a.2.name ≠ b.2.name := by
  induction l generalizing seen with
  | nil => simp [columnFlaw?]
  | cons e l ih =>
    obtain ⟨id, c⟩ := e
    rw [columnFlaw?]
    by_cases ht : c.type.isInvalid = true
    · simp [ht]
    by_cases hn : c.name ∈ seen
    · simp [ht, hn]
    · rw [List.forall_mem_cons, List.pairwise_cons]
      simp only [ht, hn, List.contains_iff_mem, if_false, Bool.false_eq_true, ih, List.mem_cons,
        not_or]
      constructor
      · rintro ⟨hl, hpair⟩
        exact ⟨⟨⟨by simp, not_false⟩, fun e he => ⟨(hl e he).1, (hl e he).2.2⟩⟩,
          fun e he => Ne.symm (hl e he).2.1, hpair⟩
      · rintro ⟨⟨_, hl⟩, hne, hpair⟩
        exact ⟨fun e he => ⟨(hl e he).1, Ne.symm (hne e he), (hl e he).2⟩, hpair⟩

/-- Different numbers have different names, entry by entry. -/
theorem pairwise_names_iff (m : SortedMap ColumnId Column) :
    (m.entries.Pairwise fun a b => a.2.name ≠ b.2.name) ↔
      ∀ i j c d, m.get? i = some c → m.get? j = some d → c.name = d.name → i = j := by
  constructor
  · intro h i j c d hi hj hname
    by_contra hij
    have hmi := m.mem_entries_iff.2 hi
    have hmj := m.mem_entries_iff.2 hj
    have : Std.Symm fun a b : ColumnId × Column => a.2.name ≠ b.2.name := ⟨fun _ _ => Ne.symm⟩
    exact h.forall hmi hmj (fun he => hij (congrArg Prod.fst he)) hname
  · intro h
    refine m.sorted.imp_of_mem fun {a b} ha hb hlt hname => ?_
    have hab := h a.1 b.1 a.2 b.2 (m.mem_entries_iff.1 ha) (m.mem_entries_iff.1 hb) hname
    exact Nat.lt_irrefl _ (hab ▸ hlt)

/-- The rule is passed by the sound schema versions, and by no other. -/
theorem flaw?_eq_none_iff {s : Schema} : s.flaw? = none ↔ s.Sound := by
  have hpre : s.preceding.filter (s.version ≤ ·) = none ↔ ∀ p ∈ s.preceding, p < s.version := by
    simp [Option.filter_eq_none_iff]
  have hcols : columnFlaw? [] s.columns.entries = none ↔
      (∀ id c, s.columns.get? id = some c → c.type.isInvalid = false) ∧
        ∀ i j c d, s.columns.get? i = some c → s.columns.get? j = some d → c.name = d.name →
          i = j := by
    rw [columnFlaw?_eq_none_iff, pairwise_names_iff]
    simp [SortedMap.mem_entries_iff]
  constructor
  · intro h
    unfold flaw? at h
    split at h
    · cases h
    · rename_i hp
      split at h
      · cases h
      · rename_i hc
        split at h
        · cases h
        · rename_i hr
          exact ⟨hpre.1 hp, (hcols.1 hc).1, (hcols.1 hc).2, hr⟩
  · intro h
    rw [flaw?, hpre.2 h.preceding, hcols.2 ⟨h.typed, h.named⟩]
    exact if_neg h.retained

/-- A sound schema version is read back from its record. -/
theorem decode_toJson {s : Schema} {key : Key} (hr : s.Readable) (hs : s.Sound) :
    Payload.decode key s.toJson = .ok s :=
  Payload.decode_toJson (ofJson?_toJson hr) (flaw?_eq_none_iff.2 hs)

end Schema
end Cadastre
