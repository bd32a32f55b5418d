/-
# Arrays whose buffers fill their shapes

An array that is created has as many bytes as its shape and its element type ask for,
and that number was reached within a 64-bit word: the array is filled. A record of an
array is read as it stands, filled or not, be it the value of an argument, the default
of a parameter or a literal. So the arrays of what is read are filled if all records of
arrays within the JSON value are (`NdArray.buffers`), and the readers do not see to it.

Key definitions: `NdArray.IsFilled`, `Json.parts`, `Json.FillsArrays`, `Value.arrays`,
`Expr.arrays`.
Key theorems: `NdArray.create_eq_ok_iff`, `Value.isFilled_of_read?`,
`Expr.isFilled_of_read?`, `NdArray.buffers`.
-/
import Mathlib.Algebra.Group.Nat.Defs
import Cadastre.Conversion
import Cadastre.Proofs.RecordFormat
import Cadastre.Proofs.RoundTrip.Function

namespace Cadastre

/-! ### Filled arrays -/

namespace NdArray

/-- The number of bytes is that of the shape, and every product on the way to it fits a
64-bit word. -/
structure IsFilled (a : NdArray) : Prop where
  fits : ∀ k ≤ a.shape.length, a.element.size * (a.shape.take k).prod < 2 ^ 64
  length : a.data.length = a.element.size * a.shape.prod

theorem isFilled_iff {a : NdArray} : a.IsFilled ↔
    (∀ k ≤ a.shape.length, a.element.size * (a.shape.take k).prod < 2 ^ 64) ∧
      a.data.length = a.element.size * a.shape.prod :=
  ⟨fun h => ⟨h.fits, h.length⟩, fun h => ⟨h.1, h.2⟩⟩

instance (a : NdArray) : Decidable a.IsFilled := decidable_of_iff' _ isFilled_iff

/-- A number of bytes is found if all products on the way to it fit. -/
theorem byteCount?_eq_some_iff {n m : Nat} (hn : n < 2 ^ 64) {shape : List Nat} :
    byteCount? n shape = some m ↔
      (∀ k ≤ shape.length, n * (shape.take k).prod < 2 ^ 64) ∧ m = n * shape.prod := by
  induction shape generalizing n with
  | nil => simpa [byteCount?, eq_comm] using fun _ : m = n => hn
  | cons d ds ih =>
    have hstep : (∀ k ≤ (d :: ds).length, n * ((d :: ds).take k).prod < 2 ^ 64) ↔
        ∀ k ≤ ds.length, n * d * (ds.take k).prod < 2 ^ 64 := by
      constructor
      · intro h k hk
        have hnext := h (k + 1) (Nat.succ_le_succ hk)
        rwa [List.take_succ_cons, List.prod_cons, ← Nat.mul_assoc] at hnext
      · intro h k hk
        cases k with
        | zero => simpa using hn
        | succ k =>
          rw [List.take_succ_cons, List.prod_cons, ← Nat.mul_assoc]
          exact h k (Nat.le_of_succ_le_succ hk)
    rw [byteCount?, hstep, List.prod_cons, ← Nat.mul_assoc]
    by_cases hd : n * d < 2 ^ 64
    · rw [if_pos hd, ih hd]
    · rw [if_neg hd]
      refine iff_of_false (Option.some_ne_none m).symm fun h => hd ?_
      simpa using h.1 0 (Nat.zero_le _)

/-- What can be created is what is filled. -/
theorem create_eq_ok_iff {shape : List Nat} {element : ElementType} {data : List UInt8}
    {a : NdArray} : create shape element data = .ok a ↔ a = ⟨shape, element, data⟩ ∧ a.IsFilled := by
  have hsize : element.size < 2 ^ 64 := by cases element <;> decide
  unfold create
  cases hcount : byteCount? element.size shape with
  | none =>
    refine iff_of_false nofun ?_
    rintro ⟨rfl, hfits, _⟩
    have hsome := (byteCount?_eq_some_iff hsize).2 ⟨hfits, rfl⟩
    rw [hcount] at hsome
    cases hsome
  | some n =>
    obtain ⟨hfits, rfl⟩ := (byteCount?_eq_some_iff hsize).1 hcount
    dsimp only
    split
    · rename_i hlength
      constructor
      · intro h
        cases h
        exact ⟨rfl, hfits, hlength⟩
      · rintro ⟨rfl, _⟩
        rfl
    · rename_i hlength
      refine iff_of_false nofun ?_
      rintro ⟨rfl, h⟩
      exact hlength h.length

end NdArray

/-! ### What stands within a JSON value -/

namespace Json

mutual

/-- The value and all that is in its lists and objects. -/
def parts : Json → List Json
  | arr items => arr items :: partsItems items
  | obj members => obj members :: partsMembers members
  | j => [j]

def partsItems : List Json → List Json
  | [] => []
  | j :: js => parts j ++ partsItems js

def partsMembers : List (String × Json) → List Json
  | [] => []
  | (_, j) :: ms => parts j ++ partsMembers ms

end

/-- All arrays that are read of the value or of something in it are filled. -/
def FillsArrays (j : Json) : Prop := ∀ i ∈ j.parts, ∀ p, ∀ a ∈ NdArray.read? p i, a.IsFilled

instance (j : Json) : Decidable j.FillsArrays :=
  decidable_of_iff (∀ i ∈ j.parts, (∀ a ∈ NdArray.read? .outer i, a.IsFilled) ∧
    ∀ a ∈ NdArray.read? .inner i, a.IsFilled)
    (forall₂_congr fun _ _ => ⟨fun h p => by cases p; exacts [h.1, h.2],
      fun h => ⟨h .outer, h .inner⟩⟩)

theorem self_mem_parts (j : Json) : j ∈ j.parts := by
  cases j <;> simp [parts]

theorem parts_subset_items {items : List Json} {j : Json} (hj : j ∈ items) :
    j.parts ⊆ (arr items).parts := by
  have hsub : j.parts ⊆ partsItems items := by
    induction items with
    | nil => cases hj
    | cons i items ih =>
      rw [partsItems]
      rcases List.mem_cons.1 hj with rfl | hj
      · exact List.subset_append_left _ _
      · exact List.subset_append_of_subset_right _ (ih hj)
  rw [parts]
  exact List.subset_cons_of_subset _ hsub

theorem parts_subset_members {members : List (String × Json)} {k : String} {j : Json}
    (hj : (k, j) ∈ members) : j.parts ⊆ (obj members).parts := by
  have hsub : j.parts ⊆ partsMembers members := by
    induction members with
    | nil => cases hj
    | cons m members ih =>
      rw [partsMembers]
      rcases List.mem_cons.1 hj with rfl | hj
      · exact List.subset_append_left _ _
      · exact List.subset_append_of_subset_right _ (ih hj)
  rw [parts]
  exact List.subset_cons_of_subset _ hsub

variable {j r i : Json} {names : List String} {ms : List (String × Json)} {k : String}

/-- The fields of a record stand within it. -/
theorem parts_subset_of_members? (h : j.members? names = some ms) (hi : (k, i) ∈ ms) :
    i.parts ⊆ j.parts := by
  cases j with
  | obj members =>
    cases h
    exact parts_subset_members hi
  | arr items =>
    rw [members?] at h
    split at h
    · cases h
      exact parts_subset_items (List.of_mem_zip hi).2
    · cases h
  | _ => cases h

/-- So do those of a tagged record. -/
theorem parts_subset_of_variant? {p : Place} {tag s : String} {cases : List String}
    (hr : j.variant? p tag cases = some (s, r)) (h : r.members? names = some ms)
    (hi : (k, i) ∈ ms) : i.parts ⊆ j.parts := by
  unfold variant? at hr
  split at hr
  · obtain ⟨_, _, heq⟩ := Option.map_eq_some_iff.1 hr
    cases heq
    exact parts_subset_of_members? h hi
  · rename_i t items
    obtain ⟨_, _, heq⟩ := Option.map_eq_some_iff.1 hr
    cases heq
    rw [members?] at h
    split at h
    · cases h
      exact parts_subset_items (List.mem_cons_of_mem t (List.of_mem_zip hi).2)
    · cases h
  · cases hr

theorem parts_subset_of_single? (h : j.single? = some (k, i)) : i.parts ⊆ j.parts := by
  unfold single? at h
  split at h
  · cases h
    exact parts_subset_members List.mem_cons_self
  · cases h

theorem exists_of_required {α : Type} {read : Json → Option α} {a : α}
    (h : required ms k read = some a) : ∃ i, (k, i) ∈ ms ∧ read i = some a := by
  obtain ⟨i, hlookup, hread⟩ := required_eq_some_iff.1 h
  exact ⟨i, mem_of_lookup hlookup, hread⟩

theorem read_of_nullable {α : Type} {read : Json → Option α} {a : α}
    (h : nullable read i = some (some a)) : read i = some a := by
  cases i with
  | null => cases h
  | _ => simpa [nullable] using h

theorem FillsArrays.mono (h : j.FillsArrays) (hsub : i.parts ⊆ j.parts) : i.FillsArrays :=
  fun r hr => h r (hsub hr)

end Json

/-! ### Values -/

namespace Value

/-- The arrays of a value. Free-form JSON has none. -/
def arrays : Value → List NdArray
  | array a => [a]
  | _ => []

/-- An array is read from the only member of an object. -/
theorem exists_of_read?_array {p : Json.Place} {j : Json} {a : NdArray}
    (h : read? p j = some (array a)) :
    ∃ i, j.single? = some ("Array", i) ∧ NdArray.read? p i = some a := by
  unfold read? at h
  split at h
  · cases h
  split at h <;> simp only [Option.map_eq_some_iff, Option.some.injEq, reduceCtorEq, and_false,
    exists_false, array.injEq, exists_eq_right] at h
  exact ⟨_, by assumption, h⟩

/-- The arrays of a value that is read are filled if those within its record are. -/
theorem isFilled_of_read? {p : Json.Place} {j : Json} {v : Value} (h : read? p j = some v)
    (hj : j.FillsArrays) : ∀ a ∈ v.arrays, a.IsFilled := by
  intro a ha
  cases v with
  | array b =>
    obtain rfl := List.mem_singleton.1 ha
    obtain ⟨i, hsingle, hread⟩ := exists_of_read?_array h
    exact hj i (Json.parts_subset_of_single? hsingle i.self_mem_parts) p a hread
  | _ => cases ha

/-- A conversion makes no array. -/
theorem arrays_of_apply {c : Conversion} {v w : Value} (h : c.apply v = .ok w) :
    ∀ a ∈ w.arrays, a ∈ v.arrays := by
  unfold Conversion.apply at h
  split at h
  · cases h
    exact fun _ ha => ha
  · cases h
    exact fun _ ha => ha
  · split at h <;> cases h <;> exact nofun
  · cases h
  · cases hi : ImageStep.applyAll _ _ with
    | error e =>
      rw [hi] at h
      cases h
    | ok i =>
      rw [hi] at h
      cases h
      exact nofun
  · cases h

end Value

/-! ### Expressions -/

namespace Expr

mutual

/-- The arrays among the literals. -/
def arrays : Expr → List NdArray
  | literal v => v.arrays
  | call _ _ args _ => arraysArgs args
  | _ => []

def arraysArgs : List Expr → List NdArray
  | [] => []
  | e :: es => arrays e ++ arraysArgs es

end

variable {p : Json.Place} {j : Json}

/-- A literal is read from a value within. -/
theorem exists_of_read?_literal {v : Value} (h : read? p j = some (literal v)) :
    ∃ i, i.parts ⊆ j.parts ∧ Value.read? .inner i = some v := by
  rw [read?_eq] at h
  obtain ⟨⟨kind, r⟩, hr, h⟩ := Option.bind_eq_some_iff.1 h
  unfold case? leaf? at h
  split at h
  · simp [callFields?, Option.bind_eq_some_iff] at h
  · split at h <;> simp only [Option.map_eq_some_iff, reduceCtorEq, and_false, exists_false,
      literal.injEq, exists_eq_right] at h
    obtain ⟨ms, hms, hvalue⟩ := Option.bind_eq_some_iff.1 h
    obtain ⟨i, hi, hread⟩ := Json.exists_of_required hvalue
    exact ⟨i, Json.parts_subset_of_variant? hr hms hi, hread⟩

/-- The arguments of a call are read from values within. -/
theorem exists_of_read?_call {f : FunctionRef} {n : Nat} {args : List Expr} {t : ColumnType}
    (h : read? p j = some (call f n args t)) : ∃ items,
      (∀ i ∈ items, i.parts ⊆ j.parts) ∧ Json.readAll (read? .inner) items = some args := by
  rw [read?_eq] at h
  obtain ⟨⟨kind, r⟩, hr, h⟩ := Option.bind_eq_some_iff.1 h
  unfold case? leaf? at h
  split at h
  · simp only [callFields?, Option.bind_eq_bind, Option.bind_eq_some_iff, Option.some.injEq,
      call.injEq] at h
    obtain ⟨ms, hms, f', _, n', _, args', hargs, t', _, rfl, rfl, rfl, rfl⟩ := h
    obtain ⟨i, hi, hread⟩ := Json.exists_of_required hargs
    have hsub := Json.parts_subset_of_variant? hr hms hi
    cases i with
    | arr items => exact ⟨items, fun k hk => List.Subset.trans (Json.parts_subset_items hk) hsub, hread⟩
    | _ => cases hread
  · split at h <;> simp at h

mutual

/-- The arrays of an expression that is read are filled if those within its record are. -/
theorem isFilled_of_read? : ∀ {e : Expr} {p : Json.Place} {j : Json}, read? p j = some e →
    j.FillsArrays → ∀ a ∈ e.arrays, a.IsFilled
  | column .., _, _, _, _ => nofun
  | var .., _, _, _, _ => nofun
  | literal _, _, _, h, hj => by
    obtain ⟨i, hsub, hread⟩ := exists_of_read?_literal h
    exact Value.isFilled_of_read? hread (hj.mono hsub)
  | call .., _, _, h, hj => by
    obtain ⟨items, hsub, hread⟩ := exists_of_read?_call h
    exact isFilled_of_readAll hread fun i hi => hj.mono (hsub i hi)

theorem isFilled_of_readAll : ∀ {es : List Expr} {items : List Json},
    Json.readAll (read? .inner) items = some es → (∀ i ∈ items, i.FillsArrays) →
      ∀ a ∈ arraysArgs es, a.IsFilled
  | [], _, _, _ => nofun
  | e :: es, items, h, hitems => by
    cases items with
    | nil => cases h
    | cons i items =>
      obtain ⟨hi, hitems⟩ := List.forall_mem_cons.1 hitems
      rw [Json.readAll] at h
      split at h
      · rename_i e' es' he hes
        cases h
        intro a ha
        rcases List.mem_append.1 ha with ha | ha
        · exact isFilled_of_read? he hi a ha
        · exact isFilled_of_readAll hes hitems a ha
      · cases h

end

end Expr

/-! ### Parameters -/

namespace Parameter

/-- The default of a parameter that is read is filled if the arrays within its record are. -/
theorem isFilled_of_ofJson? {j : Json} {q : Parameter} (h : ofJson? j = some q)
    (hj : j.FillsArrays) : ∀ v ∈ q.default, ∀ a ∈ v.arrays, a.IsFilled := by
  simp only [ofJson?, Option.bind_eq_bind, Option.bind_eq_some_iff, Option.some.injEq] at h
  obtain ⟨ms, hms, _, _, _, _, default, hdefault, _, _, rfl⟩ := h
  rintro v rfl
  unfold Json.defaulted at hdefault
  split at hdefault
  · rename_i i hlookup
    have hsub := Json.parts_subset_of_members? hms (mem_of_lookup hlookup)
    exact Value.isFilled_of_read? (Json.read_of_nullable hdefault) (hj.mono hsub)
  · cases hdefault

end Parameter

/-! ### Creating and reading -/

/-- An array is read from its record whatever its bytes are: as the value of an argument,
as a literal and as the default of a parameter. It is created if its bytes fill its
shape, so for an array that is filled, and for no other, reading and creating agree. The
arrays that are read are filled if all those within the record are, at any depth; and a
conversion makes no array. -/
theorem NdArray.buffers (a : NdArray) (p : Json.Place) (j : Json) :
    (Value.read? p (Value.array a).toJson = some (.array a) ∧
      Expr.read? p (Expr.literal (.array a)).toJson = some (.literal (.array a)) ∧
      ∀ q : Parameter, q.default = some (.array a) → Parameter.ofJson? q.toJson = some q) ∧
    (∀ b, create a.shape a.element a.data = .ok b ↔ b = a ∧ a.IsFilled) ∧
    (((∃ v, Value.read? p (Value.array a).toJson = some v) ↔
      ∃ b, create a.shape a.element a.data = .ok b) ↔ a.IsFilled) ∧
    (j.FillsArrays →
      (∀ v, Value.read? p j = some v → ∀ b ∈ v.arrays, b.IsFilled) ∧
      (∀ e, Expr.read? p j = some e → ∀ b ∈ e.arrays, b.IsFilled) ∧
      ∀ q, Parameter.ofJson? j = some q → ∀ v ∈ q.default, ∀ b ∈ v.arrays, b.IsFilled) ∧
    ∀ (c : Conversion) (v w : Value), c.apply v = .ok w → ∀ b ∈ w.arrays, b ∈ v.arrays := by
  have hvalue : Value.read? p (Value.array a).toJson = some (.array a) :=
    Value.read?_toJson p rfl
  have hcreate : ∀ b, create a.shape a.element a.data = .ok b ↔ b = a ∧ a.IsFilled := by
    intro b
    rw [create_eq_ok_iff]
    exact and_congr_right fun heq => by rw [heq]
  have hdefault : ∀ q : Parameter, q.default = some (.array a) →
      Parameter.ofJson? q.toJson = some q :=
    fun q hq => Parameter.ofJson?_toJson (by rw [Parameter.isFinite, hq]; rfl)
  refine ⟨⟨hvalue, Expr.read?_toJson p rfl, hdefault⟩, hcreate, ⟨fun hagree => ?_, fun hfilled => ?_⟩,
    fun hj => ⟨?_, ?_, ?_⟩, fun c v w => Value.arrays_of_apply⟩
  · obtain ⟨b, hb⟩ := hagree.1 ⟨_, hvalue⟩
    exact ((hcreate b).1 hb).2
  · exact iff_of_true ⟨_, hvalue⟩ ⟨a, (hcreate a).2 ⟨rfl, hfilled⟩⟩
  · exact fun v hv => Value.isFilled_of_read? hv hj
  · exact fun e he => Expr.isFilled_of_read? he hj
  · exact fun q hq => Parameter.isFilled_of_ofJson? hq hj

namespace Sample

/-- A call on two numbers. -/
def sumOfPair : Expr :=
  .call (.path "sum") 0 [.literal (.array ⟨[2], .int16, [1, 0, 2, 0]⟩)] .int

/-- The array in the record of the call is filled, and so is the one that is read. -/
theorem buffers_sumOfPair : sumOfPair.toJson.FillsArrays ∧
    Expr.read? .outer sumOfPair.toJson = some sumOfPair ∧ ∀ a ∈ sumOfPair.arrays, a.IsFilled := by
  have hfills : sumOfPair.toJson.FillsArrays := by decide +kernel
  have hread : Expr.read? .outer sumOfPair.toJson = some sumOfPair :=
    Expr.read?_toJson .outer rfl
  have hfilled := (NdArray.buffers ⟨[2], .int16, [1, 0, 2, 0]⟩ .outer sumOfPair.toJson).2.2.2.1
  exact ⟨hfills, hread, (hfilled hfills).2.1 sumOfPair hread⟩

/-- An array of two numbers without any bytes is not created, but it is read wherever it
stands. -/
theorem read_of_unfilled :
    let a : NdArray := ⟨[2], .int16, []⟩
    let q : Parameter := ⟨"x", .array (some [2]) .int16, some (.array a), false⟩
    NdArray.create a.shape a.element a.data = .error (.type (.arrayBufferMismatch [2] 0)) ∧
      Value.ofJson? (Value.array a).toJson = some (.array a) ∧
      Expr.ofJson? (Expr.literal (.array a)).toJson = some (.literal (.array a)) ∧
      Parameter.ofJson? q.toJson = some q ∧ a.data.length ≠ a.element.size * a.shape.prod :=
  ⟨rfl, Value.read?_toJson .outer rfl, Expr.read?_toJson .outer rfl,
    Parameter.ofJson?_toJson rfl, by decide⟩

end Sample
end Cadastre
