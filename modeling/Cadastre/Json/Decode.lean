/-
# Taking JSON values apart

A record is an object whose members are its fields, or the list of its fields
in their declared order. Members that are no field are ignored. A field is
required, or it has a default that stands for it when it is missing; `null`
stands for nothing but the absence of an optional value. A tagged record is
read in two steps, first its tag and then what it holds, and the second step
takes more spellings than the first: see `Json.Place`. Every reader answers
`none` for a value it does not accept.

Key definitions: `Json.members?`, `Json.required`, `Json.defaulted`,
`Json.nullable`, `Json.readAll`, `Json.Place`, `Json.case?`, `Json.tag?`,
`Json.variant?`, `Json.single?`.
Key theorems: `Json.required_cons_of_ne`, `Json.required_append_unknown`,
`Json.defaulted_append_unknown`, `Json.variant?_inner`, `Json.readAll_map`,
`Json.int64?_toInt`.
-/
import Cadastre.Json
import Cadastre.Power

namespace Cadastre
namespace Json

variable {α β : Type}

/-- The fields of a record with the given field names. -/
def members? (names : List String) : Json → Option (List (String × Json))
  | obj members => some members
  | arr items => if items.length ≤ names.length then some (names.zip items) else none
  | _ => none

/-- The value of a field that must be there. -/
def required (members : List (String × Json)) (name : String) (read : Json → Option α) : Option α :=
  match members.lookup name with
  | some j => read j
  | none => none

/-- The value of a field, or `fallback` if it is missing. -/
def defaulted (members : List (String × Json)) (name : String) (read : Json → Option α)
    (fallback : α) : Option α :=
  match members.lookup name with
  | some j => read j
  | none => some fallback

/-- An optional value: `null` is its absence. -/
def nullable (read : Json → Option α) : Json → Option (Option α)
  | null => some none
  | j => (read j).map some

/-- Reads every value of a list. -/
def readAll (read : Json → Option α) : List Json → Option (List α)
  | [] => some []
  | j :: js =>
    match read j, readAll read js with
    | some a, some as => some (a :: as)
    | _, _ => none

/-- A list of values. -/
def list? (read : Json → Option α) : Json → Option (List α)
  | arr items => readAll read items
  | _ => none

def bool? : Json → Option Bool
  | bool b => some b
  | _ => none

def str? : Json → Option String
  | str s => some s
  | _ => none

/-- A whole number that is not negative. -/
def nat? : Json → Option Nat
  | int (.ofNat n) => some n
  | _ => none

def uint8? (j : Json) : Option UInt8 :=
  match nat? j with
  | some n => if n < 2 ^ 8 then some (UInt8.ofNat n) else none
  | none => none

/-- A whole number below `2 ^ 32`, as a number. -/
def nat32? (j : Json) : Option Nat :=
  match nat? j with
  | some n => if n < 2 ^ 32 then some n else none
  | none => none

def uint32? (j : Json) : Option UInt32 := (nat32? j).map UInt32.ofNat

def int64? : Json → Option Int64
  | int n => if -(2 ^ 63) ≤ n ∧ n < 2 ^ 63 then some (Int64.ofInt n) else none
  | _ => none

/-- Any number; a whole one is rounded to the nearest float. -/
def float? : Json → Option Float
  | float x => some x
  | int n => some (Float.ofInt n)
  | _ => none

/-- Where a value stands: by itself, or within a tagged record. -/
inductive Place where
  | outer
  | inner
  deriving DecidableEq, Repr

/-- The name of a case without fields: the name alone, or an object that maps
it to `null`. Within a tagged record the object may map it to an empty object. -/
def case? : Place → Json → Option String
  | _, str s => some s
  | _, obj [(s, null)] => some s
  | .inner, obj [(s, obj [])] => some s
  | _, _ => none

/-- The case that a tag stands for: its name. Within a tagged record the tag of
a record may also be the number of the case among all `cases`. -/
def tag? (p : Place) (cases : List String) : Json → Option String
  | str s => some s
  | int (.ofNat n) => if p = .inner then cases[n]? else none
  | _ => none

/-- The only member of an object. -/
def single? : Json → Option (String × Json)
  | obj [(s, j)] => some (s, j)
  | _ => none

/-- The value of a member that is there and not `null`. -/
def present? (name : String) : Json → Option Json
  | obj members =>
    match members.lookup name with
    | some null => none
    | j => j
  | _ => none

/-- The value of a member that is there, be it `null`. -/
def member? (name : String) : Json → Option Json
  | obj members => members.lookup name
  | _ => none

/-- An optional member, where `null` is the same as a missing one. -/
def optional (j : Json) (name : String) (read : Json → Option α) : Option (Option α) :=
  match j.present? name with
  | some v => (read v).map some
  | none => some none

/-- A member with a default, where `null` is the same as a missing one. -/
def optionalOr (j : Json) (name : String) (read : Json → Option α) (fallback : α) : Option α :=
  match j.present? name with
  | some v => read v
  | none => some fallback

/-- The case that the field `tag` stands for, and the record of the case's
fields. In a list the tag comes first. -/
def variant? (p : Place) (tag : String) (cases : List String) : Json → Option (String × Json)
  | obj members => ((members.lookup tag).bind (tag? p cases)).map fun s => (s, obj members)
  | arr (t :: items) => (tag? p cases t).map fun s => (s, arr items)
  | _ => none

/-! ### Fields of a written record -/

section Fields

variable {members : List (String × Json)} {name key : String} {j : Json}
  {read : Json → Option α} {fallback : α}

@[simp] theorem lookup_cons_of_ne (h : name ≠ key) :
    List.lookup name ((key, j) :: members) = members.lookup name := by
  have hkey : (name == key) = false := beq_eq_false_iff_ne.2 h
  rw [List.lookup_cons, hkey]

@[simp] theorem required_cons_self : required ((name, j) :: members) name read = read j := by
  rw [required, List.lookup_cons_self]

@[simp] theorem required_cons_of_ne (h : name ≠ key) :
    required ((key, j) :: members) name read = required members name read := by
  rw [required, lookup_cons_of_ne h, required]

@[simp] theorem defaulted_cons_self :
    defaulted ((name, j) :: members) name read fallback = read j := by
  rw [defaulted, List.lookup_cons_self]

@[simp] theorem defaulted_cons_of_ne (h : name ≠ key) :
    defaulted ((key, j) :: members) name read fallback = defaulted members name read fallback := by
  rw [defaulted, lookup_cons_of_ne h, defaulted]

end Fields

/-! ### What the readers accept -/

/-- A required field is read if it is there and its value is read. -/
theorem required_eq_some_iff {members : List (String × Json)} {name : String}
    {read : Json → Option α} {a : α} :
    required members name read = some a ↔ ∃ j, members.lookup name = some j ∧ read j = some a := by
  unfold required
  cases members.lookup name <;> simp

theorem lt_of_nat32? {j : Json} {n : Nat} (h : nat32? j = some n) : n < 2 ^ 32 := by
  unfold nat32? at h
  split at h
  · split at h
    · rename_i hlt
      cases h
      exact hlt
    · cases h
  · cases h

theorem lookup_append_unknown {members extra : List (String × Json)} {name : String}
    (h : extra.lookup name = none) : (members ++ extra).lookup name = members.lookup name := by
  induction members with
  | nil => simpa using h
  | cons m ms ih =>
    obtain ⟨k, v⟩ := m
    simp only [List.cons_append, List.lookup_cons]
    split <;> simp [ih]

/-- Members with other names do not change a required field. -/
theorem required_append_unknown {members extra : List (String × Json)} {name : String}
    {read : Json → Option α} (h : extra.lookup name = none) :
    required (members ++ extra) name read = required members name read := by
  simp [required, lookup_append_unknown h]

/-- Members with other names do not change a field with a default. -/
theorem defaulted_append_unknown {members extra : List (String × Json)} {name : String}
    {read : Json → Option α} {fallback : α} (h : extra.lookup name = none) :
    defaulted (members ++ extra) name read fallback = defaulted members name read fallback := by
  simp [defaulted, lookup_append_unknown h]

/-- What names a case by itself names it within a tagged record too. -/
theorem case?_inner {j : Json} {s : String} (h : case? .outer j = some s) :
    case? .inner j = some s := by
  unfold case? at h ⊢
  split at h <;> simp_all

/-- A tag that is read by itself is read the same within a tagged record. -/
theorem tag?_inner {cases : List String} {j : Json} {s : String}
    (h : tag? .outer cases j = some s) : tag? .inner cases j = some s := by
  unfold tag? at h ⊢
  split at h <;> simp_all

/-- A tagged record that is read by itself is read the same within another. -/
theorem variant?_inner {tag : String} {cases : List String} {j : Json} {r : String × Json}
    (h : variant? .outer tag cases j = some r) : variant? .inner tag cases j = some r := by
  unfold variant? at h ⊢
  split at h
  · obtain ⟨s, hs, rfl⟩ := Option.map_eq_some_iff.1 h
    obtain ⟨t, ht, hs⟩ := Option.bind_eq_some_iff.1 hs
    simp [ht, tag?_inner hs]
  · obtain ⟨s, hs, rfl⟩ := Option.map_eq_some_iff.1 h
    simp [tag?_inner hs]
  · cases h

/-- A list that is written element by element is read back. -/
theorem readAll_map {read : Json → Option α} {write : α → Json} :
    ∀ {l : List α}, (∀ a ∈ l, read (write a) = some a) → readAll read (l.map write) = some l
  | [], _ => rfl
  | a :: as, h => by
    have ih := readAll_map (l := as) fun b hb => h b (List.mem_cons_of_mem a hb)
    simp [readAll, h a List.mem_cons_self, ih]

theorem nat?_ofNat (n : Nat) : nat? (int n) = some n := rfl

theorem nat32?_ofNat {n : Nat} (h : n < 2 ^ 32) : nat32? (int n) = some n := by
  simp only [nat32?, nat?_ofNat, h, if_true]

theorem uint32?_toNat (n : UInt32) : uint32? (int n.toNat) = some n := by
  simp [uint32?, nat32?_ofNat n.toNat_lt]

theorem uint8?_toNat (n : UInt8) : uint8? (int n.toNat) = some n := by
  have h : n.toNat < 2 ^ 8 := n.toNat_lt
  simp only [uint8?, nat?_ofNat, h, if_true, UInt8.ofNat_toNat]

theorem int64?_toInt (n : Int64) : int64? (int n.toInt) = some n := by
  have h1 : -(2 ^ 63) ≤ n.toInt := Int64.le_toInt n
  have h2 : n.toInt < 2 ^ 63 := Int64.toInt_lt n
  simp only [int64?, h1, h2, and_self, if_true, Int64.ofInt_toInt]

end Json
end Cadastre
