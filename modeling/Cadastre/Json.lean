/-
# JSON values

The metadata records of a catalog are JSON, and so are the free-form values a
column may hold. Whole numbers and numbers with a fraction are different
values: `1` is no `1.0`. An object lists its members; a text that is read
(`Cadastre.Json.Reader`) yields them in the order of their names, each name
once, so `same`, which compares them one by one, ignores the order in the text.

Key definitions: `Json`, `Json.same`.
Key theorems: `Json.same_self`.
-/

namespace Cadastre

/-- A JSON value. `int` holds whole numbers and `float` the others. -/
inductive Json where
  | null
  | bool (b : Bool)
  | int (n : Int)
  | float (x : Float)
  | str (s : String)
  | arr (items : List Json)
  | obj (members : List (String × Json))
  deriving Inhabited, Repr

namespace Json

mutual

/-- Equality of JSON values; floats compare as numbers, so `0.0` is `-0.0` and
no value that contains a NaN is the same as itself. -/
def same : Json → Json → Bool
  | null, null => true
  | bool a, bool b => a == b
  | int a, int b => a == b
  | float a, float b => a == b
  | str a, str b => a == b
  | arr as, arr bs => sameItems as bs
  | obj as, obj bs => sameMembers as bs
  | _, _ => false

def sameItems : List Json → List Json → Bool
  | [], [] => true
  | a :: as, b :: bs => same a b && sameItems as bs
  | _, _ => false

def sameMembers : List (String × Json) → List (String × Json) → Bool
  | [], [] => true
  | (k, a) :: as, (l, b) :: bs => k == l && same a b && sameMembers as bs
  | _, _ => false

end

mutual

/-- Every float in the value is a number. -/
def NoNaN : Json → Prop
  | float x => (x == x) = true
  | arr items => NoNaNItems items
  | obj members => NoNaNMembers members
  | _ => True

def NoNaNItems : List Json → Prop
  | [] => True
  | a :: as => NoNaN a ∧ NoNaNItems as

def NoNaNMembers : List (String × Json) → Prop
  | [] => True
  | (_, a) :: as => NoNaN a ∧ NoNaNMembers as

end

mutual

/-- A value without NaN is the same as itself. -/
theorem same_self : ∀ j : Json, NoNaN j → same j j = true
  | null, _ => rfl
  | bool _, _ => by simp [same]
  | int _, _ => by simp [same]
  | float _, h => h
  | str _, _ => by simp [same]
  | arr items, h => sameItems_self items h
  | obj members, h => sameMembers_self members h

theorem sameItems_self : ∀ l : List Json, NoNaNItems l → sameItems l l = true
  | [], _ => rfl
  | a :: as, h => by simp [sameItems, same_self a h.1, sameItems_self as h.2]

theorem sameMembers_self : ∀ l : List (String × Json), NoNaNMembers l → sameMembers l l = true
  | [], _ => rfl
  | (_, a) :: as, h => by simp [sameMembers, same_self a h.1, sameMembers_self as h.2]

end

end Json
end Cadastre
