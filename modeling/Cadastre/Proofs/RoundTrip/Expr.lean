/-
# Values and expressions are read back from their records

A float that is no number is written as `null`, which no reader of floats
takes. Apart from that every value is read back from its record, by itself or
within a tagged record, and so is every expression whose literals are such
values: the induction follows the tree, and the arguments of a call go with it.

Key definitions: `Value.isFinite`, `Expr.isFinite`.
Key theorems: `Value.read?_toJson`, `Expr.read?_toJson`.
-/
import Cadastre.Expr.Record
import Cadastre.Proofs.RoundTrip.Timestamp
import Cadastre.Proofs.RoundTrip.Uuid

namespace Cadastre

/-- A float of a value is a number. Free-form JSON is kept as it stands. -/
def Value.isFinite : Value → Bool
  | float x => x.isFinite
  | _ => true

mutual

/-- The floats of the literals are numbers. -/
def Expr.isFinite : Expr → Bool
  | .literal v => v.isFinite
  | .call _ _ args _ => Expr.areFinite args
  | _ => true

def Expr.areFinite : List Expr → Bool
  | [] => true
  | e :: es => e.isFinite && Expr.areFinite es

end

/-! ### Values -/

theorem Json.list?_bytes (l : List UInt8) :
    Json.list? Json.uint8? (.ofList (fun b => .ofNat b.toNat) l) = some l :=
  Json.list?_ofList fun b _ => Json.uint8?_toNat b

theorem Image.read?_toJson (p : Json.Place) (i : Image) : read? p i.toJson = some i := by
  have hw : Json.uint32? (.ofNat i.width.toNat) = some i.width := Json.uint32?_toNat _
  have hh : Json.uint32? (.ofNat i.height.toNat) = some i.height := Json.uint32?_toNat _
  simp [read?, toJson, Json.members?, hw, hh, Json.list?_bytes, ImageMode.read?_toJson]

theorem NdArray.read?_toJson (p : Json.Place) (a : NdArray) : read? p a.toJson = some a := by
  have hs : Json.list? Json.nat? (.ofList .ofNat a.shape) = some a.shape :=
    Json.list?_ofList fun n _ => Json.nat?_ofNat n
  simp [read?, toJson, Json.members?, hs, Json.list?_bytes, ElementType.read?_toJson]

theorem Json.case?_single {p : Json.Place} {k : String} {j : Json}
    (hn : j ≠ .null) (he : j ≠ .obj []) : Json.case? p (.obj [(k, j)]) = none := by
  unfold Json.case?
  split <;> simp_all

/-- The only member of an object names the case, if anything does. -/
theorem Json.eq_of_case?_single {p : Json.Place} {k s : String} {j : Json}
    (h : Json.case? p (.obj [(k, j)]) = some s) : k = s := by
  unfold Json.case? at h
  split at h <;> simp_all

/-- A value is read back from its record, wherever that stands. -/
theorem Value.read?_toJson (p : Json.Place) {v : Value} (h : v.isFinite = true) :
    read? p v.toJson = some v := by
  cases v with
  | none => cases p <;> rfl
  | float x =>
    have hx : x.isFinite = true := h
    simp [read?, toJson, Json.ofFloat, hx, Json.case?, Json.single?, Json.float?]
  | int n => simp [read?, toJson, Json.case?_single, Json.single?, Json.int64?_toInt]
  | image i =>
    have hi : Json.case? p (.obj [("Image", i.toJson)]) = Option.none :=
      Json.case?_single nofun nofun
    simp [read?, toJson, hi, Json.single?, Image.read?_toJson]
  | array a =>
    have ha : Json.case? p (.obj [("Array", a.toJson)]) = Option.none :=
      Json.case?_single nofun nofun
    simp [read?, toJson, ha, Json.single?, NdArray.read?_toJson]
  | timestamp t =>
    simp [read?, toJson, Json.case?_single, Json.single?, Json.str?, Timestamp.ofRecord?_text]
  | dict j =>
    -- `null` and `{}` make the record name a case, but not the case of none
    have hd : Json.case? p (.obj [("Dict", j)]) ≠ some "None" :=
      fun h => absurd (Json.eq_of_case?_single h) (by decide)
    simp [read?, toJson, hd, Json.single?]
  | string s => simp [read?, toJson, Json.case?_single, Json.single?, Json.str?]
  | bool b => simp [read?, toJson, Json.case?_single, Json.single?, Json.bool?]

/-! ### Expressions -/

theorem FunctionRef.ofJson?_toJson (f : FunctionRef) : ofJson? f.toJson = some f := by
  cases f with
  | path p => rfl
  | id i => simp [ofJson?, toJson, Json.single?, Uuid.ofJson?_toJson]

namespace Expr

mutual

/-- An expression is read back from its record, wherever that stands. -/
theorem read?_toJson (p : Json.Place) : ∀ {e : Expr}, e.isFinite = true →
    read? p e.toJson = some e
  | column name t, _ => by
    simp [read?, toJson, Json.tag?, leaf?, namedFields?, Json.members?, Json.str?,
      t.read?_toJson]
  | var name t, _ => by
    simp [read?, toJson, Json.tag?, leaf?, namedFields?, Json.members?, Json.str?,
      t.read?_toJson]
  | literal v, h => by
    have hv : Value.read? .inner v.toJson = some v := Value.read?_toJson .inner h
    simp [read?, toJson, Json.tag?, leaf?, literalField?, Json.members?, hv]
  | call f i args t, h => by
    have hargs : argsOfList? (toJsonArgs args) = some args := argsOfList?_toJsonArgs h
    simp [read?, toJson, Json.tag?, argsOfMembers?, argsOfJson?, hargs, f.ofJson?_toJson,
      t.read?_toJson, Json.nat?_ofNat, Json.ofNat]

theorem argsOfList?_toJsonArgs : ∀ {es : List Expr}, areFinite es = true →
    argsOfList? (toJsonArgs es) = some es
  | [], _ => rfl
  | e :: es, h => by
    obtain ⟨he, hes⟩ := (Bool.and_eq_true _ _).mp h
    simp [argsOfList?, toJsonArgs, read?_toJson .inner he, argsOfList?_toJsonArgs hes]

end

end Expr
end Cadastre
