/-
# Which types convert

Whether the values of one type become values of another is a relation between the
two types: a string becomes a timestamp, an image any image whose size is fixed in
both dimensions or in none, an array one of the same elements whose shape is the
same or left open, and a value of any other type only one of that type. The
conversion of the first to the second exists exactly then
(`ColumnType.isSome_conversionTo_iff`).

What is known of a value is a type that its own type refines, and what refines a
type converts to whatever the type does (`ColumnType.ConvertsTo.of_refines`); so does
what converts to it (`ColumnType.ConvertsTo.trans`). A type converts to itself unless it
is the invalid type or that of images with one dimension fixed
(`ColumnType.convertsTo_self_iff`), and nothing is done to its values then. So the types
that convert to themselves are preordered (`ColumnType.convertibility`).

Key definitions: `ColumnType.ConvertsTo`, `ColumnType.PassesTo`, `ColumnType.isWhole`,
`ColumnType.FixesOneDimension`.
Key theorems: `ColumnType.isSome_conversionTo_iff`,
`ColumnType.ConvertsTo.of_refines`, `ColumnType.ConvertsTo.trans`,
`ColumnType.convertsTo_self_iff`, `ColumnType.convertibility`.
-/
import Cadastre.Proofs.TypedConversions

namespace Cadastre
namespace ColumnType

/-- Values of the first type become values of the second. -/
def ConvertsTo : ColumnType → ColumnType → Prop
  | string, timestamp => True
  | image .., image w h _ => w.isNone = h.isNone
  | array shape e, array shape' e' => Meets shape shape' ∧ e = e'
  | s, t => s = t ∧ s ≠ invalid

/-- The type says of its values all that a conversion needs: it is a type, and if
it fixes one dimension of an image then also the other. -/
def isWhole : ColumnType → Bool
  | invalid => false
  | image w h _ => w.isNone == h.isNone
  | _ => true

theorem fits_iff_meets {α : Type} [DecidableEq α] {a b : Option α} :
    fits a b = true ↔ Meets a b := by
  refine ⟨meets_of_fits, fun h => ?_⟩
  rcases h with rfl | rfl <;> simp [fits]

theorem isSome_imageConversion_iff {w h w' h' : Option UInt32} {m m' : Option ImageMode} :
    (imageConversion? w h m w' h' m').isSome = true ↔ w'.isNone = h'.isNone := by
  unfold imageConversion?
  by_cases hboth : w'.isNone = h'.isNone
  · have hboth' : (w'.isNone != h'.isNone) = false := by simp [hboth]
    rw [hboth', if_neg Bool.false_ne_true]
    split <;> simp [hboth]
  · have hboth' : (w'.isNone != h'.isNone) = true := by simpa using hboth
    simp [hboth', hboth]

theorem isSome_conversionTo_iff {s t : ColumnType} :
    (s.conversionTo? t).isSome = true ↔ s.ConvertsTo t := by
  cases s with
  | image w h m =>
    cases t with
    | image w' h' m' => exact isSome_imageConversion_iff
    | _ => simp [conversionTo?, ConvertsTo]
  | array shape e =>
    cases t with
    | array shape' e' =>
      by_cases heq : e = e' <;> simp [conversionTo?, ConvertsTo, fits_iff_meets, heq]
    | _ => simp [conversionTo?, ConvertsTo]
  | _ => cases t <;> simp [conversionTo?, ConvertsTo]

/-- What converts to a type that converts on converts all the way. -/
theorem ConvertsTo.trans {r s t : ColumnType} (h : r.ConvertsTo s) (h' : s.ConvertsTo t) :
    r.ConvertsTo t := by
  cases r with
  | string =>
    cases s with
    | string => exact h'
    | timestamp =>
      obtain ⟨rfl, _⟩ := h'
      trivial
    | _ => cases h.1
  | image w b m =>
    cases s with
    | image w' b' m' =>
      -- only the target of an image conversion matters
      cases t with
      | image w'' b'' m'' => exact h'
      | _ => cases h'.1
    | _ => cases h.1
  | array shape e =>
    cases s with
    | array shape' e' =>
      obtain ⟨hshape, rfl⟩ := h
      cases t with
      | array shape'' e'' => exact ⟨hshape.trans h'.1, h'.2⟩
      | _ => cases h'.1
    | _ => cases h.1
  | _ =>
    obtain ⟨rfl, _⟩ := h
    exact h'

theorem ConvertsTo.isInvalid_eq {s t : ColumnType} (h : s.ConvertsTo t) :
    t.isInvalid = false := by
  cases t with
  | invalid =>
    cases s with
    | invalid => exact absurd rfl h.2
    | _ => cases h.1
  | _ => rfl

/-- An argument of the first type may be passed for a parameter of the second: it
converts, or is a null that has no type. -/
def PassesTo (s t : ColumnType) : Prop := s.isInvalid = true ∨ s.ConvertsTo t

theorem PassesTo.trans {r s t : ColumnType} (h : r.PassesTo s) (h' : s.PassesTo t) :
    r.PassesTo t := by
  rcases h with h | h
  · exact .inl h
  · rcases h' with h' | h'
    · rw [h.isInvalid_eq] at h'
      cases h'
    · exact .inr (h.trans h')

theorem convertsTo_self_iff {t : ColumnType} : t.ConvertsTo t ↔ t.isWhole = true := by
  cases t <;> simp [ConvertsTo, isWhole, Meets.refl]

/-! ### The preorder -/

/-- The type is one of images of which one dimension is fixed and the other is not. -/
def FixesOneDimension : ColumnType → Prop
  | image w h _ => w.isSome ≠ h.isSome
  | _ => False

theorem isWhole_eq_false_iff {t : ColumnType} :
    t.isWhole = false ↔ t = invalid ∨ t.FixesOneDimension := by
  cases t with
  | image w h m => cases w <;> cases h <;> simp [isWhole, FixesOneDimension]
  | _ => simp [isWhole, FixesOneDimension]

theorem fits_self {α : Type} [DecidableEq α] (a : Option α) : fits a a = true :=
  fits_iff_meets.2 (.refl a)

/-- Nothing is done to values that are to have the type that they have. -/
theorem conversionTo_self (t : ColumnType) :
    t.conversionTo? t = if t.isWhole = true then some .noop else none := by
  cases t with
  | image w h m =>
    have hfits : (fits w w && fits h h && fits m m) = true := by simp [fits_self]
    simp only [conversionTo?, imageConversion?, hfits, if_true, isWhole]
    by_cases hboth : w.isNone = h.isNone
    · simp [hboth]
    · simp [hboth]
  | array shape e => simp [conversionTo?, isWhole, fits_self]
  | _ => simp [conversionTo?, isWhole]

/-- What converts to a type that converts on converts all the way; and a type converts to
itself, without doing anything, unless it is the invalid type or one of images with one
dimension fixed. -/
theorem convertibility :
    (∀ r s t : ColumnType, (r.conversionTo? s).isSome = true → (s.conversionTo? t).isSome = true →
      (r.conversionTo? t).isSome = true) ∧
    ∀ t : ColumnType, (t.conversionTo? t = some .noop ↔ ¬ (t = invalid ∨ t.FixesOneDimension)) ∧
      (t.conversionTo? t = none ↔ t = invalid ∨ t.FixesOneDimension) := by
  refine ⟨fun r s t hrs hst => ?_, fun t => ?_⟩
  · rw [isSome_conversionTo_iff] at hrs hst ⊢
    exact hrs.trans hst
  · rw [conversionTo_self, ← isWhole_eq_false_iff]
    cases t.isWhole <;> simp

end ColumnType

/-- Coloured images of any size become grey ones, those become small images of any mode,
and so the first become the last, which need not be changed to stay what they are. -/
theorem Sample.convertibility_thumbnails :
    ((ColumnType.image none none (some .rgb)).conversionTo?
        (.image none none (some .gray))).isSome = true ∧
      ((ColumnType.image none none (some .gray)).conversionTo?
        (.image (some 4) (some 3) none)).isSome = true ∧
      ((ColumnType.image none none (some .rgb)).conversionTo?
        (.image (some 4) (some 3) none)).isSome = true ∧
      (ColumnType.image (some 4) (some 3) none).conversionTo? (.image (some 4) (some 3) none) =
        some .noop ∧
      (ColumnType.image (some 4) none none).conversionTo? (.image (some 4) none none) = none := by
  have hgray : ((ColumnType.image none none (some .rgb)).conversionTo?
      (.image none none (some .gray))).isSome = true := rfl
  have hsmall : ((ColumnType.image none none (some .gray)).conversionTo?
      (.image (some 4) (some 3) none)).isSome = true := rfl
  obtain ⟨htrans, hself⟩ := ColumnType.convertibility
  refine ⟨hgray, hsmall, htrans _ _ _ hgray hsmall, (hself _).1.2 ?_, (hself _).2.2 (.inr ?_)⟩
  · simp [ColumnType.FixesOneDimension]
  · simp [ColumnType.FixesOneDimension]

end Cadastre
