/-
# Conversions yield values of their target type

A conversion is chosen by two types that may leave fields open, and is done on a
value that has them all. Whatever the source type left open, the steps that were
chosen lead every value that conforms to it to one that conforms to the target
(`ColumnType.pipeline_of_conversionTo`). On the way an image may outgrow what
fits in memory: a size whose buffer passes a 64-bit word is refused, and a
buffer that does not, but is longer than there are addresses, breaks the process
off (`Image.Resized`). A conversion ends in no other way
(`Conversion.typeSound`); and it may break off although the length of the buffer
has passed its check (`Sample.breakdown_of_resize`).

Key definitions: `Image.Resized`, `ImagePipeline.target`,
`ImagePipeline.OutgrowsMemory`, `ImagePipeline.Makes`, `Value.WellFormed`,
`Conversion.Yields`.
Key theorems: `Image.resize_eq_scaled`, `Image.resize_spec`, `Image.recolor_spec`,
`ImagePipeline.applyAll_spec`, `ColumnType.refines_of_noop`,
`ColumnType.pipeline_of_conversionTo`, `Conversion.typeSound`.
-/
import Cadastre.Conversion
import Cadastre.Proofs.Pixels

namespace Cadastre

theorem requireBuffer_eq_ok {n : Nat} (h : n < 2 ^ 63) : requireBuffer n = .ok () := if_pos h

theorem requireBuffer_eq_error {n : Nat} (h : 2 ^ 63 ≤ n) :
    requireBuffer n = .error .capacityOverflow :=
  if_neg (Nat.not_lt.2 h)

/-! ### Steps on images -/

namespace Image

variable {i : Image}

/-- How a resize ends. -/
inductive Resized (i : Image) (width height : UInt32) : Except Error Image → Prop
  | done {j : Image} (hwidth : j.width = width) (hheight : j.height = height)
      (hmode : j.mode = i.mode) (hj : j.WellFormed) : Resized i width height (.ok j)
  /-- The length of the buffer passes a 64-bit word. -/
  | tooLarge (hlength : 2 ^ 64 ≤ bufferLength width height i.mode) :
      Resized i width height (.error (.type (.imageTooLarge width height i.mode)))
  /-- The length does not, but no such buffer can be. -/
  | breakdown (hlength : 2 ^ 63 ≤ bufferLength width height i.mode)
      (hword : bufferLength width height i.mode < 2 ^ 64) :
      Resized i width height (.error .capacityOverflow)

/-- An image that has a buffer is the nearest pixels. -/
theorem resize_eq_scaled (hi : i.WellFormed) {width height : UInt32}
    (hlength : bufferLength width height i.mode < 2 ^ 63) :
    i.resize width height = .ok (i.scaled width height) := by
  have hword : bufferLength width height i.mode < 2 ^ 64 := Nat.lt_trans hlength (by decide)
  unfold resize bufferLength?
  rw [if_pos hword]
  simp only [bind, Except.bind, requireBuffer_eq_ok hlength, resizedPixels_eq hi]
  rfl

/-- A length that passes its check may break the process off. -/
theorem resize_eq_breakdown {width height : UInt32}
    (hlength : 2 ^ 63 ≤ bufferLength width height i.mode)
    (hword : bufferLength width height i.mode < 2 ^ 64) :
    i.resize width height = .error .capacityOverflow := by
  unfold resize bufferLength?
  rw [if_pos hword]
  simp only [bind, Except.bind, requireBuffer_eq_error hlength]

theorem resize_eq_tooLarge {width height : UInt32}
    (hlength : 2 ^ 64 ≤ bufferLength width height i.mode) :
    i.resize width height = .error (.type (.imageTooLarge width height i.mode)) := by
  unfold resize bufferLength?
  rw [if_neg (Nat.not_lt.2 hlength)]
  rfl

/-- What was resized had a buffer, and is the nearest pixels. -/
theorem eq_scaled_of_resize (hi : i.WellFormed) {width height : UInt32} {j : Image}
    (h : i.resize width height = .ok j) :
    bufferLength width height i.mode < 2 ^ 63 ∧ j = i.scaled width height := by
  by_cases hlength : bufferLength width height i.mode < 2 ^ 63
  · rw [resize_eq_scaled hi hlength] at h
    exact ⟨hlength, (Except.ok.inj h).symm⟩
  · have hlength := Nat.le_of_not_lt hlength
    by_cases hword : bufferLength width height i.mode < 2 ^ 64
    · rw [resize_eq_breakdown hlength hword] at h
      cases h
    · rw [resize_eq_tooLarge (Nat.le_of_not_lt hword)] at h
      cases h

theorem resize_spec (hi : i.WellFormed) (width height : UInt32) :
    Resized i width height (i.resize width height) := by
  by_cases hword : bufferLength width height i.mode < 2 ^ 64
  · by_cases hlength : bufferLength width height i.mode < 2 ^ 63
    · rw [resize_eq_scaled hi hlength]
      exact .done rfl rfl rfl (wellFormed_scaled hi width height)
    · have hlength := Nat.le_of_not_lt hlength
      rw [resize_eq_breakdown hlength hword]
      exact .breakdown hlength hword
  · have hword := Nat.le_of_not_lt hword
    rw [resize_eq_tooLarge hword]
    exact .tooLarge hword

/-- How a recolouring ends. -/
inductive Recolored (i : Image) (mode : ImageMode) : Except Error Image → Prop
  | done {j : Image} (hwidth : j.width = i.width) (hheight : j.height = i.height)
      (hmode : j.mode = mode) (hj : j.WellFormed) : Recolored i mode (.ok j)
  /-- No buffer can hold the image in the other mode. -/
  | breakdown (hmode : mode ≠ i.mode) (hlength : 2 ^ 63 ≤ bufferLength i.width i.height mode) :
      Recolored i mode (.error .capacityOverflow)

/-- An image that is in the mode already needs no buffer, and else the image in the
mode is made if it has one. -/
theorem recolor_eq_convert (hi : i.WellFormed) {mode : ImageMode}
    (h : mode = i.mode ∨ bufferLength i.width i.height mode < 2 ^ 63) :
    i.recolor mode = .ok (i.convert mode) := by
  unfold recolor
  by_cases hmode : mode = i.mode
  · rw [if_pos hmode, hmode, convert_self]
  · rw [if_neg hmode, length_convert hi, requireBuffer_eq_ok (h.resolve_left hmode)]
    rfl

/-- What is recoloured is the image in the other mode. -/
theorem eq_convert_of_recolor {mode : ImageMode} {j : Image} (h : i.recolor mode = .ok j) :
    j = i.convert mode := by
  unfold recolor at h
  by_cases hmode : mode = i.mode
  · rw [if_pos hmode] at h
    rw [hmode, convert_self, Except.ok.inj h]
  · rw [if_neg hmode] at h
    unfold requireBuffer at h
    split at h
    · exact (Except.ok.inj h).symm
    · cases h

theorem recolor_eq_breakdown (hi : i.WellFormed) {mode : ImageMode} (hmode : mode ≠ i.mode)
    (hlength : 2 ^ 63 ≤ bufferLength i.width i.height mode) :
    i.recolor mode = .error .capacityOverflow := by
  rw [recolor, if_neg hmode, length_convert hi, requireBuffer_eq_error hlength]
  rfl

theorem recolor_spec (hi : i.WellFormed) (mode : ImageMode) :
    Recolored i mode (i.recolor mode) := by
  by_cases h : mode = i.mode ∨ bufferLength i.width i.height mode < 2 ^ 63
  · rw [recolor_eq_convert hi h]
    exact .done (convert_width mode) (convert_height mode) (convert_mode mode)
      (wellFormed_convert hi mode)
  · obtain ⟨hmode, hlength⟩ := not_or.1 h
    rw [recolor_eq_breakdown hi hmode (Nat.le_of_not_lt hlength)]
    exact .breakdown hmode (Nat.le_of_not_lt hlength)

end Image

/-- The first step, then the others on the image it makes. -/
theorem ImageStep.applyAll_cons (i : Image) (s : ImageStep) (ss : List ImageStep) :
    applyAll i (s :: ss) = (s.apply i).bind fun j => applyAll j ss := by
  rw [applyAll]
  cases s.apply i <;> rfl

/-! ### Pipelines -/

namespace ImagePipeline

variable {p : ImagePipeline} {i : Image}

/-- The size that the pipeline leads to. -/
def size (p : ImagePipeline) (i : Image) : UInt32 × UInt32 := p.resize.getD (i.width, i.height)

/-- The type that the pipeline leads to. -/
def target (p : ImagePipeline) (i : Image) : ColumnType :=
  .sizedImage (p.size i).1 (p.size i).2 (p.recolor.getD i.mode)

/-- A buffer that the pipeline asks for is longer than there are addresses,
although its length passes the check, if there is one. -/
def OutgrowsMemory (p : ImagePipeline) (i : Image) : Prop :=
  (∃ w h, p.resize = some (w, h) ∧ 2 ^ 63 ≤ Image.bufferLength w h i.mode ∧
    Image.bufferLength w h i.mode < 2 ^ 64) ∨
  ∃ m, p.recolor = some m ∧ m ≠ i.mode ∧
    2 ^ 63 ≤ Image.bufferLength (p.size i).1 (p.size i).2 m

/-- A resize comes first. -/
theorem steps_eq (p : ImagePipeline) :
    p.steps = (p.resize.map fun s => ImageStep.resize s.1 s.2).toList ++
      (p.recolor.map ImageStep.recolor).toList := by
  unfold steps
  cases p.resize <;> cases p.recolor <;> rfl

/-- How a pipeline ends. -/
inductive Makes (p : ImagePipeline) (i : Image) : Except Error Image → Prop
  | image {j : Image} (htype : (Value.image j).type = p.target i) (hj : j.WellFormed) :
      Makes p i (.ok j)
  | tooLarge {w h : UInt32} (hresize : p.resize = some (w, h))
      (hlength : 2 ^ 64 ≤ Image.bufferLength w h i.mode) :
      Makes p i (.error (.type (.imageTooLarge w h i.mode)))
  | breakdown (houtgrows : p.OutgrowsMemory i) : Makes p i (.error .capacityOverflow)

/-- The recolouring of an image that has the size and is in the mode from before. -/
theorem applyAll_recolor {j : Image} (hj : j.WellFormed) (hwidth : j.width = (p.size i).1)
    (hheight : j.height = (p.size i).2) (hmode : j.mode = i.mode) :
    p.Makes i (ImageStep.applyAll j (p.recolor.map ImageStep.recolor).toList) := by
  cases hrecolor : p.recolor with
  | none =>
    refine .image ?_ hj
    rw [Value.type, target, hrecolor, hwidth, hheight, hmode]
    rfl
  | some m =>
    have hspec := Image.recolor_spec hj m
    show p.Makes i (ImageStep.applyAll j [.recolor m])
    rw [ImageStep.applyAll_cons, ImageStep.apply]
    generalize j.recolor m = r at hspec ⊢
    cases hspec with
    | done hw hh hm hk =>
      refine .image ?_ hk
      rw [Value.type, target, hrecolor, hw, hh, hm, hwidth, hheight]
      rfl
    | breakdown hne hlength =>
      rw [hmode] at hne
      rw [hwidth, hheight] at hlength
      exact .breakdown (.inr ⟨m, hrecolor, hne, hlength⟩)

theorem applyAll_spec (hi : i.WellFormed) (p : ImagePipeline) :
    p.Makes i (ImageStep.applyAll i p.steps) := by
  rw [steps_eq]
  cases hresize : p.resize with
  | none =>
    have hsize : p.size i = (i.width, i.height) := by rw [size, hresize]; rfl
    exact applyAll_recolor hi (by rw [hsize]) (by rw [hsize]) rfl
  | some s =>
    obtain ⟨w, h⟩ := s
    have hsize : p.size i = (w, h) := by rw [size, hresize]; rfl
    have hspec := Image.resize_spec hi w h
    show p.Makes i (ImageStep.applyAll i (.resize w h :: _))
    rw [ImageStep.applyAll_cons, ImageStep.apply]
    generalize i.resize w h = r at hspec ⊢
    cases hspec with
    | done hw hh hm hj => exact applyAll_recolor hj (by rw [hsize, hw]) (by rw [hsize, hh]) hm
    | tooLarge hlength => exact .tooLarge hresize hlength
    | breakdown hlength hword => exact .breakdown (.inl ⟨w, h, hresize, hlength, hword⟩)

end ImagePipeline

/-! ### Choosing a conversion -/

namespace ColumnType

variable {s t : ColumnType}

theorem meets_of_fits {α : Type} [DecidableEq α] {a b : Option α} (h : fits a b = true) :
    Meets a b := by
  unfold fits at h
  rcases Bool.or_eq_true_iff.1 h with hopen | heq
  · exact .inl (Option.isNone_iff_eq_none.1 hopen)
  · exact .inr (eq_of_beq heq).symm

/-- Images are left as they are only if the source fixes what the target does. -/
theorem meets_of_imageConversion_noop {w h w' h' : Option UInt32} {m m' : Option ImageMode}
    (hc : imageConversion? w h m w' h' m' = some .noop) :
    Meets w w' ∧ Meets h h' ∧ Meets m m' := by
  unfold imageConversion? at hc
  split at hc
  · cases hc
  · split at hc
    · rename_i hfits
      obtain ⟨hsize, hm⟩ := Bool.and_eq_true_iff.1 hfits
      obtain ⟨hw, hh⟩ := Bool.and_eq_true_iff.1 hsize
      exact ⟨meets_of_fits hw, meets_of_fits hh, meets_of_fits hm⟩
    · cases hc

/-- A value that is left as it is has the target type. -/
theorem refines_of_noop (hc : s.conversionTo? t = some .noop) : s.Refines t := by
  unfold conversionTo? at hc
  split at hc
  · cases hc
  · cases hc
  · cases hc
  · exact meets_of_imageConversion_noop hc
  · split at hc
    · rename_i harray
      exact ⟨meets_of_fits harray.2, harray.1⟩
    · cases hc
  · split at hc
    · rename_i heq
      exact heq ▸ Refines.refl _
    · cases hc

/-- The mode that is recoloured to, if any, meets the target. -/
theorem meets_of_recolor {m m' : Option ImageMode} {mode : ImageMode} (hm : Meets (some mode) m) :
    Meets (some ((if m' = m then none else m').getD mode)) m' := by
  by_cases heq : m' = m
  · rw [if_pos heq, heq]
    exact hm
  · rw [if_neg heq]
    cases m' with
    | none => exact .inl rfl
    | some x => exact .inr rfl

/-- A mode that is not recoloured to is one that fits. -/
theorem fits_of_recolor_eq_none {m m' : Option ImageMode}
    (h : (if m' = m then none else m') = none) : fits m m' = true := by
  unfold fits
  split at h
  · rename_i heq
    simp [heq]
  · simp [h]

/-- The steps that are chosen lead images of the source to the target, and there
is one at least. -/
theorem pipeline_of_imageConversion {w h w' h' : Option UInt32} {m m' : Option ImageMode}
    {p : ImagePipeline} (hc : imageConversion? w h m w' h' m' = some (.image p)) :
    p.steps ≠ [] ∧ ∀ i : Image, Meets (some i.width) w → Meets (some i.height) h →
      Meets (some i.mode) m → Meets (some (p.size i).1) w' ∧ Meets (some (p.size i).2) h' ∧
        Meets (some (p.recolor.getD i.mode)) m' := by
  unfold imageConversion? at hc
  split at hc
  · cases hc
  rename_i hboth
  split at hc
  · cases hc
  rename_i hfits
  have hsteps : ∀ resize, (⟨resize, if m' = m then none else m'⟩ : ImagePipeline) = p →
      (resize = none → fits w w' = true ∧ fits h h' = true) → p.steps ≠ [] := by
    rintro resize rfl hresize hnil
    have hnone : resize = none ∧ (if m' = m then none else m') = none := by
      cases resize <;> cases hrecolor : (if m' = m then none else m') <;>
        simp [ImagePipeline.steps, hrecolor] at hnil ⊢
    obtain ⟨hw, hh⟩ := hresize hnone.1
    exact hfits (by simp [hw, hh, fits_of_recolor_eq_none hnone.2])
  cases w' with
  | none =>
    cases h' with
    | some b => simp at hboth
    | none =>
      cases hc
      exact ⟨hsteps none rfl fun _ => ⟨rfl, rfl⟩, fun i _ _ hm =>
        ⟨.inl rfl, .inl rfl, meets_of_recolor hm⟩⟩
  | some a =>
    cases h' with
    | none => simp at hboth
    | some b =>
      by_cases hsame : w = some a ∧ h = some b
      · obtain ⟨rfl, rfl⟩ := hsame
        simp only [and_self, if_true, Option.some.injEq, Conversion.image.injEq] at hc
        refine ⟨hsteps none hc fun _ => ⟨by simp [fits], by simp [fits]⟩, ?_⟩
        rw [← hc]
        exact fun i hw hh hm => ⟨hw, hh, meets_of_recolor hm⟩
      · simp only [hsame, if_false, Option.some.injEq, Conversion.image.injEq] at hc
        refine ⟨hsteps (some (a, b)) hc nofun, ?_⟩
        rw [← hc]
        exact fun i _ _ hm => ⟨.inr rfl, .inr rfl, meets_of_recolor hm⟩

/-- What a pipeline is chosen for are images. -/
theorem pipeline_of_conversionTo {p : ImagePipeline} (hc : s.conversionTo? t = some (.image p)) :
    p.steps ≠ [] ∧ ∀ v : Value, v.type.Refines s → ∃ i, v = .image i ∧ (p.target i).Refines t := by
  unfold conversionTo? at hc
  split at hc
  · cases hc
  · cases hc
  · cases hc
  · obtain ⟨hsteps, htarget⟩ := pipeline_of_imageConversion hc
    refine ⟨hsteps, fun v hv => ?_⟩
    cases v with
    | image i => exact ⟨i, rfl, htarget i hv.1 hv.2.1 hv.2.2⟩
    | _ => cases hv.tag_eq
  · split at hc <;> cases hc
  · split at hc <;> cases hc

/-- Texts are read where timestamps are asked for. -/
theorem ends_of_parseTimestamp (hc : s.conversionTo? t = some .parseTimestamp) :
    s = .string ∧ t = .timestamp := by
  unfold conversionTo? at hc
  split at hc
  · cases hc
  · cases hc
  · exact ⟨rfl, rfl⟩
  · unfold imageConversion? at hc
    split at hc
    · cases hc
    · split at hc <;> cases hc
  · split at hc <;> cases hc
  · split at hc <;> cases hc

end ColumnType

/-! ### Converting a value -/

/-- The pixels of an image fill its size. -/
def Value.WellFormed : Value → Prop
  | .image i => i.WellFormed
  | _ => True

instance : (v : Value) → Decidable v.WellFormed
  | .image i => inferInstanceAs (Decidable i.WellFormed)
  | .none | .string _ | .int _ | .float _ | .bool _ | .timestamp _ | .dict _ | .array _ =>
    inferInstanceAs (Decidable True)

/-- How a conversion of a value to the type `t` ends. -/
inductive Conversion.Yields (c : Conversion) (v : Value) (t : ColumnType) :
    Except Error Value → Prop
  | value {w : Value} (hw : w.Conforms t) (hform : w.WellFormed) : Yields c v t (.ok w)
  /-- The image has no other size: its buffer would pass a 64-bit word. -/
  | tooLarge {p : ImagePipeline} {i : Image} {width height : UInt32} (hc : c = .image p)
      (hv : v = .image i) (hresize : p.resize = some (width, height))
      (hlength : 2 ^ 64 ≤ Image.bufferLength width height i.mode) :
      Yields c v t (.error (.type (.imageTooLarge width height i.mode)))
  | breakdown {p : ImagePipeline} {i : Image} (hc : c = .image p) (hv : v = .image i)
      (houtgrows : p.OutgrowsMemory i) : Yields c v t (.error .capacityOverflow)

/-- A conversion between two types makes a value of the second of every value of
the first, unless an image outgrows memory on the way. It leaves the values as
they are if it is none at all, and an image conversion has a step. -/
theorem Conversion.typeSound {s t : ColumnType} {c : Conversion}
    (hc : s.conversionTo? t = some c) {v : Value} (hv : v.Conforms s) (hform : v.WellFormed) :
    c.Yields v t (c.apply v) ∧ (c = .noop → c.apply v = .ok v) ∧
      ∀ p, c = .image p → p.steps ≠ [] := by
  refine ⟨?_, fun hnoop => hnoop ▸ apply_noop v, ?_⟩
  · rcases hv with hnone | hv
    · have hv : v = .none := by
        cases v <;> simp_all [Value.isNone]
      rw [hv, apply_none]
      exact .value (.inl rfl) trivial
    · cases c with
      | noop =>
        rw [apply_noop]
        exact .value (.inr (hv.trans (ColumnType.refines_of_noop hc))) hform
      | parseTimestamp =>
        obtain ⟨rfl, rfl⟩ := ColumnType.ends_of_parseTimestamp hc
        cases v with
        | string text =>
          unfold apply
          dsimp only
          cases Timestamp.parse? text with
          | none => exact .value (.inl rfl) trivial
          | some time => exact .value (.inr (.refl .timestamp)) trivial
        | _ => cases hv.tag_eq
      | image p =>
        obtain ⟨i, rfl, htarget⟩ := (ColumnType.pipeline_of_conversionTo hc).2 v hv
        have hmakes := ImagePipeline.applyAll_spec hform p
        show Yields _ _ t ((ImageStep.applyAll i p.steps).map .image)
        generalize ImageStep.applyAll i p.steps = r at hmakes ⊢
        cases hmakes with
        | image htype hj => exact .value (.inr (htype ▸ htarget)) hj
        | tooLarge hresize hlength => exact .tooLarge rfl rfl hresize hlength
        | breakdown houtgrows => exact .breakdown rfl rfl houtgrows
  · rintro p rfl
    exact (ColumnType.pipeline_of_conversionTo hc).1

namespace Sample

/-- A grey image of one pixel. -/
def dot : Image := ⟨1, 1, .gray, [7]⟩

/-- The type of the largest grey images. -/
def expanse : ColumnType := .sizedImage 4294967295 4294967295 .gray

/-- The conversion of a dot to an expanse. -/
def expansion : Conversion := .image ⟨some (4294967295, 4294967295), none⟩

end Sample

/-- A dot becomes a stripe in colour. -/
theorem Sample.typeSound_dot :
    (Value.image Sample.dot).type.conversionTo? (.image (some 3) (some 1) (some .rgb)) =
        some (.image ⟨some (3, 1), some .rgb⟩) ∧
      (Value.image Sample.dot).Conforms (Value.image Sample.dot).type ∧
      (Value.image Sample.dot).WellFormed ∧
      (Conversion.image ⟨some (3, 1), some .rgb⟩).Yields (.image Sample.dot)
        (.image (some 3) (some 1) (some .rgb))
        ((Conversion.image ⟨some (3, 1), some .rgb⟩).apply (.image Sample.dot)) ∧
      (Conversion.image ⟨some (3, 1), some .rgb⟩ = .noop →
        (Conversion.image ⟨some (3, 1), some .rgb⟩).apply (.image Sample.dot) =
          .ok (.image Sample.dot)) ∧
      ∀ p, Conversion.image ⟨some (3, 1), some .rgb⟩ = .image p → p.steps ≠ [] := by
  have hc : (Value.image Sample.dot).type.conversionTo? (.image (some 3) (some 1) (some .rgb)) =
      some (.image ⟨some (3, 1), some .rgb⟩) := by decide +kernel
  have hv : (Value.image Sample.dot).Conforms (Value.image Sample.dot).type :=
    .inr (ColumnType.Refines.refl _)
  have hform : (Value.image Sample.dot).WellFormed := by decide +kernel
  exact ⟨hc, hv, hform, Conversion.typeSound hc hv hform⟩

/-- The buffer of the largest grey image passes its check, but no such buffer can
be: the conversion breaks the process off. -/
theorem Sample.breakdown_of_resize :
    (Value.image Sample.dot).type.conversionTo? Sample.expanse = some Sample.expansion ∧
      (Value.image Sample.dot).Conforms (Value.image Sample.dot).type ∧
      (Value.image Sample.dot).WellFormed ∧
      Image.bufferLength 4294967295 4294967295 .gray < 2 ^ 64 ∧
      Sample.expansion.apply (.image Sample.dot) = .error .capacityOverflow := by
  refine ⟨by decide +kernel, .inr (ColumnType.Refines.refl _), by decide +kernel, by decide +kernel,
    ?_⟩
  have hresize : Sample.dot.resize 4294967295 4294967295 = .error .capacityOverflow :=
    Image.resize_eq_breakdown (by decide +kernel) (by decide +kernel)
  have hsteps : ImageStep.applyAll Sample.dot [.resize 4294967295 4294967295] =
      .error .capacityOverflow := by
    simp only [ImageStep.applyAll, ImageStep.apply, hresize]
  show (ImageStep.applyAll Sample.dot [.resize 4294967295 4294967295]).map Value.image = _
  rw [hsteps]
  rfl

end Cadastre
