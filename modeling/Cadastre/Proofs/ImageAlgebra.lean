/-
# The algebra of images

Resizing moves whole pixels and recolouring changes each pixel by itself, so it does not
matter which is done first (`Image.scaled_convert`). Black is black in both modes, which
settles images without pixels. So the two steps of a conversion may change places, and if
both resizes have a buffer, the recolouring after the one has a buffer as well
(`Image.applyAll_swap`).

An image at its own size is the image, since each place is its own nearest one
(`Image.scaled_self`). Grey is the mean of three equal channels, so that an image in grey
comes back from colour (`Image.convert_rgb_gray`). All of it together is `Image.algebra`.

Key definitions: `ImagePipeline.ResizesEitherWay`, `Image.Algebra`.
Key theorems: `Image.scaled_convert`, `Image.scaled_self`, `Image.convert_rgb_gray`,
`Image.applyAll_swap`, `Image.algebra`.
-/
import Cadastre.Proofs.TypedConversions
import Mathlib.Data.List.Permutation

namespace Cadastre

namespace Image

variable {i j k : Image} {mode : ImageMode} {width height : UInt32}

/-! ### Resizing and recolouring -/

theorem isEmpty_convert : (i.convert mode).IsEmpty ↔ i.IsEmpty := by
  unfold IsEmpty
  rw [convert_width, convert_height]

/-- The nearest pixel in the other mode is the nearest one of the image in that mode. -/
theorem nearestPixel_convert (i : Image) (mode : ImageMode) (width height x y : Nat) :
    (i.convert mode).nearestPixel width height x y =
      recolorBytes i.mode mode (i.nearestPixel width height x y) := by
  unfold nearestPixel
  by_cases hempty : i.IsEmpty
  · rw [if_pos (isEmpty_convert.2 hempty), if_pos hempty, recolorBytes_black, convert_mode]
  · rw [if_neg (fun h => hempty (isEmpty_convert.1 h)), if_neg hempty, pixel_convert,
      convert_width, convert_height]

theorem scaled_convert (hi : i.WellFormed) (mode : ImageMode) (width height : UInt32) :
    (i.convert mode).scaled width height = (i.scaled width height).convert mode := by
  have hconvert := wellFormed_convert hi mode
  refine eq_of_pixels (wellFormed_scaled hconvert width height)
    (wellFormed_convert (wellFormed_scaled hi width height) mode) ?_ ?_ ?_ fun x y hx hy => ?_
  · rw [convert_width]
    rfl
  · rw [convert_height]
    rfl
  · rw [convert_mode]
    exact convert_mode mode
  · have hx : x < width.toNat := hx
    have hy : y < height.toNat := hy
    rw [pixel_scaled hconvert hx hy, nearestPixel_convert, pixel_convert, pixel_scaled hi hx hy]
    rfl

/-- An image at its own size is the image. -/
theorem scaled_self (hi : i.WellFormed) : i.scaled i.width i.height = i := by
  refine eq_of_pixels (wellFormed_scaled hi _ _) hi rfl rfl rfl fun x y hx hy => ?_
  have hx : x < i.width.toNat := hx
  have hy : y < i.height.toNat := hy
  have hsome : ¬ i.IsEmpty :=
    not_or.2 ⟨Nat.ne_of_gt (Nat.zero_lt_of_lt hx), Nat.ne_of_gt (Nat.zero_lt_of_lt hy)⟩
  have hcolumn : nearest i.width.toNat i.width.toNat x = x :=
    Nat.mul_div_cancel x (Nat.zero_lt_of_lt hx)
  have hrow : nearest i.height.toNat i.height.toNat y = y :=
    Nat.mul_div_cancel y (Nat.zero_lt_of_lt hy)
  rw [pixel_scaled hi hx hy, nearestPixel, if_neg hsome, hcolumn, hrow]

/-! ### Recolouring twice -/

theorem luma_self (l : UInt8) : luma l l l = l.toNat := by
  unfold luma
  omega

theorem grayPixels_rgbPixels (bytes : List UInt8) : grayPixels (rgbPixels bytes) = bytes := by
  induction bytes with
  | nil => rfl
  | cons l rest ih => rw [rgbPixels, grayPixels, ih, luma_self, UInt8.ofNat_toNat]

/-- An image in grey comes back from colour. -/
theorem convert_rgb_gray (hmode : i.mode = .gray) : (i.convert .rgb).convert .gray = i := by
  obtain ⟨width, height, mode, bytes⟩ := i
  subst hmode
  exact congrArg (Image.mk width height .gray) (grayPixels_rgbPixels bytes)

theorem convert_convert (i : Image) (mode : ImageMode) :
    (i.convert mode).convert mode = i.convert mode := by
  have hself := convert_self (i.convert mode)
  rwa [convert_mode] at hself

/-! ### The order of the steps -/

/-- If the image can be resized before and after it is recoloured, it does not matter
which is done first. -/
theorem recolor_of_resizes (hi : i.WellFormed) (hj : i.resize width height = .ok j)
    {k l : Image} (hk : i.recolor mode = .ok k) (hl : k.resize width height = .ok l) :
    j.recolor mode = .ok l := by
  obtain ⟨hlength, rfl⟩ := eq_scaled_of_resize hi hj
  obtain rfl := eq_convert_of_recolor hk
  obtain ⟨hlength', rfl⟩ := eq_scaled_of_resize (wellFormed_convert hi mode) hl
  rw [convert_mode] at hlength'
  rw [scaled_convert hi]
  exact recolor_eq_convert (wellFormed_scaled hi width height) (.inr hlength')

theorem applyAll_swap (hi : i.WellFormed) (hj : ∃ j, i.resize width height = .ok j)
    (hl : ∃ k l, i.recolor mode = .ok k ∧ k.resize width height = .ok l) :
    ImageStep.applyAll i [.recolor mode, .resize width height] =
      ImageStep.applyAll i [.resize width height, .recolor mode] := by
  obtain ⟨j, hj⟩ := hj
  obtain ⟨k, l, hk, hl⟩ := hl
  have hrecolor := recolor_of_resizes hi hj hk hl
  simp only [ImageStep.applyAll, ImageStep.apply, hj, hk, hl, hrecolor]

end Image

/-- The resize of the pipeline, if there is one, succeeds before the recolouring and
after it. -/
def ImagePipeline.ResizesEitherWay (p : ImagePipeline) (i : Image) : Prop :=
  ∀ width height, p.resize = some (width, height) → (∃ j, i.resize width height = .ok j) ∧
    ∀ mode, p.recolor = some mode →
      ∃ k l, i.recolor mode = .ok k ∧ k.resize width height = .ok l

/-- The steps of a pipeline may be done in any order. -/
theorem ImagePipeline.applyAll_of_perm {p : ImagePipeline} {i : Image} (hi : i.WellFormed)
    (hp : p.ResizesEitherWay i) {steps : List ImageStep} (h : steps.Perm p.steps) :
    ImageStep.applyAll i steps = ImageStep.applyAll i p.steps := by
  obtain ⟨resize, recolor⟩ := p
  cases resize with
  | none =>
    cases recolor with
    | none => rw [List.Perm.eq_nil h]; rfl
    | some mode => rw [List.perm_singleton.1 h]; rfl
  | some size =>
    obtain ⟨width, height⟩ := size
    cases recolor with
    | none => rw [List.perm_singleton.1 h]; rfl
    | some mode =>
      obtain ⟨hj, hl⟩ := hp width height rfl
      have hmem : steps ∈ [[.resize width height, .recolor mode],
          [.recolor mode, .resize width height]] := List.mem_permutations'.2 h
      rcases List.mem_pair.1 hmem with rfl | rfl
      · rfl
      · exact Image.applyAll_swap hi hj (hl mode rfl)

/-! ### The algebra -/

/-- What holds of resizing and recolouring an image. -/
structure Image.Algebra (i : Image) : Prop where
  /-- To resize and then recolour is to recolour and then resize. -/
  commute : ∀ width height mode j k, i.resize width height = .ok j →
    (i.convert mode).resize width height = .ok k → j.convert mode = k
  /-- So the steps of a pipeline may be done in any order. -/
  order : ∀ p : ImagePipeline, p.ResizesEitherWay i → ∀ steps : List ImageStep,
    steps.Perm p.steps → ImageStep.applyAll i steps = ImageStep.applyAll i p.steps
  ownSize : i.resize i.width i.height = .ok i
  colourAndBack : i.mode = .gray → (i.convert .rgb).convert .gray = i ∧
    ∀ j, i.recolor .rgb = .ok j → j.recolor .gray = .ok i
  twice : ∀ mode, (i.convert mode).convert mode = i.convert mode ∧
    ∀ j, i.recolor mode = .ok j → j.recolor mode = .ok j

/-- The laws hold of every image in memory whose pixels fill its size. -/
theorem Image.algebra {i : Image} (hi : i.WellFormed) (hmemory : i.pixels.length < 2 ^ 63) :
    i.Algebra where
  commute width height mode j k hj hk := by
    rw [(eq_scaled_of_resize hi hj).2, (eq_scaled_of_resize (wellFormed_convert hi mode) hk).2,
      scaled_convert hi]
  order p hp steps h := p.applyAll_of_perm hi hp h
  ownSize := by
    have hlength : bufferLength i.width i.height i.mode < 2 ^ 63 := hi ▸ hmemory
    rw [resize_eq_scaled hi hlength, scaled_self hi]
  colourAndBack hmode := by
    refine ⟨convert_rgb_gray hmode, fun j hj => ?_⟩
    rw [eq_convert_of_recolor hj, recolor_eq_convert (wellFormed_convert hi .rgb),
      convert_rgb_gray hmode]
    right
    rw [convert_width, convert_height, ← hmode, ← hi]
    exact hmemory
  twice mode := by
    refine ⟨convert_convert i mode, fun j hj => ?_⟩
    rw [eq_convert_of_recolor hj, recolor_eq_convert (wellFormed_convert hi mode),
      convert_convert]
    exact .inl (convert_mode mode).symm

/-- A grey image of two columns. -/
def Sample.ramp : Image := ⟨2, 1, .gray, [7, 200]⟩

/-- The image in three columns of colour, in both orders, and at its own size. -/
theorem Sample.algebra_ramp :
    Sample.ramp.WellFormed ∧ Sample.ramp.pixels.length < 2 ^ 63 ∧
      Sample.ramp.resize 3 1 = .ok ⟨3, 1, .gray, [7, 7, 200]⟩ ∧
      (Sample.ramp.convert .rgb).resize 3 1 =
        .ok ⟨3, 1, .rgb, [7, 7, 7, 7, 7, 7, 200, 200, 200]⟩ ∧
      (Image.mk 3 1 .gray [7, 7, 200]).convert .rgb =
        ⟨3, 1, .rgb, [7, 7, 7, 7, 7, 7, 200, 200, 200]⟩ ∧
      Sample.ramp.resize 2 1 = .ok Sample.ramp := by
  have hi : Sample.ramp.WellFormed := by decide +kernel
  have hmemory : Sample.ramp.pixels.length < 2 ^ 63 := by decide +kernel
  have halgebra := Image.algebra hi hmemory
  exact ⟨hi, hmemory, rfl, rfl, halgebra.commute 3 1 .rgb _ _ rfl rfl, halgebra.ownSize⟩

end Cadastre
