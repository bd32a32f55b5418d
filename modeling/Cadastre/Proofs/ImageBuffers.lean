/-
# Image buffers stay consistent

To resize is to fill a buffer of zeros by two loops, over the rows and over the columns
of the new size. All numbers on the way are machine words: a step that computes the
position of a pixel may overflow, a division may meet a zero, and a slice that is copied
may end past its buffer. `Image.filledBuffer?` is the loops with all of these in view, so
that it has no result if any of them happens. For an image whose pixels fill its size
none does, at any target size that has a buffer (`Image.filledBuffer?_eq`). The invariant
is on the buffer: the places up to the one that comes next hold their nearest pixels, the
others are black still (`Image.partialBuffer`).

A target without a buffer is refused only if the length of the buffer passes a 64-bit
word. A shorter length is let pass, and breaks the process off from half of that on
(`Image.consistentBuffers`, `Sample.breakdown_of_expanse`).

Key definitions: `Image.filledBuffer?`, `Image.partialBuffer`, `Image.ScaledTo`,
`Image.Rescaled`.
Key theorems: `foldlM_range_eq`, `Image.copyPixel?_eq`, `Image.copyRow?_eq`,
`Image.filledBuffer?_eq`, `Image.consistentBuffers`.
-/
import Cadastre.Proofs.TypedConversions
import Mathlib.Data.List.Basic

namespace Cadastre

/-- A loop whose step leads from each state to the next leads to the last one. -/
theorem foldlM_range_eq {β : Type} {f : β → Nat → Option β} (state : Nat → β) {n : Nat}
    (h : ∀ k < n, f (state k) k = some (state (k + 1))) :
    (List.range n).foldlM f (state 0) = some (state n) := by
  induction n with
  | zero => rfl
  | succ n ih =>
    rw [List.range_succ, List.foldlM_append, ih fun k hk => h k (Nat.lt_succ_of_lt hk)]
    show (List.foldlM f (state n) [n]) = _
    rw [List.foldlM_cons, h n (Nat.lt_succ_self n)]
    rfl

/-- A number that fits a 64-bit word. -/
def word? (n : Nat) : Option Nat := if n < 2 ^ 64 then some n else none

theorem word?_eq {n : Nat} (h : n < 2 ^ 64) : word? n = some n := if_pos h

namespace Image

variable {i : Image} {width height x y : Nat}

/-! ### The loops -/

/-- The nearest source position, in words. -/
def nearestWord? (size target k : Nat) : Option Nat := do
  let product ← word? (k * size)
  if target = 0 then none else some (product / target)

/-- The position of the first byte of a pixel, in words. -/
def offset? (width channels x y : Nat) : Option Nat := do
  let row ← word? (y * width)
  let place ← word? (row + x)
  word? (place * channels)

/-- Copies the `n` bytes at `src` over those at `dst`; none if they end past a buffer. -/
def copySlice? (source : List UInt8) (src : Nat) (buffer : List UInt8) (dst n : Nat) :
    Option (List UInt8) := do
  let srcEnd ← word? (src + n)
  let dstEnd ← word? (dst + n)
  if srcEnd ≤ source.length ∧ dstEnd ≤ buffer.length then
    some (buffer.take dst ++ (source.drop src).take n ++ buffer.drop dstEnd)
  else none

/-- Copies the nearest pixel in the row `sy` to column `x` of row `y`. -/
def copyPixel? (i : Image) (width y sy : Nat) (buffer : List UInt8) (x : Nat) :
    Option (List UInt8) := do
  let sx ← nearestWord? i.width.toNat width x
  let src ← offset? i.width.toNat i.mode.channels sx sy
  let dst ← offset? width i.mode.channels x y
  copySlice? i.pixels src buffer dst i.mode.channels

/-- Fills row `y`. -/
def copyRow? (i : Image) (width height : Nat) (buffer : List UInt8) (y : Nat) :
    Option (List UInt8) := do
  let sy ← nearestWord? i.height.toNat height y
  (List.range width).foldlM (i.copyPixel? width y sy) buffer

/-- Fills a buffer for the new size, row after row. -/
def filledBuffer? (i : Image) (width height : Nat) : Option (List UInt8) :=
  let black := List.replicate (width * height * i.mode.channels) 0
  if i.IsEmpty then some black else (List.range height).foldlM (i.copyRow? width height) black

/-! ### A step of the loops -/

/-- Sides of less than 32 bits have products of less than 64. -/
theorem nearestWord?_eq {size target k : Nat} (hk : k < 2 ^ 32) (hsize : size < 2 ^ 32)
    (htarget : 0 < target) : nearestWord? size target k = some (nearest size target k) := by
  have hproduct : k * size < 2 ^ 64 := Nat.lt_of_lt_of_le (Nat.mul_lt_mul'' hk hsize) (by decide)
  rw [nearestWord?, word?_eq hproduct]
  exact if_neg (Nat.ne_of_gt htarget)

theorem channels_pos (mode : ImageMode) : 0 < mode.channels := by
  cases mode <;> decide

/-- The position of a pixel is in its buffer, and the numbers before it are smaller. -/
theorem offset?_eq {mode : ImageMode} (hx : x < width) (hy : y < height)
    (hlength : width * height * mode.channels < 2 ^ 64) :
    offset? width mode.channels x y = some ((y * width + x) * mode.channels) := by
  have hposition : (y * width + x) * mode.channels < 2 ^ 64 :=
    Nat.lt_of_le_of_lt (Nat.le_of_add_right_le (pixel_end_le hx hy)) hlength
  have hplace : y * width + x < 2 ^ 64 :=
    Nat.lt_of_le_of_lt (Nat.le_mul_of_pos_right _ (channels_pos mode)) hposition
  have hrow : y * width < 2 ^ 64 := Nat.lt_of_le_of_lt (Nat.le_add_right _ x) hplace
  rw [offset?, word?_eq hrow]
  show (word? (y * width + x)).bind (fun place => word? (place * mode.channels)) = _
  rw [word?_eq hplace]
  exact word?_eq hposition

/-- A slice replaces the bytes behind those that are done. -/
theorem copySlice?_eq {source done rest : List UInt8} {src dst n : Nat}
    (hsrc : src + n ≤ source.length) (hsource : source.length < 2 ^ 64)
    (hdst : done.length = dst) (hrest : n ≤ rest.length)
    (hbuffer : (done ++ rest).length < 2 ^ 64) :
    copySlice? source src (done ++ rest) dst n =
      some (done ++ (source.drop src).take n ++ rest.drop n) := by
  subst hdst
  have hend : done.length + n ≤ (done ++ rest).length := by
    rw [List.length_append]
    exact Nat.add_le_add_left hrest _
  rw [copySlice?, word?_eq (Nat.lt_of_le_of_lt hsrc hsource)]
  show (word? (done.length + n)).bind _ = _
  rw [word?_eq (Nat.lt_of_le_of_lt hend hbuffer)]
  show (if src + n ≤ source.length ∧ done.length + n ≤ (done ++ rest).length then _ else _) = _
  rw [if_pos ⟨hsrc, hend⟩, List.take_left', List.drop_append]
  · simp
  · rfl

/-! ### The invariant -/

/-- The buffer when the first `n` places are filled. -/
def partialBuffer (i : Image) (width height n : Nat) : List UInt8 :=
  (i.nearestPixels width height n).flatten ++
    List.replicate ((width * height - n) * i.mode.channels) 0

theorem length_partialBuffer (hi : i.WellFormed) {n : Nat} (hn : n ≤ width * height) :
    (i.partialBuffer width height n).length = width * height * i.mode.channels := by
  rw [partialBuffer, List.length_append, length_flatten_nearestPixels hi hn, List.length_replicate,
    ← Nat.add_mul, Nat.add_sub_cancel' hn]

/-- Numbers with which a loop over an image with pixels stays in range. -/
structure InRange (i : Image) (width height : Nat) : Prop where
  wellFormed : i.WellFormed
  nonempty : ¬ i.IsEmpty
  source : i.pixels.length < 2 ^ 64
  columns : width < 2 ^ 32
  rows : height < 2 ^ 32
  length : width * height * i.mode.channels < 2 ^ 64

/-- A pixel is copied to the place that comes next. -/
theorem copyPixel?_eq (h : i.InRange width height) (hx : x < width) (hy : y < height) :
    i.copyPixel? width y (nearest i.height.toNat height y)
        (i.partialBuffer width height (y * width + x)) x =
      some (i.partialBuffer width height (y * width + x + 1)) := by
  obtain ⟨hw, hh⟩ := not_or.1 h.nonempty
  have hsx := nearest_lt hx (Nat.pos_of_ne_zero hw)
  have hsy := nearest_lt hy (Nat.pos_of_ne_zero hh)
  have hplace : y * width + x < width * height := pixel_lt hx hy
  have hsource : i.width.toNat * i.height.toNat * i.mode.channels < 2 ^ 64 := by
    have hlength := h.source
    rwa [h.wellFormed] at hlength
  have hnearest : nearestWord? i.width.toNat width x = some (nearest i.width.toNat width x) :=
    nearestWord?_eq (Nat.lt_trans hx h.columns) i.width.toNat_lt (Nat.zero_lt_of_lt hx)
  have hrest : i.mode.channels ≤
      (List.replicate ((width * height - (y * width + x)) * i.mode.channels) (0 : UInt8)).length := by
    rw [List.length_replicate]
    exact Nat.le_mul_of_pos_left _ (Nat.sub_pos_of_lt hplace)
  have hbuffer : (i.partialBuffer width height (y * width + x)).length < 2 ^ 64 := by
    rw [length_partialBuffer h.wellFormed (Nat.le_of_lt hplace)]
    exact h.length
  rw [copyPixel?, hnearest]
  show (offset? i.width.toNat i.mode.channels _ _).bind _ = _
  rw [offset?_eq hsx hsy hsource]
  show (offset? width i.mode.channels x y).bind _ = _
  rw [offset?_eq hx hy h.length]
  show copySlice? _ _ (i.partialBuffer width height (y * width + x)) _ _ = _
  rw [partialBuffer, copySlice?_eq (h.wellFormed ▸ pixel_end_le hsx hsy) h.source
    (length_flatten_nearestPixels h.wellFormed (Nat.le_of_lt hplace)) hrest hbuffer,
    partialBuffer, nearestPixels_succ hx, List.flatten_append, nearestPixel, if_neg h.nonempty,
    List.drop_replicate, ← Nat.sub_one_mul, Nat.sub_sub, List.flatten_singleton]
  rfl

/-- A row is filled, pixel by pixel. -/
theorem copyRow?_eq (h : i.InRange width height) (hy : y < height) :
    i.copyRow? width height (i.partialBuffer width height (y * width)) y =
      some (i.partialBuffer width height ((y + 1) * width)) := by
  have hnearest : nearestWord? i.height.toNat height y = some (nearest i.height.toNat height y) :=
    nearestWord?_eq (Nat.lt_trans hy h.rows) i.height.toNat_lt (Nat.zero_lt_of_lt hy)
  rw [copyRow?, hnearest, Nat.succ_mul]
  exact foldlM_range_eq (fun x => i.partialBuffer width height (y * width + x))
    fun x hx => copyPixel?_eq h hx hy

/-- The loops fill the buffer with the nearest pixels: no product overflows, no divisor
is zero and no slice ends past its buffer. -/
theorem filledBuffer?_eq (hi : i.WellFormed) (hmemory : i.pixels.length < 2 ^ 63)
    {width height : UInt32} (hlength : bufferLength width height i.mode < 2 ^ 63) :
    i.filledBuffer? width.toNat height.toNat = some (i.scaled width height).pixels := by
  have hblack : i.partialBuffer width.toNat height.toNat 0 =
      List.replicate (width.toNat * height.toNat * i.mode.channels) 0 := rfl
  have hfull : i.partialBuffer width.toNat height.toNat (width.toNat * height.toNat) =
      (i.scaled width height).pixels := by
    rw [partialBuffer, Nat.sub_self, Nat.zero_mul, List.replicate_zero, List.append_nil]
    rfl
  unfold filledBuffer?
  by_cases hempty : i.IsEmpty
  · have hpixels := resizedPixels_eq hi width.toNat height.toNat
    unfold resizedPixels at hpixels
    have hnone : i.width.toNat = 0 ∨ i.height.toNat = 0 := hempty
    rw [if_pos hnone] at hpixels
    exact (if_pos hempty).trans (congrArg some (Except.ok.inj hpixels))
  · have hrange : i.InRange width.toNat height.toNat :=
      ⟨hi, hempty, Nat.lt_trans hmemory (by decide), width.toNat_lt, height.toNat_lt,
        Nat.lt_trans hlength (by decide)⟩
    rw [if_neg hempty, ← hblack, ← hfull, Nat.mul_comm width.toNat height.toNat]
    have hrows := foldlM_range_eq (n := height.toNat)
      (fun y => i.partialBuffer width.toNat height.toNat (y * width.toNat))
      fun y hy => copyRow?_eq hrange hy
    rwa [Nat.zero_mul] at hrows

/-! ### What becomes of an image -/

/-- `i.ScaledTo width height j`: the image `j` is `i` at another size. -/
structure ScaledTo (i : Image) (width height : UInt32) (j : Image) : Prop where
  width_eq : j.width = width
  height_eq : j.height = height
  mode_eq : j.mode = i.mode
  /-- It has exactly the bytes that its size asks for. -/
  length : j.pixels.length = width.toNat * height.toNat * i.mode.channels
  /-- Each pixel is the nearest one of the source. -/
  nearest : ¬ i.IsEmpty → ∀ x y, x < width.toNat → y < height.toNat →
    j.pixel x y = i.pixel (x * i.width.toNat / width.toNat) (y * i.height.toNat / height.toNat)
  /-- All bytes are zero if the source has no pixel. -/
  black : i.IsEmpty → ∀ byte ∈ j.pixels, byte = 0
  /-- The loops fill its buffer, with every number and every slice in range. -/
  filled : i.filledBuffer? width.toNat height.toNat = some j.pixels

theorem scaledTo_scaled (hi : i.WellFormed) (hmemory : i.pixels.length < 2 ^ 63)
    {width height : UInt32} (hlength : bufferLength width height i.mode < 2 ^ 63) :
    i.ScaledTo width height (i.scaled width height) where
  width_eq := rfl
  height_eq := rfl
  mode_eq := rfl
  length := wellFormed_scaled hi width height
  nearest hsome x y hx hy := by
    rw [pixel_scaled hi hx hy, nearestPixel, if_neg hsome]
    rfl
  black hempty byte hbyte := by
    obtain ⟨pixel, hpixel, hbyte⟩ := List.mem_flatten.1 hbyte
    obtain ⟨p, _, rfl⟩ := List.mem_map.1 hpixel
    rw [nearestPixel, if_pos hempty] at hbyte
    exact List.eq_of_mem_replicate hbyte
  filled := filledBuffer?_eq hi hmemory hlength

/-- How a resize ends, by the length of the buffer it asks for. -/
inductive Rescaled (i : Image) (width height : UInt32) : Except Error Image → Prop
  | done {j : Image} (hlength : bufferLength width height i.mode < 2 ^ 63)
      (hj : i.ScaledTo width height j) : Rescaled i width height (.ok j)
  | tooLarge (hlength : 2 ^ 64 ≤ bufferLength width height i.mode) :
      Rescaled i width height (.error (.type (.imageTooLarge width height i.mode)))
  /-- The length passes the check, but no such buffer can be. -/
  | breakdown (hlength : 2 ^ 63 ≤ bufferLength width height i.mode)
      (hword : bufferLength width height i.mode < 2 ^ 64) :
      Rescaled i width height (.error .capacityOverflow)

theorem rescaled (hi : i.WellFormed) (hmemory : i.pixels.length < 2 ^ 63)
    (width height : UInt32) : i.Rescaled width height (i.resize width height) := by
  have hspec := resize_spec hi width height
  cases hresize : i.resize width height with
  | ok j =>
    obtain ⟨hlength, rfl⟩ := eq_scaled_of_resize hi hresize
    exact .done hlength (scaledTo_scaled hi hmemory hlength)
  | error e =>
    rw [hresize] at hspec
    cases hspec with
    | tooLarge hlength => exact .tooLarge hlength
    | breakdown hlength hword => exact .breakdown hlength hword

/-- It is refused only if the length passes a 64-bit word. -/
theorem Rescaled.refused_iff {width height : UInt32} {r : Except Error Image}
    (h : i.Rescaled width height r) :
    (∃ e, r = .error e ∧ e.code = "TYPE_008") ↔ 2 ^ 64 ≤ bufferLength width height i.mode := by
  cases h with
  | done hlength =>
    refine ⟨fun ⟨_, he, _⟩ => (nomatch he), fun hword => ?_⟩
    exact absurd (Nat.lt_trans hlength (by decide)) (Nat.not_lt.2 hword)
  | tooLarge hlength => exact ⟨fun _ => hlength, fun _ => ⟨_, rfl, rfl⟩⟩
  | breakdown _ hword =>
    refine ⟨?_, fun hlength => absurd hword (Nat.not_lt.2 hlength)⟩
    rintro ⟨e, he, hcode⟩
    cases he
    exact absurd hcode (by decide)

/-- A grey pixel is one byte, and its value is the weighed mean in full. -/
theorem exists_pixel_gray (hi : i.WellFormed) (hmode : i.mode = .rgb)
    (hx : x < i.width.toNat) (hy : y < i.height.toNat) :
    ∃ r g b v, i.pixel x y = [r, g, b] ∧ (i.convert .gray).pixel x y = [v] ∧
      v.toNat = (299 * r.toNat + 587 * g.toNat + 114 * b.toNat) / 1000 := by
  have hlength : (i.pixel x y).length = i.mode.channels := length_slice hi (pixel_lt hx hy)
  rw [hmode, ImageMode.channels] at hlength
  obtain ⟨r, g, b, hpixel⟩ := List.length_eq_three.1 hlength
  refine ⟨r, g, b, UInt8.ofNat (luma r g b), hpixel, ?_, ?_⟩
  · rw [pixel_convert, hmode, hpixel]
    rfl
  · rw [UInt8.toNat_ofNat', Nat.mod_eq_of_lt (luma_lt r g b), luma]
    omega

/-- A resize makes the image at the other size, with all numbers and slices in range, if
it has a buffer. It is refused if the length of the buffer passes a 64-bit word, and
breaks off in between. A recolouring keeps the size and fills it in the other mode,
unless there is no such buffer, and no grey value is cut off. The image itself is in
memory, where no buffer has `2 ^ 63` bytes. -/
theorem consistentBuffers {i : Image} (hi : i.WellFormed) (hmemory : i.pixels.length < 2 ^ 63)
    (width height : UInt32) (mode : ImageMode) :
    i.Rescaled width height (i.resize width height) ∧
      ((∃ e, i.resize width height = .error e ∧ e.code = "TYPE_008") ↔
        2 ^ 64 ≤ bufferLength width height i.mode) ∧
      i.Recolored mode (i.recolor mode) ∧
      (∀ j, i.recolor mode = .ok j →
        j.pixels.length = i.width.toNat * i.height.toNat * mode.channels) ∧
      ∀ j, i.mode = .rgb → i.recolor .gray = .ok j →
        ∀ x y, x < i.width.toNat → y < i.height.toNat →
          ∃ r g b v, i.pixel x y = [r, g, b] ∧ j.pixel x y = [v] ∧
            v.toNat = (299 * r.toNat + 587 * g.toNat + 114 * b.toNat) / 1000 := by
  have hresize := rescaled hi hmemory width height
  refine ⟨hresize, hresize.refused_iff, recolor_spec hi mode, fun j hj => ?_,
    fun j hmode hj x y hx hy => ?_⟩
  · rw [eq_convert_of_recolor hj]
    exact length_convert hi mode
  · rw [eq_convert_of_recolor hj]
    exact exists_pixel_gray hi hmode hx hy

end Image

namespace Sample

/-- A colour image of two rows of three pixels. -/
def flag : Image :=
  ⟨3, 2, .rgb, [255, 0, 0, 0, 255, 0, 0, 0, 255, 9, 8, 7, 6, 5, 4, 3, 2, 1]⟩

end Sample

/-- The image of two rows of three pixels, for a size of one row of four, and in grey. -/
theorem Sample.consistentBuffers_flag :
    Sample.flag.WellFormed ∧ Sample.flag.pixels.length < 2 ^ 63 ∧
      Sample.flag.Rescaled 4 1 (Sample.flag.resize 4 1) ∧
      ((∃ e, Sample.flag.resize 4 1 = .error e ∧ e.code = "TYPE_008") ↔
        2 ^ 64 ≤ Image.bufferLength 4 1 .rgb) ∧
      Sample.flag.Recolored .gray (Sample.flag.recolor .gray) ∧
      Sample.flag.resize 4 1 = .ok ⟨4, 1, .rgb, [255, 0, 0, 255, 0, 0, 0, 255, 0, 0, 0, 255]⟩ ∧
      Sample.flag.recolor .gray = .ok ⟨3, 2, .gray, [76, 149, 29, 8, 5, 2]⟩ := by
  have hi : Sample.flag.WellFormed := by decide +kernel
  have hmemory : Sample.flag.pixels.length < 2 ^ 63 := by decide +kernel
  obtain ⟨hresize, hrefused, hrecolor, _⟩ := Image.consistentBuffers hi hmemory 4 1 .gray
  exact ⟨hi, hmemory, hresize, hrefused, hrecolor, rfl, rfl⟩

/-- A size whose buffer length passes the check of 64 bits, and that breaks the process off. -/
theorem Sample.breakdown_of_expanse :
    Sample.dot.WellFormed ∧ Image.bufferLength 4294967295 4294967295 Sample.dot.mode < 2 ^ 64 ∧
      Sample.dot.resize 4294967295 4294967295 = .error .capacityOverflow ∧
      ¬ ∃ j, Sample.dot.resize 4294967295 4294967295 = .ok j := by
  have hbreak : Sample.dot.resize 4294967295 4294967295 = .error .capacityOverflow :=
    Image.resize_eq_breakdown (by decide +kernel) (by decide +kernel)
  refine ⟨by decide +kernel, by decide +kernel, hbreak, ?_⟩
  rintro ⟨j, hj⟩
  rw [hbreak] at hj
  cases hj

end Cadastre
