/-
# Images pixel by pixel

A buffer is a row of slices, one for each pixel, and is told apart by them
(`Image.eq_of_slices`). Both operations on images are described by what they make of
one pixel. Recolouring changes each by itself (`Image.pixel_convert`), and resizing
takes for each place the nearest pixel of the source, or black if the source has none
(`Image.pixel_scaled`). The pixels that resizing asks for are there, whatever the two
sizes, empty ones included (`Image.resizedPixels_eq`).

Key definitions: `Image.slice`, `Image.pixel`, `Image.recolorBytes`,
`Image.nearestPixel`, `Image.scaled`.
Key theorems: `Image.eq_of_pixels`, `Image.pixel_convert`, `Image.wellFormed_convert`,
`Image.resizedPixels_eq`, `Image.pixel_scaled`, `Image.wellFormed_scaled`.
-/
import Cadastre.Image

namespace Cadastre
namespace Image

variable {i j : Image} {c n : Nat}

/-! ### Pixels of a buffer -/

/-- The bytes of pixel `p` in a buffer of `c` bytes per pixel. -/
def slice (c p : Nat) (bytes : List UInt8) : List UInt8 := (bytes.drop (p * c)).take c

/-- The bytes of the pixel in column `x` and row `y`. -/
def pixel (i : Image) (x y : Nat) : List UInt8 :=
  slice i.mode.channels (y * i.width.toNat + x) i.pixels

theorem slice_zero (bytes : List UInt8) : slice c 0 bytes = bytes.take c := by
  rw [slice, Nat.zero_mul, List.drop_zero]

/-- The pixels after the first one. -/
theorem slice_succ (p : Nat) (bytes : List UInt8) :
    slice c (p + 1) bytes = slice c p (bytes.drop c) := by
  rw [slice, slice, List.drop_drop, Nat.succ_mul, Nat.add_comm]

/-- A buffer is its pixels. -/
theorem eq_of_slices {as bs : List UInt8} (ha : as.length = n * c) (hb : bs.length = n * c)
    (h : ∀ p < n, slice c p as = slice c p bs) : as = bs := by
  induction n generalizing as bs with
  | zero =>
    rw [Nat.zero_mul, List.length_eq_zero_iff] at ha hb
    rw [ha, hb]
  | succ n ih =>
    have hfirst := h 0 (Nat.succ_pos n)
    rw [slice_zero, slice_zero] at hfirst
    have hrest : as.drop c = bs.drop c := by
      refine ih ?_ ?_ fun p hp => ?_
      · rw [List.length_drop, ha, Nat.succ_mul, Nat.add_sub_cancel]
      · rw [List.length_drop, hb, Nat.succ_mul, Nat.add_sub_cancel]
      · rw [← slice_succ, ← slice_succ]
        exact h (p + 1) (Nat.succ_lt_succ hp)
    rw [← List.take_append_drop c as, ← List.take_append_drop c bs, hfirst, hrest]

/-- The pixels of joined pixels are these. -/
theorem slice_flatten {pixels : List (List UInt8)} (h : ∀ bytes ∈ pixels, bytes.length = c)
    {p : Nat} {bytes : List UInt8} (hp : pixels[p]? = some bytes) :
    slice c p pixels.flatten = bytes := by
  induction pixels generalizing p with
  | nil => cases hp
  | cons first rest ih =>
    obtain ⟨hfirst, hrest⟩ := List.forall_mem_cons.1 h
    cases p with
    | zero =>
      cases hp
      rw [slice_zero, List.flatten_cons, List.take_left' hfirst]
    | succ p =>
      rw [slice_succ, List.flatten_cons, List.drop_left' hfirst]
      exact ih hrest hp

theorem length_slice {bytes : List UInt8} (h : bytes.length = n * c) {p : Nat} (hp : p < n) :
    (slice c p bytes).length = c := by
  rw [slice, List.length_take, List.length_drop, h, ← Nat.sub_mul]
  exact Nat.min_eq_left (Nat.le_mul_of_pos_left c (Nat.sub_pos_of_lt hp))

/-! ### Recolouring pixel by pixel -/

theorem length_rgbPixels (pixels : List UInt8) : (rgbPixels pixels).length = pixels.length * 3 := by
  induction pixels with
  | nil => rfl
  | cons l rest ih =>
    simp only [rgbPixels, List.length_cons, ih]
    omega

theorem length_grayPixels {n : Nat} {pixels : List UInt8} (h : pixels.length = n * 3) :
    (grayPixels pixels).length = n := by
  induction n generalizing pixels with
  | zero =>
    rw [Nat.zero_mul, List.length_eq_zero_iff] at h
    rw [h]
    rfl
  | succ n ih =>
    -- a pixel is three bytes
    rcases pixels with _ | ⟨r, _ | ⟨g, _ | ⟨b, rest⟩⟩⟩
    · simp at h
    · simp at h; omega
    · simp at h; omega
    · have hrest : rest.length = n * 3 := by
        simp only [List.length_cons] at h
        omega
      rw [grayPixels, List.length_cons, ih hrest]

/-- Bytes of one mode as bytes of the other. -/
def recolorBytes : ImageMode → ImageMode → List UInt8 → List UInt8
  | .gray, .rgb => rgbPixels
  | .rgb, .gray => grayPixels
  | .gray, .gray | .rgb, .rgb => id

theorem length_recolorBytes {source : ImageMode} {bytes : List UInt8}
    (h : bytes.length = n * source.channels) (target : ImageMode) :
    (recolorBytes source target bytes).length = n * target.channels := by
  cases source <;> cases target
  · exact h
  · show (rgbPixels bytes).length = n * 3
    rw [length_rgbPixels, h, ImageMode.channels, Nat.mul_one]
  · show (grayPixels bytes).length = n * 1
    rw [length_grayPixels h, Nat.mul_one]
  · exact h

theorem convert_eq (i : Image) (mode : ImageMode) :
    i.convert mode = ⟨i.width, i.height, mode, recolorBytes i.mode mode i.pixels⟩ := by
  obtain ⟨width, height, mode', pixels⟩ := i
  cases mode' <;> cases mode <;> rfl

@[simp] theorem convert_width (mode : ImageMode) : (i.convert mode).width = i.width := by
  rw [convert_eq]

@[simp] theorem convert_height (mode : ImageMode) : (i.convert mode).height = i.height := by
  rw [convert_eq]

@[simp] theorem convert_mode (mode : ImageMode) : (i.convert mode).mode = mode := by
  rw [convert_eq]

/-- The pixels in the other mode fill the size. -/
theorem wellFormed_convert (hi : i.WellFormed) (mode : ImageMode) :
    (i.convert mode).WellFormed := by
  rw [convert_eq]
  exact length_recolorBytes hi mode

theorem length_convert (hi : i.WellFormed) (mode : ImageMode) :
    (i.convert mode).pixels.length = bufferLength i.width i.height mode := by
  rw [wellFormed_convert hi mode, convert_width, convert_height, convert_mode]

/-- An image in its own mode is the image. -/
theorem convert_self (i : Image) : i.convert i.mode = i := by
  obtain ⟨width, height, mode, pixels⟩ := i
  cases mode <;> rfl

theorem rgbPixels_drop (n : Nat) (bytes : List UInt8) :
    (rgbPixels bytes).drop (n * 3) = rgbPixels (bytes.drop n) := by
  induction n generalizing bytes with
  | zero => rw [Nat.zero_mul, List.drop_zero, List.drop_zero]
  | succ n ih =>
    cases bytes with
    | nil => rfl
    | cons l rest => rw [Nat.succ_mul]; exact ih rest

theorem rgbPixels_take (n : Nat) (bytes : List UInt8) :
    (rgbPixels bytes).take (n * 3) = rgbPixels (bytes.take n) := by
  induction n generalizing bytes with
  | zero => rw [Nat.zero_mul, List.take_zero, List.take_zero]; rfl
  | succ n ih =>
    cases bytes with
    | nil => rfl
    | cons l rest =>
      rw [Nat.succ_mul, List.take_succ_cons, rgbPixels, rgbPixels, ← ih rest]
      rfl

theorem grayPixels_drop (n : Nat) (bytes : List UInt8) :
    (grayPixels bytes).drop n = grayPixels (bytes.drop (n * 3)) := by
  induction n generalizing bytes with
  | zero => rw [Nat.zero_mul, List.drop_zero, List.drop_zero]
  | succ n ih =>
    rcases bytes with _ | ⟨r, _ | ⟨g, _ | ⟨b, rest⟩⟩⟩
    · rfl
    · rw [Nat.succ_mul]; rfl
    · rw [Nat.succ_mul]; rfl
    · rw [Nat.succ_mul]; exact ih rest

theorem grayPixels_take (n : Nat) (bytes : List UInt8) :
    (grayPixels bytes).take n = grayPixels (bytes.take (n * 3)) := by
  induction n generalizing bytes with
  | zero => rw [Nat.zero_mul, List.take_zero, List.take_zero]; rfl
  | succ n ih =>
    rcases bytes with _ | ⟨r, _ | ⟨g, _ | ⟨b, rest⟩⟩⟩
    · rfl
    · rw [Nat.succ_mul]; rfl
    · rw [Nat.succ_mul]; rfl
    · rw [Nat.succ_mul, grayPixels, List.take_succ_cons, ih rest]; rfl

/-- Each pixel is recoloured by itself. -/
theorem slice_recolorBytes (source target : ImageMode) (p : Nat) (bytes : List UInt8) :
    slice target.channels p (recolorBytes source target bytes) =
      recolorBytes source target (slice source.channels p bytes) := by
  cases source <;> cases target
  · rfl
  · show ((rgbPixels bytes).drop (p * 3)).take (1 * 3) = rgbPixels ((bytes.drop (p * 1)).take 1)
    rw [rgbPixels_drop, rgbPixels_take, Nat.mul_one]
  · show ((grayPixels bytes).drop (p * 1)).take 1 = grayPixels ((bytes.drop (p * 3)).take (1 * 3))
    rw [Nat.mul_one, grayPixels_drop, grayPixels_take]
  · rfl

/-- Black stays black. -/
theorem recolorBytes_black (source target : ImageMode) :
    recolorBytes source target (List.replicate source.channels 0) =
      List.replicate target.channels 0 := by
  cases source <;> cases target <;> rfl

theorem pixel_convert (i : Image) (mode : ImageMode) (x y : Nat) :
    (i.convert mode).pixel x y = recolorBytes i.mode mode (i.pixel x y) := by
  rw [pixel, convert_eq]
  exact slice_recolorBytes i.mode mode _ i.pixels

/-! ### Resizing pixel by pixel -/

/-- An image without pixels. -/
def IsEmpty (i : Image) : Prop := i.width.toNat = 0 ∨ i.height.toNat = 0

instance (i : Image) : Decidable i.IsEmpty := inferInstanceAs (Decidable (_ ∨ _))

/-- The pixel that is nearest to column `x` and row `y` of the image at another size;
black, if there is none. -/
def nearestPixel (i : Image) (width height x y : Nat) : List UInt8 :=
  if i.IsEmpty then List.replicate i.mode.channels 0
  else i.pixel (nearest i.width.toNat width x) (nearest i.height.toNat height y)

/-- The nearest pixels of the first `n` places at another size, row after row. -/
def nearestPixels (i : Image) (width height n : Nat) : List (List UInt8) :=
  (List.range n).map fun p => i.nearestPixel width height (p % width) (p / width)

/-- The image at another size, whatever memory it takes. -/
def scaled (i : Image) (width height : UInt32) : Image :=
  ⟨width, height, i.mode,
    (i.nearestPixels width.toNat height.toNat (width.toNat * height.toNat)).flatten⟩

/-- The nearest source position is one of the source. -/
theorem nearest_lt {size target k : Nat} (hk : k < target) (hsize : 0 < size) :
    nearest size target k < size := by
  have htarget : 0 < target := Nat.zero_lt_of_lt hk
  rw [nearest, Nat.div_lt_iff_lt_mul htarget, Nat.mul_comm size target]
  exact Nat.mul_lt_mul_of_pos_right hk hsize

theorem mapM_eq_ok_map {α β ε : Type} {f : α → Except ε β} {g : α → β} {l : List α}
    (h : ∀ a ∈ l, f a = .ok (g a)) : l.mapM f = .ok (l.map g) := by
  induction l with
  | nil => rfl
  | cons a l ih =>
    obtain ⟨ha, hl⟩ := List.forall_mem_cons.1 h
    rw [List.mapM_cons, ha, ih hl]
    rfl

theorem exists_error_of_mapM {α β ε : Type} {f : α → Except ε β} {l : List α} {e : ε}
    (h : l.mapM f = .error e) : ∃ a ∈ l, f a = .error e := by
  induction l with
  | nil => cases h
  | cons a l ih =>
    rw [List.mapM_cons] at h
    cases ha : f a with
    | error e' =>
      rw [ha] at h
      cases h
      exact ⟨a, List.mem_cons_self, ha⟩
    | ok b =>
      rw [ha] at h
      cases hl : l.mapM f with
      | error e' =>
        rw [hl] at h
        cases h
        obtain ⟨a', ha', he⟩ := ih hl
        exact ⟨a', List.mem_cons_of_mem a ha', he⟩
      | ok bs =>
        rw [hl] at h
        cases h

/-- A place within the size is one of the places. -/
theorem pixel_lt {width height x y : Nat} (hx : x < width) (hy : y < height) :
    y * width + x < width * height := by
  calc y * width + x < y * width + width := Nat.add_lt_add_left hx _
    _ = (y + 1) * width := (Nat.succ_mul y width).symm
    _ ≤ height * width := Nat.mul_le_mul_right _ hy
    _ = width * height := Nat.mul_comm _ _

/-- A place is in a column and a row of the size. -/
theorem place_lt {width height p : Nat} (hp : p < width * height) :
    p % width < width ∧ p / width < height :=
  have hwidth : 0 < width := Nat.pos_of_mul_pos_right (Nat.zero_lt_of_lt hp)
  ⟨Nat.mod_lt p hwidth, Nat.div_lt_of_lt_mul hp⟩

/-- The column and the row of a place. -/
theorem column_and_row {width x : Nat} (hx : x < width) (y : Nat) :
    (y * width + x) % width = x ∧ (y * width + x) / width = y := by
  rw [Nat.mul_comm y, Nat.mul_add_mod, Nat.mod_eq_of_lt hx, Nat.mul_add_div (Nat.zero_lt_of_lt hx),
    Nat.div_eq_of_lt hx]
  exact ⟨rfl, rfl⟩

/-- A pixel within the size lies in the buffer. -/
theorem pixel_end_le {width height x y : Nat} (hx : x < width) (hy : y < height) :
    (y * width + x) * c + c ≤ width * height * c := by
  rw [← Nat.succ_mul]
  exact Nat.mul_le_mul_right c (pixel_lt hx hy)

/-- The slice of a pixel is in the buffer. -/
theorem readPixel_eq (hi : i.WellFormed) {x y : Nat} (hx : x < i.width.toNat)
    (hy : y < i.height.toNat) :
    readPixel i.pixels.toArray i.width.toNat i.mode.channels x y = .ok (i.pixel x y) := by
  have hend : (y * i.width.toNat + x) * i.mode.channels + i.mode.channels ≤ i.pixels.length :=
    hi ▸ pixel_end_le hx hy
  rw [readPixel, readSlice, List.size_toArray, if_pos hend, Array.toList_extract,
    List.extract_eq_take_drop, Nat.add_sub_cancel_left]
  rfl

theorem resizedPixels_eq (hi : i.WellFormed) (width height : Nat) :
    i.resizedPixels width height =
      .ok (i.nearestPixels width height (width * height)).flatten := by
  unfold resizedPixels nearestPixels
  by_cases hempty : i.IsEmpty
  · have hblack : ∀ p ∈ List.range (width * height),
        i.nearestPixel width height (p % width) (p / width) =
          List.replicate i.mode.channels 0 := fun p _ => if_pos hempty
    have hnone : i.width.toNat = 0 ∨ i.height.toNat = 0 := hempty
    rw [if_pos hnone, List.map_congr_left hblack, List.map_const',
      List.flatten_replicate_replicate, List.length_range]
  · have hsome : ¬ (i.width.toNat = 0 ∨ i.height.toNat = 0) := hempty
    obtain ⟨hw, hh⟩ := not_or.1 hsome
    rw [if_neg hsome]
    refine congrArg (Except.map List.flatten) (mapM_eq_ok_map fun p hp => ?_)
    obtain ⟨hx, hy⟩ := place_lt (List.mem_range.1 hp)
    rw [nearestPixel, if_neg hempty]
    exact readPixel_eq hi (nearest_lt hx (Nat.pos_of_ne_zero hw))
      (nearest_lt hy (Nat.pos_of_ne_zero hh))

theorem length_nearestPixel (hi : i.WellFormed) {width height x y : Nat} (hx : x < width)
    (hy : y < height) : (i.nearestPixel width height x y).length = i.mode.channels := by
  unfold nearestPixel
  by_cases hempty : i.IsEmpty
  · rw [if_pos hempty, List.length_replicate]
  · rw [if_neg hempty]
    obtain ⟨hw, hh⟩ := not_or.1 hempty
    exact length_slice hi (pixel_lt (nearest_lt hx (Nat.pos_of_ne_zero hw))
      (nearest_lt hy (Nat.pos_of_ne_zero hh)))

section NearestPixels

variable {width height : Nat}

theorem length_of_mem_nearestPixels (hi : i.WellFormed) (hn : n ≤ width * height) :
    ∀ bytes ∈ i.nearestPixels width height n, bytes.length = i.mode.channels := by
  refine List.forall_mem_map.2 fun p hp => ?_
  obtain ⟨hx, hy⟩ := place_lt (Nat.lt_of_lt_of_le (List.mem_range.1 hp) hn)
  exact length_nearestPixel hi hx hy

theorem length_flatten_nearestPixels (hi : i.WellFormed) (hn : n ≤ width * height) :
    (i.nearestPixels width height n).flatten.length = n * i.mode.channels := by
  have hlengths := List.eq_replicate_iff.2
    ⟨List.length_map _, List.forall_mem_map.2 (length_of_mem_nearestPixels hi hn)⟩
  rw [List.length_flatten, hlengths, List.sum_replicate_nat, nearestPixels, List.length_map,
    List.length_range]

/-- One place more, in column `x` of row `y`. -/
theorem nearestPixels_succ {x y : Nat} (hx : x < width) :
    i.nearestPixels width height (y * width + x + 1) =
      i.nearestPixels width height (y * width + x) ++ [i.nearestPixel width height x y] := by
  obtain ⟨hcolumn, hrow⟩ := column_and_row hx y
  rw [nearestPixels, List.range_succ, List.map_append, List.map_singleton, hcolumn, hrow]
  rfl

end NearestPixels

theorem wellFormed_scaled (hi : i.WellFormed) (width height : UInt32) :
    (i.scaled width height).WellFormed := length_flatten_nearestPixels hi (Nat.le_refl _)

theorem pixel_scaled (hi : i.WellFormed) {width height : UInt32} {x y : Nat}
    (hx : x < width.toNat) (hy : y < height.toNat) :
    (i.scaled width height).pixel x y = i.nearestPixel width.toNat height.toNat x y := by
  have hplace : (i.nearestPixels width.toNat height.toNat (width.toNat * height.toNat))[
      y * width.toNat + x]? = some (i.nearestPixel width.toNat height.toNat x y) := by
    obtain ⟨hcolumn, hrow⟩ := column_and_row hx y
    rw [nearestPixels, List.getElem?_map, List.getElem?_range (pixel_lt hx hy), Option.map_some,
      hcolumn, hrow]
  exact slice_flatten (length_of_mem_nearestPixels hi (Nat.le_refl _)) hplace

/-- Images of one size and mode are told apart by their pixels. -/
theorem eq_of_pixels (hi : i.WellFormed) (hj : j.WellFormed) (hwidth : i.width = j.width)
    (hheight : i.height = j.height) (hmode : i.mode = j.mode)
    (h : ∀ x y, x < i.width.toNat → y < i.height.toNat → i.pixel x y = j.pixel x y) : i = j := by
  obtain ⟨width, height, mode, bytes⟩ := i
  obtain ⟨_, _, _, bytes'⟩ := j
  cases hwidth
  cases hheight
  cases hmode
  have hbytes : bytes = bytes' := by
    refine eq_of_slices hi hj fun p hp => ?_
    obtain ⟨hx, hy⟩ := place_lt hp
    have hplace := h (p % width.toNat) (p / width.toNat) hx hy
    unfold pixel at hplace
    dsimp only at hplace
    rwa [Nat.div_add_mod'] at hplace
  rw [hbytes]

end Image
end Cadastre
