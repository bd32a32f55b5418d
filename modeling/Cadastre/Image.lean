/-
# Images

An image is its size, its pixel mode and its pixels row by row, one byte per
channel. Resizing takes for each pixel of the result the nearest one of the
source; recolouring to grey weighs red, green and blue by 299, 587 and 114
thousandths. The length of a buffer is checked against a 64-bit word only, so a
length that passes may be more than there are addresses, and then the process
breaks off.

Key definitions: `Image`, `Image.WellFormed`, `Image.create`, `Image.resize`,
`Image.convert`, `Image.recolor`.
Key theorems: `Image.wellFormed_of_create`, `Image.luma_lt`.
-/
import Cadastre.Error
import Cadastre.Power

namespace Cadastre

/-- A decoded image. -/
structure Image where
  width : UInt32
  height : UInt32
  mode : ImageMode
  pixels : List UInt8
  deriving DecidableEq, Repr

namespace Image

/-- The bytes of an image of the given size and mode. -/
def bufferLength (width height : UInt32) (mode : ImageMode) : Nat :=
  width.toNat * height.toNat * mode.channels

/-- The pixels fill the size. -/
def WellFormed (i : Image) : Prop := i.pixels.length = bufferLength i.width i.height i.mode

instance (i : Image) : Decidable i.WellFormed := inferInstanceAs (Decidable (_ = _))

/-- A buffer must be addressable by a 64-bit word. -/
def bufferLength? (width height : UInt32) (mode : ImageMode) : Except Error Nat :=
  if bufferLength width height mode < 2 ^ 64 then .ok (bufferLength width height mode)
  else .error (.type (.imageTooLarge width height mode))

/-- The image with the given pixels, if they fill its size. -/
def create (width height : UInt32) (mode : ImageMode) (pixels : List UInt8) : Except Error Image :=
  match bufferLength? width height mode with
  | .error e => .error e
  | .ok n =>
    if pixels.length = n then .ok ⟨width, height, mode, pixels⟩
    else .error (.type (.imageBufferMismatch width height mode pixels.length))

/-- The nearest source position of position `i` when `size` becomes `target`. -/
def nearest (size target i : Nat) : Nat := i * size / target

/-- The bytes from `first` to `last` of a buffer. -/
def readSlice (source : Array UInt8) (first last : Nat) : Except Error (List UInt8) :=
  if last ≤ source.size then .ok (source.extract first last).toList
  else .error (.sliceOutOfRange first last source.size)

/-- The bytes of the pixel in column `x` and row `y`. -/
def readPixel (source : Array UInt8) (width channels x y : Nat) : Except Error (List UInt8) :=
  let first := (y * width + x) * channels
  readSlice source first (first + channels)

/-- The pixels of the image at another size; an empty image becomes black. -/
def resizedPixels (i : Image) (width height : Nat) : Except Error (List UInt8) :=
  if i.width.toNat = 0 ∨ i.height.toNat = 0 then
    .ok (List.replicate (width * height * i.mode.channels) 0)
  else
    let source := i.pixels.toArray
    ((List.range (width * height)).mapM fun p =>
      readPixel source i.width.toNat i.mode.channels
        (nearest i.width.toNat width (p % width))
        (nearest i.height.toNat height (p / width))).map List.flatten

/-- The image at another size. -/
def resize (i : Image) (width height : UInt32) : Except Error Image := do
  let n ← bufferLength? width height i.mode
  requireBuffer n
  let pixels ← i.resizedPixels width.toNat height.toNat
  .ok ⟨width, height, i.mode, pixels⟩

/-- The grey value of a pixel, as a number. -/
def luma (r g b : UInt8) : Nat := (r.toNat * 299 + g.toNat * 587 + b.toNat * 114) / 1000

/-- The grey bytes of red, green and blue ones. -/
def grayPixels : List UInt8 → List UInt8
  | r :: g :: b :: rest => UInt8.ofNat (luma r g b) :: grayPixels rest
  | _ => []

/-- The red, green and blue bytes of grey ones. -/
def rgbPixels : List UInt8 → List UInt8
  | [] => []
  | l :: rest => l :: l :: l :: rgbPixels rest

/-- The image in another mode. -/
def convert (i : Image) (mode : ImageMode) : Image :=
  match i.mode, mode with
  | .gray, .rgb => ⟨i.width, i.height, .rgb, rgbPixels i.pixels⟩
  | .rgb, .gray => ⟨i.width, i.height, .gray, grayPixels i.pixels⟩
  | _, _ => i

/-- The image in the given mode; in another one than before it needs a buffer. -/
def recolor (i : Image) (mode : ImageMode) : Except Error Image :=
  if mode = i.mode then .ok i
  else do
    requireBuffer (i.convert mode).pixels.length
    .ok (i.convert mode)

/-- A created image is well formed. -/
theorem wellFormed_of_create {width height : UInt32} {mode : ImageMode} {pixels : List UInt8}
    {i : Image} (h : create width height mode pixels = .ok i) : i.WellFormed := by
  unfold create bufferLength? at h
  by_cases hn : bufferLength width height mode < 2 ^ 64
  · simp only [hn, if_true] at h
    split at h
    · cases h
      assumption
    · cases h
  · simp only [hn, if_false] at h
    cases h

/-- A grey value fits a byte. -/
theorem luma_lt (r g b : UInt8) : luma r g b < 256 := by
  have hr := r.toNat_lt
  have hg := g.toNat_lt
  have hb := b.toNat_lt
  unfold luma
  omega

end Image
end Cadastre
