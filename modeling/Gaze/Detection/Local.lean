import Gaze.Detection.Planes
import Gaze.Detection.RoundTrip

/-!
# Detection on the device

Without a detection server, shapes are detected on the device, in an array of the
luminances of the picture. `byteBufferToArray2d` copies it from the buffer of the plane, as
if its rows followed each other, and is not told their distance. The server is told this
distance (`yuv420p2rgb888`).

Both look at the same picture exactly if the bytes of the plane at the indices of each pixel
are the same (`samePicture_iff`). Whatever the plane holds, this is when its rows are not
padded, or there is only one of them (`pictures_agree_iff`).
-/

namespace Gaze

open Java DetectionServer DetectionTask

namespace ObjectDetector

/-- A `dlib::array2d<unsigned char>`, whose rows follow each other. -/
structure Array2d where
  nr : ℕ
  nc : ℕ
  data : List UInt8

/-- `result[row][column]`. -/
def Array2d.get (result : Array2d) (row column : ℕ) : Except Stop UInt8 :=
  match result.data[row * result.nc + column]? with
  | some byte => .ok byte
  | none => .error .undefined

/-- `byteBufferToArray2d`: the product `w * h` is an `int`, and `memcpy` reads as many bytes. -/
def byteBufferToArray2d (yBuffer : List UInt8) (w h : Int32) : Except Stop Array2d :=
  if 0 ≤ w.toInt ∧ 0 ≤ h.toInt ∧ w.toInt * h.toInt < 2 ^ 31 ∧
      w.toInt * h.toInt ≤ yBuffer.length then
    .ok ⟨h.toInt.toNat, w.toInt.toNat, yBuffer.take (w.toInt * h.toInt).toNat⟩
  else .error .undefined

/-- The luminance of a pixel, in the array on the device. -/
def localLuminance (y : Plane) (width height : Int32) (row column : ℕ) : Except Stop UInt8 := do
  let result ← byteBufferToArray2d y.buffer width height
  result.get row column

/-- The luminance of a pixel that the server reads in the planes of a request. -/
def remoteLuminance (planes : Planes) (row column : ℕ) : Except Stop UInt8 :=
  charAt planes.yData (yIndex (toSize planes.yRowStride) row column)

/-- The plane holds the rows of an image, which may be padded. -/
structure Holds (width height : Int32) (y : Plane) : Prop where
  width_nonneg : 0 ≤ width.toInt
  height_nonneg : 0 ≤ height.toInt
  stride : width.toInt ≤ y.rowStride.toInt
  rows : (height.toInt - 1) * y.rowStride.toInt + width.toInt ≤ y.buffer.length
  /-- The capacity of a buffer is an `int`. -/
  size : y.buffer.length < 2 ^ 31

/-- The server reads the same luminances as the device, from any request about the image. -/
def SamePicture (width height : Int32) (y : Plane) : Prop :=
  ∀ detectorName name planes u v,
    Recovers (.yuv name planes) detectorName (.yuv420888 width height y u v) →
    ∀ row column : ℕ, row < height.toInt → column < width.toInt →
      ∃ luminance, localLuminance y width height row column = .ok luminance ∧
        remoteLuminance planes row column = .ok luminance

section

variable {width height : Int32} {y : Plane} {row column : ℕ}

/-- The indices of a pixel are in the plane: that of the padded rows is the greater one. -/
theorem Holds.index_lt (h : Holds width height y) (hrow : row < height.toInt)
    (hcolumn : column < width.toInt) :
    row * width.toInt + column ≤ row * y.rowStride.toInt + column ∧
      row * y.rowStride.toInt + column < y.buffer.length := by
  have hstride : 0 ≤ y.rowStride.toInt := h.width_nonneg.trans h.stride
  have hle : (row : ℤ) * width.toInt ≤ row * y.rowStride.toInt :=
    mul_le_mul_of_nonneg_left h.stride (by omega)
  have hlast : (row : ℤ) * y.rowStride.toInt ≤ (height.toInt - 1) * y.rowStride.toInt :=
    mul_le_mul_of_nonneg_right (by omega) hstride
  have hrows := h.rows
  exact ⟨by omega, by omega⟩

/-- All the luminances that are copied are in the plane. -/
theorem Holds.product_le (h : Holds width height y) (hrow : row < height.toInt) :
    width.toInt * height.toInt ≤ y.buffer.length := by
  have hle : (height.toInt - 1) * width.toInt ≤ (height.toInt - 1) * y.rowStride.toInt :=
    mul_le_mul_of_nonneg_left h.stride (by omega)
  have hproduct : width.toInt * height.toInt = (height.toInt - 1) * width.toInt + width.toInt := by
    ring
  have hrows := h.rows
  omega

/-- The device reads the bytes of the rows as if they followed each other. -/
theorem Holds.localLuminance_eq (h : Holds width height y) (hrow : row < height.toInt)
    (hcolumn : column < width.toInt) {byte : UInt8} :
    localLuminance y width height row column = .ok byte ↔
      y.buffer[(row * width.toInt + column).toNat]? = some byte := by
  have hproduct := h.product_le hrow
  have hsize := h.size
  have hcopy : byteBufferToArray2d y.buffer width height =
      .ok ⟨height.toInt.toNat, width.toInt.toNat,
        y.buffer.take (width.toInt * height.toInt).toNat⟩ :=
    if_pos ⟨h.width_nonneg, h.height_nonneg, by omega, hproduct⟩
  have hnonneg : 0 ≤ (row : ℤ) * width.toInt := mul_nonneg (by omega) h.width_nonneg
  have hindex : row * width.toInt.toNat + column = (row * width.toInt + column).toNat := by
    have hcast : (width.toInt.toNat : ℤ) = width.toInt := Int.toNat_of_nonneg h.width_nonneg
    zify
    rw [hcast, Int.toNat_of_nonneg (by omega)]
  -- The pixel is one of those that are copied.
  have hcopied : (row * width.toInt + column).toNat < (width.toInt * height.toInt).toNat := by
    have hle : (row : ℤ) * width.toInt ≤ (height.toInt - 1) * width.toInt :=
      mul_le_mul_of_nonneg_right (by omega) h.width_nonneg
    have hring : (height.toInt - 1) * width.toInt = width.toInt * height.toInt - width.toInt := by
      ring
    omega
  rw [localLuminance, hcopy]
  simp only [bind, Except.bind, Array2d.get, hindex, List.getElem?_take_of_lt hcopied]
  cases y.buffer[(row * width.toInt + column).toNat]? <;> simp

/-- The server reads the bytes of the rows at their distance. -/
theorem Holds.remoteLuminance_eq (h : Holds width height y) (hrow : row < height.toInt)
    (hcolumn : column < width.toInt) {planes : Planes} (hstride : planes.yRowStride = y.rowStride)
    (hdata : planes.yData = y.buffer) {byte : UInt8} :
    remoteLuminance planes row column = .ok byte ↔
      y.buffer[(row * y.rowStride.toInt + column).toNat]? = some byte := by
  obtain ⟨-, hlt⟩ := h.index_lt hrow hcolumn
  have hnonneg : 0 ≤ (row : ℤ) * y.rowStride.toInt :=
    mul_nonneg (by omega) (h.width_nonneg.trans h.stride)
  have hsize := h.size
  have hindex : (yIndex (toSize planes.yRowStride) row column : ℤ) =
      row * y.rowStride.toInt + column := by
    rw [yIndex_toSize, hstride, Int.emod_eq_of_lt (by omega) (by omega)]
  have hinside : (row * y.rowStride.toInt + column).toNat < y.buffer.length := by omega
  rw [remoteLuminance, hdata, hindex, charAt, if_pos ⟨by omega, by omega⟩,
    List.getD_eq_getElem?_getD, List.getElem?_eq_getElem hinside]
  simp

/-- The two pictures are the same exactly if the bytes at the two indices of each pixel are. -/
theorem samePicture_iff (h : Holds width height y) : SamePicture width height y ↔
    ∀ row column : ℕ, row < height.toInt → column < width.toInt →
      y.buffer[(row * width.toInt + column).toNat]? =
        y.buffer[(row * y.rowStride.toInt + column).toNat]? := by
  constructor
  · intro hsame row column hrow hcolumn
    obtain ⟨luminance, hlocal, hremote⟩ := hsame [] []
      ⟨width, height, y.rowStride, 1, 1, y.buffer, [], []⟩ ⟨1, 1, []⟩ ⟨1, 1, []⟩
      ⟨rfl, rfl, rfl, rfl, rfl, rfl, rfl, rfl, rfl⟩ row column hrow hcolumn
    rw [(h.localLuminance_eq hrow hcolumn).1 hlocal,
      (h.remoteLuminance_eq hrow hcolumn rfl rfl).1 hremote]
  · rintro hbytes detectorName name planes u v ⟨-, -, -, hstride, -, -, hdata, -, -⟩ row column
      hrow hcolumn
    obtain ⟨-, hlt⟩ := h.index_lt hrow hcolumn
    have hnonneg : 0 ≤ (row : ℤ) * y.rowStride.toInt :=
      mul_nonneg (by omega) (h.width_nonneg.trans h.stride)
    have hinside : (row * y.rowStride.toInt + column).toNat < y.buffer.length := by omega
    have hremote := List.getElem?_eq_getElem hinside
    exact ⟨_, (h.localLuminance_eq hrow hcolumn).2 ((hbytes row column hrow hcolumn).trans hremote),
      (h.remoteLuminance_eq hrow hcolumn hstride hdata).2 hremote⟩

/-- A plane of the same size, in which the first byte after the first row differs from the
    others. -/
def marked (width : Int32) (y : Plane) : Plane :=
  { y with buffer := (List.replicate y.buffer.length 0).set width.toInt.toNat 1 }

theorem Holds.marked (h : Holds width height y) : Holds width height (marked width y) := by
  have hlength : (ObjectDetector.marked width y).buffer.length = y.buffer.length := by
    simp [ObjectDetector.marked]
  refine ⟨h.width_nonneg, h.height_nonneg, h.stride, ?_, ?_⟩
  · rw [hlength]
    exact h.rows
  · rw [hlength]
    exact h.size

/-- The luminances are the same on the device and on the server for an image exactly if the
    bytes of its plane at the two indices of each pixel are the same; and they are for all the
    images of the same dimensions and stride exactly if the rows are not padded, or there
    is only one, or no pixel. -/
theorem pictures_agree_iff (h : Holds width height y) :
    (SamePicture width height y ↔
      ∀ row column : ℕ, row < height.toInt → column < width.toInt →
        y.buffer[(row * width.toInt + column).toNat]? =
          y.buffer[(row * y.rowStride.toInt + column).toNat]?) ∧
    ((∀ y' : Plane, Holds width height y' → y'.rowStride = y.rowStride →
        SamePicture width height y') ↔
      y.rowStride = width ∨ height.toInt ≤ 1 ∨ width.toInt = 0) := by
  refine ⟨samePicture_iff h, fun hall => ?_, fun hgeometry y' hy' hstride => ?_⟩
  · by_contra hpadded
    push Not at hpadded
    obtain ⟨hne, htwo, hpixel⟩ := hpadded
    have hlt : width.toInt < y.rowStride.toInt :=
      lt_of_le_of_ne h.stride fun heq => hne (Int32.toInt_inj.1 heq.symm)
    have hwidth := h.width_nonneg
    -- The first byte of the second row, for the device, is a byte of padding.
    have hsecond := (samePicture_iff h.marked).1 (hall _ h.marked rfl) 1 0 (by omega) (by omega)
    have hrow : ((1 : ℕ) : ℤ) < height.toInt := by omega
    have hcolumn : ((0 : ℕ) : ℤ) < width.toInt := by omega
    have hinside := (h.index_lt hrow hcolumn).2
    simp only [Nat.cast_one, Nat.cast_zero, one_mul, add_zero] at hsecond hinside
    have hstride : (marked width y).rowStride = y.rowStride := rfl
    have hlength : width.toInt.toNat < (List.replicate y.buffer.length (0 : UInt8)).length := by
      rw [List.length_replicate]
      omega
    rw [hstride, ObjectDetector.marked, List.getElem?_set_self hlength,
      List.getElem?_set_ne (by omega), List.getElem?_replicate, if_pos (by omega)] at hsecond
    exact absurd hsecond (by decide)
  · refine (samePicture_iff hy').2 fun row column hrow hcolumn => ?_
    rcases hgeometry with heq | hone | hzero
    · rw [hstride, heq]
    · obtain rfl : row = 0 := by omega
      simp
    · omega

end

/-- The luminances of two rows of two pixels, which are not padded. -/
theorem unpadded_samePicture : SamePicture 2 2 ⟨2, 1, [10, 20, 30, 40]⟩ :=
  have hholds : Holds 2 2 ⟨2, 1, [10, 20, 30, 40]⟩ :=
    ⟨by decide, by decide, by decide, by decide, by decide⟩
  (pictures_agree_iff hholds).2.2 (.inl rfl) _ hholds rfl

/-- The rows are padded to four bytes: the second row on the device is the padding of the
    first one. -/
theorem padded_pictures_differ :
    ¬∀ (width height : Int32) (y : Plane), Holds width height y → SamePicture width height y := by
  intro h
  have hsame := h 2 2 ⟨4, 1, [10, 20, 0, 0, 30, 40]⟩
    ⟨by decide, by decide, by decide, by decide, by decide⟩
  obtain ⟨luminance, hlocal, hremote⟩ := hsame [] []
    ⟨2, 2, 4, 1, 1, [10, 20, 0, 0, 30, 40], [], []⟩ ⟨1, 1, []⟩ ⟨1, 1, []⟩
    ⟨rfl, rfl, rfl, rfl, rfl, rfl, rfl, rfl, rfl⟩ 1 0 (by decide) (by decide)
  exact absurd (hlocal.trans hremote.symm) (by decide)

end ObjectDetector

end Gaze
