import Gaze.Detection.Format
import Mathlib.Algebra.Order.Ring.Int
import Mathlib.Data.Int.ModEq
import Mathlib.Tactic.Linarith
import Mathlib.Tactic.Ring

/-!
# The planes of an image

To decode an image, the detection server reads three planes at indices which it computes
from the coordinates of each pixel, and from the strides that the request announces. A
negative stride is a large `size_t`, the index of a luminance wraps at `2 ^ 64`, and the
index of a colour is converted to an `int`.

The size of each plane is checked, but not that the indices are less: an index that wraps
may be inside of a plane again. `within_iff_fits`: all the indices are less than the sizes
exactly if the strides are not negative, those that are used, and the indices of the last
pixel, which are the greatest, do not wrap and are less than the sizes. A stride that makes an
index wrap makes an earlier one leave the plane. `readsInside_iff`: this is when the indices
that a task reads are inside of the planes, if the image is allocated and has a pixel.
-/

namespace Gaze

namespace DetectionTask

/-- The indices of the pixels of an image are less than the given limits. The pixels are those
    that the loops of `yuv420p2rgb888` go through, whose counters are `int`s. -/
def Planes.Within (planes : Planes) (yLimit uvLimit : ℕ) : Prop :=
  ∀ y x : ℕ, y < toSize planes.imageHeight → y < 2 ^ 31 → x < toSize planes.imageWidth →
    x < 2 ^ 31 → yIndex (toSize planes.yRowStride) y x < yLimit ∧
      0 ≤ uvIndex (toSize planes.uvPixelStride) (toSize planes.uvRowStride) y x ∧
      uvIndex (toSize planes.uvPixelStride) (toSize planes.uvRowStride) y x < uvLimit

/-- The strides that are used are not negative, and the indices of the last pixel are less than
    the given limits. -/
def Planes.Fits (planes : Planes) (yLimit uvLimit : ℕ) : Prop :=
  ((2 ≤ planes.imageHeight.toInt → 0 ≤ planes.yRowStride.toInt) ∧
    (planes.imageHeight.toInt - 1) * planes.yRowStride.toInt + (planes.imageWidth.toInt - 1) <
      yLimit) ∧
  (3 ≤ planes.imageWidth.toInt → 0 ≤ planes.uvPixelStride.toInt) ∧
  (3 ≤ planes.imageHeight.toInt → 0 ≤ planes.uvRowStride.toInt) ∧
  planes.uvPixelStride.toInt * ((planes.imageWidth.toInt - 1) / 2) +
    planes.uvRowStride.toInt * ((planes.imageHeight.toInt - 1) / 2) < uvLimit

instance (planes : Planes) (yLimit uvLimit : ℕ) : Decidable (planes.Fits yLimit uvLimit) :=
  inferInstanceAs (Decidable ((_ ∧ _) ∧ _ ∧ _ ∧ _))

/-! ## The indices -/

theorem toSize_modEq (n : Int32) : (toSize n : ℤ) ≡ n.toInt [ZMOD 2 ^ 64] := by
  rw [toSize, Int.toNat_of_nonneg (Int.emod_nonneg _ (by decide))]
  exact Int.mod_modEq _ _

theorem yIndex_toSize (yRowStride : Int32) (y x : ℕ) :
    (yIndex (toSize yRowStride) y x : ℤ) = (y * yRowStride.toInt + x) % 2 ^ 64 := by
  rw [yIndex, Int.natCast_mod, Nat.cast_add, Nat.cast_mul, Nat.cast_pow, Nat.cast_ofNat]
  exact ((toSize_modEq yRowStride).mul_left y).add_right x

theorem bmod_eq_of_modEq {a b : ℤ} (h : a ≡ b [ZMOD 2 ^ 64]) :
    a.bmod (2 ^ 32) = b.bmod (2 ^ 32) := by
  have hmod : a % ((2 ^ 32 : ℕ) : ℤ) = b % ((2 ^ 32 : ℕ) : ℤ) := by
    rw [Nat.cast_pow]
    exact h.of_dvd (pow_dvd_pow _ (by decide))
  rw [← Int.emod_bmod a, hmod, Int.emod_bmod]

theorem uvIndex_toSize (uvPixelStride uvRowStride : Int32) (y x : ℕ) :
    uvIndex (toSize uvPixelStride) (toSize uvRowStride) y x =
      (uvPixelStride.toInt * (x / 2 : ℕ) + uvRowStride.toInt * (y / 2 : ℕ)).bmod (2 ^ 32) := by
  have hsum := ((toSize_modEq uvPixelStride).mul_right (x / 2 : ℕ)).add
    ((toSize_modEq uvRowStride).mul_right (y / 2 : ℕ))
  unfold uvIndex
  rw [Int.natCast_mod, Nat.cast_add, Nat.cast_mul, Nat.cast_mul, Nat.cast_pow, Nat.cast_ofNat]
  exact (bmod_eq_of_modEq (Int.mod_modEq _ _)).trans (bmod_eq_of_modEq hsum)

/-- A small index does not wrap. -/
theorem bmod_of_lt {i : ℤ} (h : 0 ≤ i) (hlt : i < 2 ^ 31) : i.bmod (2 ^ 32) = i := by
  rw [Int.bmod_eq_emod_of_lt] <;> rw [Int.emod_eq_of_lt h (by omega)]
  omega

/-- Indices that grow by small steps, and that are less than a limit after they have been
    converted, are less than it: the first one that is not does not wrap. -/
theorem lt_of_bmod_lt {base step limit : ℤ} (hlimit : limit ≤ 2 ^ 30) (hstep : 0 ≤ step)
    (hstep' : step < limit) (hbase : 0 ≤ base) (hbase' : base < limit) {n : ℕ}
    (h : ∀ k ≤ n, (base + step * (k : ℕ)).bmod (2 ^ 32) < limit) : base + step * n < limit := by
  induction n with
  | zero => simpa using hbase'
  | succ n ih =>
    have hn := ih fun k hk => h k (Nat.le_succ_of_le hk)
    have hnonneg : 0 ≤ step * n := mul_nonneg hstep (Int.natCast_nonneg n)
    have hsucc : base + step * (n + 1 : ℕ) = base + step * n + step := by
      push_cast
      ring
    have hlt := h (n + 1) le_rfl
    rwa [bmod_of_lt (by omega) (by omega)] at hlt

/-- The greatest index of a grid. -/
theorem grid_le {p r : ℤ} {a b m n : ℕ} (hp : 1 ≤ m → 0 ≤ p) (hr : 1 ≤ n → 0 ≤ r) (ha : a ≤ m)
    (hb : b ≤ n) : 0 ≤ p * a + r * b ∧ p * a + r * b ≤ p * m + r * n := by
  have hpa : 0 ≤ p * a ∧ p * a ≤ p * m := by
    rcases Nat.eq_zero_or_pos m with rfl | hm
    · obtain rfl := Nat.le_zero.1 ha
      simp
    · exact ⟨mul_nonneg (hp hm) (by omega), mul_le_mul_of_nonneg_left (by omega) (hp hm)⟩
  have hrb : 0 ≤ r * b ∧ r * b ≤ r * n := by
    rcases Nat.eq_zero_or_pos n with rfl | hn
    · obtain rfl := Nat.le_zero.1 hb
      simp
    · exact ⟨mul_nonneg (hr hn) (by omega), mul_le_mul_of_nonneg_left (by omega) (hr hn)⟩
  omega

/-- The luminances of `m + 1` columns and `n + 1` rows. -/
theorem luminances_iff {stride : ℤ} {m n limit : ℕ} (hm : m < 640) (hn : n < 640)
    (hle : -2 ^ 31 ≤ stride) (hlt : stride < 2 ^ 31) (hlimit : limit ≤ 2 ^ 30) :
    (∀ y ≤ n, ∀ x ≤ m, ((y : ℕ) * stride + (x : ℕ)) % 2 ^ 64 < limit) ↔
      (1 ≤ n → 0 ≤ stride) ∧ n * stride + m < limit := by
  constructor
  · intro h
    have hstride : 1 ≤ n → 0 ≤ stride := by
      intro hpos
      by_contra hneg
      -- The first luminance of the second row is far before the plane.
      have hfirst := h 1 hpos 0 (Nat.zero_le m)
      omega
    refine ⟨hstride, ?_⟩
    have hlast := h n le_rfl m le_rfl
    have hgrid :=
      grid_le (p := 1) (r := stride) (fun _ => by decide) hstride (le_refl m) (le_refl n)
    have hbound : stride * n ≤ 2 ^ 31 * n := mul_le_mul_of_nonneg_right (by omega) (by omega)
    rwa [Int.emod_eq_of_lt (by linarith) (by nlinarith)] at hlast
  -- The index of the last pixel is the greatest one, and nothing wraps below it.
  · rintro ⟨hstride, hlast⟩ y hy x hx
    have hgrid := grid_le (p := 1) (r := stride) (fun _ => by decide) hstride hx hy
    rw [Int.emod_eq_of_lt (by linarith) (by nlinarith)]
    linarith

/-- The colours of `m + 1` columns and `n + 1` rows. -/
theorem colours_iff {p r : ℤ} {m n limit : ℕ} (hp : -2 ^ 31 ≤ p) (hp' : p < 2 ^ 31)
    (hr : -2 ^ 31 ≤ r) (hr' : r < 2 ^ 31) (hlimit : limit ≤ 2 ^ 30) :
    (∀ b ≤ n, ∀ a ≤ m, 0 ≤ (p * (a : ℕ) + r * (b : ℕ)).bmod (2 ^ 32) ∧
        (p * (a : ℕ) + r * (b : ℕ)).bmod (2 ^ 32) < limit) ↔
      (1 ≤ m → 0 ≤ p) ∧ (1 ≤ n → 0 ≤ r) ∧ p * m + r * n < limit := by
  constructor
  · intro h
    have hpositive : 0 < (limit : ℤ) := by simpa using (h 0 (Nat.zero_le n) 0 (Nat.zero_le m)).2
    -- The second column and the second row do not wrap.
    have hcolumn : 1 ≤ m → 0 ≤ p ∧ p < limit := by
      intro hm
      have hsecond := h 0 (Nat.zero_le n) 1 hm
      rwa [Nat.cast_one, mul_one, Nat.cast_zero, mul_zero, add_zero,
        Int.bmod_eq_of_le (by omega) (by omega)] at hsecond
    have hrow : 1 ≤ n → 0 ≤ r ∧ r < limit := by
      intro hn
      have hsecond := h 1 hn 0 (Nat.zero_le m)
      rwa [Nat.cast_one, mul_one, Nat.cast_zero, mul_zero, zero_add,
        Int.bmod_eq_of_le (by omega) (by omega)] at hsecond
    -- The first row, and then the last column.
    have hfirst : 0 ≤ p * m ∧ p * m < limit := by
      rcases Nat.eq_zero_or_pos m with rfl | hm
      · simpa using hpositive
      · refine ⟨mul_nonneg (hcolumn hm).1 (by omega), ?_⟩
        have hlt := lt_of_bmod_lt (by omega) (hcolumn hm).1 (hcolumn hm).2 le_rfl hpositive
          fun a ha => by simpa using (h 0 (Nat.zero_le n) a ha).2
        simpa using hlt
    refine ⟨fun hm => (hcolumn hm).1, fun hn => (hrow hn).1, ?_⟩
    rcases Nat.eq_zero_or_pos n with rfl | hn
    · simpa using hfirst.2
    · exact lt_of_bmod_lt (by omega) (hrow hn).1 (hrow hn).2 hfirst.1 hfirst.2
        fun b hb => (h b hb m le_rfl).2
  · rintro ⟨hp, hr, hlast⟩ b hb a ha
    obtain ⟨hnonneg, hle⟩ := grid_le hp hr ha hb
    rw [bmod_of_lt hnonneg (by omega)]
    omega

/-! ## The planes -/

variable {planes : Planes} {yLimit uvLimit m n : ℕ}

/-- All the indices are less than the limits exactly if those of the last pixel are, and the
    strides are not negative. -/
theorem within_iff_fits (hwidth : planes.imageWidth.toInt = m + 1)
    (hheight : planes.imageHeight.toInt = n + 1) (hm : m < 640) (hn : n < 640)
    (hy : yLimit ≤ 2 ^ 30) (huv : uvLimit ≤ 2 ^ 30) :
    planes.Within yLimit uvLimit ↔ planes.Fits yLimit uvLimit := by
  have hsize : toSize planes.imageWidth = m + 1 ∧ toSize planes.imageHeight = n + 1 := by
    rw [toSize, toSize, hwidth, hheight]
    omega
  have hluminances := luminances_iff hm hn planes.yRowStride.le_toInt planes.yRowStride.toInt_lt hy
  have hcolours := colours_iff (m := m / 2) (n := n / 2) planes.uvPixelStride.le_toInt
    planes.uvPixelStride.toInt_lt planes.uvRowStride.le_toInt planes.uvRowStride.toInt_lt huv
  have hfits : planes.Fits yLimit uvLimit ↔ ((1 ≤ n → 0 ≤ planes.yRowStride.toInt) ∧
      n * planes.yRowStride.toInt + m < yLimit) ∧ (1 ≤ m / 2 → 0 ≤ planes.uvPixelStride.toInt) ∧
      (1 ≤ n / 2 → 0 ≤ planes.uvRowStride.toInt) ∧ planes.uvPixelStride.toInt * (m / 2 : ℕ) +
        planes.uvRowStride.toInt * (n / 2 : ℕ) < uvLimit := by
    rw [Planes.Fits, hwidth, hheight, Int.add_sub_cancel, Int.add_sub_cancel, Int.natCast_div,
      Int.natCast_div, Nat.cast_ofNat]
    refine and_congr (and_congr_left' ?_) (and_congr ?_ (and_congr_left' ?_)) <;>
      exact imp_congr (by omega) Iff.rfl
  rw [hfits, ← hluminances, ← hcolours]
  constructor
  · intro h
    refine ⟨fun y hy x hx => ?_, fun b hb a ha => ?_⟩
    · have hpixel := (h y x (by omega) (by omega) (by omega) (by omega)).1
      rw [← yIndex_toSize]
      exact Int.ofNat_lt.2 hpixel
    -- The colour of the column `a` and the row `b` is read for the pixel `(2 * a, 2 * b)`.
    · have hpixel := (h (2 * b) (2 * a) (by omega) (by omega) (by omega) (by omega)).2
      rw [uvIndex_toSize, Nat.mul_div_cancel_left a (by decide),
        Nat.mul_div_cancel_left b (by decide)] at hpixel
      exact hpixel
  · rintro ⟨hluminance, hcolour⟩ y x hy hy' hx hx'
    have hpixel := hluminance y (by omega) x (by omega)
    rw [← yIndex_toSize] at hpixel
    rw [uvIndex_toSize]
    exact ⟨Int.ofNat_lt.1 hpixel, hcolour (y / 2) (by omega) (x / 2) (by omega)⟩

theorem toSize_of_neg {k : Int32} (h : k < 0) : 2 ^ 31 ≤ toSize k :=
  Nat.le_trans (by decide) (maxSize_lt_toSize h).le

/-- Without any row or any column, there is nothing to read. -/
theorem within_of_eq_zero (h : planes.imageWidth = 0 ∨ planes.imageHeight = 0) :
    planes.Within yLimit uvLimit := by
  have hzero : toSize 0 = 0 := by decide
  intro y x hy _ hx _
  rcases h with h | h
  · rw [h, hzero] at hx
    omega
  · rw [h, hzero] at hy
    omega

/-- A negative width is a large one. -/
theorem not_within_of_neg (hwidth : planes.imageWidth < 0) (hheight : planes.imageHeight < 0)
    (hy : yLimit ≤ 2 ^ 30) : ¬planes.Within yLimit uvLimit := by
  intro h
  have hw := toSize_of_neg hwidth
  have hh := toSize_of_neg hheight
  have hpixel := (h 0 yLimit (by omega) (by omega) (by omega) (by omega)).1
  rw [yIndex, Nat.zero_mul, Nat.zero_add, Nat.mod_eq_of_lt (by omega)] at hpixel
  exact absurd hpixel (Nat.lt_irrefl _)

/-! ## The images -/

/-- There is memory for the image; there is none for a negative number of pixels. -/
def Planes.HasRoom (env : Environment) (planes : Planes) : Prop :=
  0 ≤ planes.imageHeight.toInt * planes.imageWidth.toInt ∧
    3 * (planes.imageHeight.toInt * planes.imageWidth.toInt) < 2 ^ 63 ∧
    env.allocates (planes.imageHeight.toInt * planes.imageWidth.toInt).toNat

instance (env : Environment) (planes : Planes) : Decidable (planes.HasRoom env) :=
  inferInstanceAs (Decidable (_ ∧ _ ∧ _))

theorem mul_bounds (a b : Int32) : -2 ^ 62 ≤ a.toInt * b.toInt ∧ a.toInt * b.toInt ≤ 2 ^ 62 := by
  have ha := a.le_toInt
  have ha' := a.toInt_lt
  have hb := b.le_toInt
  have hb' := b.toInt_lt
  constructor <;> nlinarith

/-- The image is allocated, or an exception is thrown. -/
theorem newMatrix_of_hasRoom {env : Environment} (h : planes.HasRoom env) : ∃ image,
    env.newMatrix planes.imageHeight.toInt planes.imageWidth.toInt = .ok image := by
  obtain ⟨hnonneg, hsize, hallocates⟩ := h
  obtain ⟨-, hle⟩ := mul_bounds planes.imageHeight planes.imageWidth
  rw [Environment.newMatrix, Int.emod_eq_of_lt hnonneg (by omega)]
  rw [if_neg (by omega), if_pos hallocates]
  exact ⟨_, rfl⟩

theorem newMatrix_of_not_hasRoom {env : Environment} (h : ¬planes.HasRoom env) : ∃ e,
    env.newMatrix planes.imageHeight.toInt planes.imageWidth.toInt = .error (.thrown e) := by
  obtain ⟨hle, hle'⟩ := mul_bounds planes.imageHeight planes.imageWidth
  rw [Environment.newMatrix]
  split_ifs with hbig hallocates
  · exact ⟨_, rfl⟩
  · -- A negative size is a large one.
    have hnonneg : 0 ≤ planes.imageHeight.toInt * planes.imageWidth.toInt := by
      by_contra hneg
      rw [← Int.add_emod_right, Int.emod_eq_of_lt (by omega) (by omega)] at hbig
      omega
    rw [Int.emod_eq_of_lt hnonneg (by omega)] at hbig hallocates
    exact absurd ⟨hnonneg, by omega, hallocates⟩ h
  · exact ⟨_, rfl⟩

/-- With memory for an image that has pixels, its width and its height have the same sign. -/
theorem Planes.HasRoom.sign {env : Environment} (h : planes.HasRoom env)
    (hwidth : planes.imageWidth ≠ 0) (hheight : planes.imageHeight ≠ 0) :
    0 < planes.imageWidth ∧ 0 < planes.imageHeight ∨
      planes.imageWidth < 0 ∧ planes.imageHeight < 0 := by
  have hw : planes.imageWidth.toInt ≠ 0 := fun h => hwidth (Int32.toInt_inj.1 h)
  have hh : planes.imageHeight.toInt ≠ 0 := fun h => hheight (Int32.toInt_inj.1 h)
  simp only [Int32.lt_iff_toInt_lt, Int32.toInt_zero]
  rcases lt_or_gt_of_ne hw with hw | hw <;> rcases lt_or_gt_of_ne hh with hh | hh
  · exact .inr ⟨hw, hh⟩
  · exact absurd h.1 (not_le.2 (mul_neg_of_pos_of_neg hh hw))
  · exact absurd h.1 (not_le.2 (mul_neg_of_neg_of_pos hh hw))
  · exact .inl ⟨hw, hh⟩

/-- There is no pixel, or the last one is less than the limits. -/
def Planes.LastFits (planes : Planes) (yLimit uvLimit : ℕ) : Prop :=
  planes.imageWidth = 0 ∨ planes.imageHeight = 0 ∨
    (0 < planes.imageWidth ∧ 0 < planes.imageHeight) ∧ planes.Fits yLimit uvLimit

instance (planes : Planes) (yLimit uvLimit : ℕ) : Decidable (planes.LastFits yLimit uvLimit) :=
  inferInstanceAs (Decidable (_ ∨ _ ∨ _ ∧ _))

/-- The indices of an image that has been allocated. -/
theorem Planes.HasRoom.within_iff {env : Environment} (h : planes.HasRoom env)
    (hwidth : planes.imageWidth ≤ 640) (hheight : planes.imageHeight ≤ 640)
    (hy : yLimit ≤ 2 ^ 30) (huv : uvLimit ≤ 2 ^ 30) :
    planes.Within yLimit uvLimit ↔ planes.LastFits yLimit uvLimit := by
  by_cases hzero : planes.imageWidth = 0 ∨ planes.imageHeight = 0
  · exact iff_of_true (within_of_eq_zero hzero) (or_assoc.1 (.inl hzero))
  obtain ⟨hw, hh⟩ := not_or.1 hzero
  rw [Planes.LastFits, or_iff_right hw, or_iff_right hh]
  rcases h.sign hw hh with ⟨hw, hh⟩ | ⟨hw, hh⟩
  · have hw' := Int32.lt_iff_toInt_lt.1 hw
    have hh' := Int32.lt_iff_toInt_lt.1 hh
    have hwle : planes.imageWidth.toInt ≤ 640 := Int32.le_iff_toInt_le.1 hwidth
    have hhle : planes.imageHeight.toInt ≤ 640 := Int32.le_iff_toInt_le.1 hheight
    rw [Int32.toInt_zero] at hw' hh'
    obtain ⟨m, hm⟩ := Int.eq_ofNat_of_zero_le (by omega : 0 ≤ planes.imageWidth.toInt - 1)
    obtain ⟨n, hn⟩ := Int.eq_ofNat_of_zero_le (by omega : 0 ≤ planes.imageHeight.toInt - 1)
    rw [and_iff_right ⟨hw, hh⟩]
    exact within_iff_fits (m := m) (n := n) (by omega) (by omega) (by omega) (by omega) hy huv
  · exact iff_of_false (not_within_of_neg hw hh hy) fun hfits =>
      Int32.lt_irrefl (Int32.lt_trans hw hfits.1.1)

/-! ## The requests -/

/-- The indices that are read are inside of the planes: nothing is read when the image has not
    been allocated. -/
def Environment.ReadsInside (env : Environment) (planes : Planes) : Prop :=
  ∀ image, env.newMatrix planes.imageHeight.toInt planes.imageWidth.toInt = .ok image →
    planes.Within planes.yData.length planes.uData.length ∧
    planes.Within planes.yData.length planes.vData.length

/-- The indices that a task reads are inside of the planes of the request exactly if the image is
    not allocated, has no pixel, or has its last pixel inside of the planes. -/
theorem readsInside_iff {env : Environment} {fuel : ℕ} {c c' : Socket.Connection}
    {detectorName : List UInt8}
    (h : receiveRequest.exec (env.fill fuel []) c = some (.ok (.yuv detectorName planes), c')) :
    env.ReadsInside planes ↔
      ¬planes.HasRoom env ∨ planes.LastFits planes.yData.length planes.uData.length := by
  obtain ⟨⟨-, ⟨hwidth, hheight⟩, hy, hu, hv⟩, -⟩ := of_exec_receiveRequest h
  rw [Environment.ReadsInside, hv]
  by_cases hroom : planes.HasRoom env
  · obtain ⟨image, himage⟩ := newMatrix_of_hasRoom hroom
    rw [or_iff_right (not_not_intro hroom),
      ← hroom.within_iff hwidth hheight (by omega) (by omega)]
    exact ⟨fun h => (h image himage).1, fun h _ _ => ⟨h, h⟩⟩
  · obtain ⟨e, he⟩ := newMatrix_of_not_hasRoom hroom
    refine iff_of_true (fun image himage => ?_) (.inl hroom)
    rw [he] at himage
    exact absurd himage (by simp)

/-- The task reads the grey picture inside of its planes. -/
theorem samplePlanes_readsInside : sampleEnvironment.ReadsInside samplePlanes := by
  obtain ⟨bound, c', -, hexec⟩ := exec_receiveRequest sampleEnvironment
    (by simp [sampleEnvironment]) (.yuv [] samplePlanes) (by decide)
    (c := ⟨(Request.yuv [] samplePlanes).bytes, fun _ => 0⟩) (List.append_nil _).symm
  exact (readsInside_iff (hexec bound le_rfl)).2 (by decide)

/-- The second row of the grey picture is announced far after the first one. -/
theorem wide_stride_reads_outside : ¬∀ (env : Environment) (fuel : ℕ) (c c' : Socket.Connection)
    (detectorName : List UInt8) (planes : Planes),
    receiveRequest.exec (env.fill fuel []) c = some (.ok (.yuv detectorName planes), c') →
      env.ReadsInside planes := by
  intro h
  obtain ⟨bound, c', -, hexec⟩ := exec_receiveRequest sampleEnvironment
    (by simp [sampleEnvironment]) (.yuv [] { samplePlanes with yRowStride := 1000 }) (by decide)
    (c := ⟨(Request.yuv [] { samplePlanes with yRowStride := 1000 }).bytes, fun _ => 0⟩)
    (List.append_nil _).symm
  have hreads := h _ _ _ _ _ _ (hexec bound le_rfl)
  have hwithin := (hreads _ rfl).1
  exact absurd (hwithin 1 0 (by decide) (by decide) (by decide) (by decide)).1 (by decide)

end DetectionTask

end Gaze
