import Gaze.Java.Text
import Mathlib.Data.List.MinMax

/-!
# The size of the preview

`chooseCamera` takes the first camera facing back that offers images of 640 by 480, and
`chooseOptimalSize` the size of its preview: among the sizes that are small enough and have
the aspect ratio of the largest one, the smallest that covers the view, or else the largest.
Where there is no such size, it is the first of all the sizes, whichever this is.

* `chooseCamera_eq_some`: the preview is that of an accepted camera.
* `chooseOptimalSize_of_suitable`: where some size is suitable, a suitable one is chosen, and
  no other that covers the view is smaller.
* `previewSize_small`: the preview is one of the sizes, and small enough if some suitable size
  is.
-/

namespace Gaze.Camera

open Java

/-- `Size`. -/
structure Size where
  width : Int32
  height : Int32
  deriving DecidableEq

/-- The order of the areas, which is computed with. -/
local instance areaPreorder : Preorder ℤ := Int.instLinearOrder.toPreorder

/-- What `CompareSizesByArea` compares: the product of two ints is a long, and so is the
    difference of two such products. -/
def Size.area (s : Size) : ℤ := s.width.toInt * s.height.toInt

/-- The size is within the limits. -/
def Size.Fits (maxWidth maxHeight : Int32) (option : Size) : Prop :=
  option.width ≤ maxWidth ∧ option.height ≤ maxHeight

/-- The size has the aspect ratio, as far as the arithmetic of ints tells. -/
def Size.HasRatio (aspectRatio option : Size) : Prop :=
  option.height = option.width * aspectRatio.height / aspectRatio.width

/-- The size covers the view. -/
def Size.Covers (textureViewWidth textureViewHeight : Int32) (option : Size) : Prop :=
  textureViewWidth ≤ option.width ∧ textureViewHeight ≤ option.height

instance (maxWidth maxHeight : Int32) : DecidablePred (Size.Fits maxWidth maxHeight) :=
  fun _ => inferInstanceAs (Decidable (_ ∧ _))

instance (aspectRatio : Size) : DecidablePred (Size.HasRatio aspectRatio) :=
  fun _ => inferInstanceAs (Decidable (_ = _))

instance (textureViewWidth textureViewHeight : Int32) :
    DecidablePred (Size.Covers textureViewWidth textureViewHeight) :=
  fun _ => inferInstanceAs (Decidable (_ ∧ _))

/-- The sizes within the limits that have the aspect ratio. -/
def suitable (choices : List Size) (maxWidth maxHeight : Int32) (aspectRatio : Size) : List Size :=
  choices.filter fun option => option.Fits maxWidth maxHeight ∧ aspectRatio.HasRatio option

/-- `CameraProcessor.chooseOptimalSize`. There is none if an exception is raised: a division
    by zero, or no first size. `Collections.min` and `Collections.max` give the first one of
    those with the same area. -/
def chooseOptimalSize (choices : List Size)
    (textureViewWidth textureViewHeight maxWidth maxHeight : Int32) (aspectRatio : Size) :
    Option Size :=
  if aspectRatio.width = 0 ∧ ∃ option ∈ choices, option.Fits maxWidth maxHeight then none
  else
    let options := suitable choices maxWidth maxHeight aspectRatio
    let bigEnough := options.filter fun option => option.Covers textureViewWidth textureViewHeight
    let notBigEnough :=
      options.filter fun option => ¬ option.Covers textureViewWidth textureViewHeight
    match bigEnough.argmin Size.area with
    | some size => some size
    | none =>
      match notBigEnough.argmax Size.area with
      | some size => some size
      | none => choices.head?

/-- The preview of a camera with these sizes, as `chooseCamera` asks for it. -/
def previewSize (sizes : List Size) (textureViewWidth textureViewHeight : Int32) : Option Size :=
  (sizes.argmax Size.area).bind fun largest =>
    chooseOptimalSize sizes textureViewWidth textureViewHeight 1920 1080 largest

/-- `LENS_FACING`. -/
inductive LensFacing
  | front
  | back
  | external
  deriving DecidableEq

/-- `CameraCharacteristics`, as far as `chooseCamera` looks at them. -/
structure CameraCharacteristics where
  cameraId : Text
  lensFacing : Option LensFacing
  /-- The sizes of the images, if there is a configuration map and it has some. -/
  outputSizes : Option (List Size)

/-- The sizes of the images of a camera that faces back, if 640 by 480 is one of them. -/
def CameraCharacteristics.accepted (cameraInfo : CameraCharacteristics) : Option (List Size) :=
  if cameraInfo.lensFacing = some .back then
    cameraInfo.outputSizes.filter fun sizes => ⟨640, 480⟩ ∈ sizes
  else none

/-- `CameraProcessor.chooseCamera`: the id of a camera, if there is one, and the size of its
    preview. -/
def chooseCamera (textureViewWidth textureViewHeight : Int32) :
    List CameraCharacteristics → Option (Text × Option Size)
  | [] => none
  | cameraInfo :: cameraInfos =>
    match cameraInfo.accepted with
    | some sizes =>
      some (cameraInfo.cameraId, previewSize sizes textureViewWidth textureViewHeight)
    | none => chooseCamera textureViewWidth textureViewHeight cameraInfos

variable {choices sizes : List Size} {viewWidth viewHeight maxWidth maxHeight : Int32}
  {aspectRatio option s : Size}

theorem accepted_eq_some {cameraInfo : CameraCharacteristics}
    (h : cameraInfo.accepted = some sizes) :
    cameraInfo.lensFacing = some .back ∧ cameraInfo.outputSizes = some sizes ∧
      ⟨640, 480⟩ ∈ sizes := by
  unfold CameraCharacteristics.accepted at h
  split_ifs at h with hfacing
  obtain ⟨hsizes, hmem⟩ := Option.filter_eq_some_iff.1 h
  exact ⟨hfacing, hsizes, of_decide_eq_true hmem⟩

/-- The preview is that of a camera facing back that offers images of 640 by 480. -/
theorem chooseCamera_eq_some {cameraInfos : List CameraCharacteristics} {id : Text}
    {preview : Option Size}
    (h : chooseCamera viewWidth viewHeight cameraInfos = some (id, preview)) :
    ∃ cameraInfo ∈ cameraInfos, ∃ sizes, cameraInfo.cameraId = id ∧
      cameraInfo.lensFacing = some .back ∧ cameraInfo.outputSizes = some sizes ∧
      ⟨640, 480⟩ ∈ sizes ∧ preview = previewSize sizes viewWidth viewHeight := by
  induction cameraInfos with
  | nil => cases h
  | cons cameraInfo cameraInfos ih =>
    rw [chooseCamera] at h
    cases hsizes : cameraInfo.accepted with
    | some sizes =>
      rw [hsizes] at h
      obtain ⟨rfl, rfl⟩ := Prod.mk.inj (Option.some.inj h)
      obtain ⟨hfacing, houtput, hmem⟩ := accepted_eq_some hsizes
      exact ⟨cameraInfo, List.mem_cons_self, sizes, rfl, hfacing, houtput, hmem, rfl⟩
    | none =>
      rw [hsizes] at h
      obtain ⟨c, hc, hrest⟩ := ih h
      exact ⟨c, List.mem_cons_of_mem _ hc, hrest⟩

theorem mem_suitable :
    option ∈ suitable choices maxWidth maxHeight aspectRatio ↔
      option ∈ choices ∧ option.Fits maxWidth maxHeight ∧ aspectRatio.HasRatio option := by
  rw [suitable, List.mem_filter, decide_eq_true_eq]

/-- Where some size is suitable, a suitable one is chosen, and no suitable one that covers the
    view is smaller. -/
theorem chooseOptimalSize_of_suitable (viewWidth viewHeight : Int32)
    (hratio : aspectRatio.width ≠ 0) (h : suitable choices maxWidth maxHeight aspectRatio ≠ []) :
    ∃ s ∈ suitable choices maxWidth maxHeight aspectRatio,
      chooseOptimalSize choices viewWidth viewHeight maxWidth maxHeight aspectRatio = some s ∧
      ∀ x ∈ suitable choices maxWidth maxHeight aspectRatio, x.Covers viewWidth viewHeight →
        s.Covers viewWidth viewHeight ∧ s.area ≤ x.area := by
  rw [chooseOptimalSize, if_neg fun hzero => hratio hzero.1]
  dsimp only
  cases hmin : ((suitable choices maxWidth maxHeight aspectRatio).filter fun option =>
      option.Covers viewWidth viewHeight).argmin Size.area with
  | some s =>
    obtain ⟨hs, hcovers⟩ := List.mem_filter.1 (List.argmin_mem hmin)
    refine ⟨s, hs, rfl, fun x hx hxcovers => ⟨of_decide_eq_true hcovers, ?_⟩⟩
    exact List.le_of_mem_argmin (List.mem_filter.2 ⟨hx, decide_eq_true hxcovers⟩) hmin
  | none =>
    -- No suitable size covers the view.
    have hnone : ∀ x ∈ suitable choices maxWidth maxHeight aspectRatio,
        ¬ x.Covers viewWidth viewHeight := fun x hx hcovers =>
      List.filter_eq_nil_iff.1 (List.argmin_eq_none.1 hmin) x hx (decide_eq_true hcovers)
    cases hmax : ((suitable choices maxWidth maxHeight aspectRatio).filter fun option =>
        ¬ option.Covers viewWidth viewHeight).argmax Size.area with
    | some s =>
      exact ⟨s, (List.mem_filter.1 (List.argmax_mem hmax)).1, rfl, fun x hx hcovers =>
        absurd hcovers (hnone x hx)⟩
    | none =>
      obtain ⟨x, hx⟩ := List.exists_mem_of_ne_nil _ h
      exact absurd (decide_eq_true (hnone x hx))
        (List.filter_eq_nil_iff.1 (List.argmax_eq_none.1 hmax) x hx)

/-- Where no size is suitable, the first of them is chosen. -/
theorem chooseOptimalSize_of_not_suitable (hratio : aspectRatio.width ≠ 0)
    (h : suitable choices maxWidth maxHeight aspectRatio = []) :
    chooseOptimalSize choices viewWidth viewHeight maxWidth maxHeight aspectRatio =
      choices.head? := by
  rw [chooseOptimalSize, if_neg fun hzero => hratio hzero.1, h]
  rfl

/-- The preview is one of the sizes. It is small enough if a size that is has the aspect ratio
    of the largest one, and else it is the first size. -/
theorem previewSize_small (hpos : ∀ x ∈ choices, 0 < x.width ∧ 0 < x.height)
    (hmem : ⟨640, 480⟩ ∈ choices) :
    ∃ largest s, choices.argmax Size.area = some largest ∧
      previewSize choices viewWidth viewHeight = some s ∧ s ∈ choices ∧
      ((∃ x ∈ choices, x.Fits 1920 1080 ∧ largest.HasRatio x) →
        s.Fits 1920 1080 ∧ largest.HasRatio s) ∧
      ((¬ ∃ x ∈ choices, x.Fits 1920 1080 ∧ largest.HasRatio x) → choices.head? = some s) := by
  cases hlargest : choices.argmax Size.area with
  | none => exact absurd hmem (List.argmax_eq_none.1 hlargest ▸ List.not_mem_nil)
  | some largest =>
    have hwidth : largest.width ≠ 0 :=
      (Int32.ne_of_lt (hpos largest (List.argmax_mem hlargest)).1).symm
    rw [previewSize, hlargest, Option.bind_some]
    by_cases hnil : suitable choices 1920 1080 largest = []
    · have hnone : ¬ ∃ x ∈ choices, x.Fits 1920 1080 ∧ largest.HasRatio x :=
        fun ⟨x, hx, hsuitable⟩ =>
          List.eq_nil_iff_forall_not_mem.1 hnil x (mem_suitable.2 ⟨hx, hsuitable⟩)
      rw [chooseOptimalSize_of_not_suitable hwidth hnil]
      obtain ⟨first, rest, rfl⟩ := List.exists_cons_of_ne_nil (List.ne_nil_of_mem hmem)
      exact ⟨largest, first, rfl, rfl, List.mem_cons_self, fun h => absurd h hnone, fun _ => rfl⟩
    · obtain ⟨s, hs, hchosen, -⟩ := chooseOptimalSize_of_suitable viewWidth viewHeight hwidth
        hnil
      obtain ⟨hmems, hsuitable⟩ := mem_suitable.1 hs
      exact ⟨largest, s, rfl, hchosen, hmems, fun _ => hsuitable,
        fun hnone => absurd ⟨s, hmems, hsuitable⟩ hnone⟩

theorem previewSize_small_wide :
    ∃ largest s, ([⟨1920, 1080⟩, ⟨640, 480⟩] : List Size).argmax Size.area = some largest ∧
      previewSize [⟨1920, 1080⟩, ⟨640, 480⟩] 1080 1920 = some s ∧
      s ∈ ([⟨1920, 1080⟩, ⟨640, 480⟩] : List Size) ∧
      ((∃ x ∈ ([⟨1920, 1080⟩, ⟨640, 480⟩] : List Size), x.Fits 1920 1080 ∧ largest.HasRatio x) →
        s.Fits 1920 1080 ∧ largest.HasRatio s) ∧
      ((¬ ∃ x ∈ ([⟨1920, 1080⟩, ⟨640, 480⟩] : List Size),
        x.Fits 1920 1080 ∧ largest.HasRatio x) →
          ([⟨1920, 1080⟩, ⟨640, 480⟩] : List Size).head? = some s) :=
  previewSize_small (by decide) (by decide)

/-- Of the two sizes of a camera with a wide sensor, neither is suitable. -/
theorem not_previewSize_small_sensor :
    ¬ ∀ (choices : List Size) (viewWidth viewHeight : Int32),
      (∀ x ∈ choices, 0 < x.width ∧ 0 < x.height) → ⟨640, 480⟩ ∈ choices →
      ∃ s ∈ choices, previewSize choices viewWidth viewHeight = some s ∧ s.Fits 1920 1080 := by
  intro h
  obtain ⟨s, -, hs, hfits⟩ := h [⟨4000, 2250⟩, ⟨640, 480⟩] 1080 1920 (by decide) (by decide)
  have hfirst : previewSize [⟨4000, 2250⟩, ⟨640, 480⟩] 1080 1920 = some ⟨4000, 2250⟩ := by decide
  rw [← Option.some.inj (hfirst.symm.trans hs)] at hfits
  exact absurd hfits (by decide)

end Gaze.Camera
