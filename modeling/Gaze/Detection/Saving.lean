import Gaze.Java.Text
import Gaze.Machine
import Gaze.Numbering
import Gaze.Writes

/-!
# The images that the detection server saves

Each image that is sent to a detector is saved in a file, named after the detector and
numbered. The first number is the first one that no file has (`saveImage` tries them one
after the other); the next ones follow it, and are not tried.

* `imageName_inj`: the name of a file says which detector it is for, and its number.
* `Saved`: the files there are, and the numbers remembered, after some calls.
* `saves_new_iff`: no file is written over exactly if no number that follows the first free one,
  as far as the calls go, was taken initially.
-/

namespace Gaze.FHOGDetector

open Java Numbering

/-- The name of a file in which an image is saved. -/
def imageName (detectorName : Text) (index : ℕ) : Text :=
  "../saved_images/sample_".toList ++ (detectorName ++ '_' :: (Nat.toDigits 10 index ++
    ".jpg".toList))

/-- What `saveImage` reads and writes: the names of the files, and the numbers remembered. -/
structure Saving where
  files : List Text
  imageNameIndices : AList fun _ : Text => ℕ

/-- A call of `saveImage`, and whether the file can be written. -/
structure Save where
  detectorName : Text
  written : Bool

/-- The number of the file that `saveImage` writes. It is an `int`: from `2 ^ 31` on, the
    behaviour is undefined. -/
def Saving.index (s : Saving) (detectorName : Text) : ℕ :=
  match s.imageNameIndices.lookup detectorName with
  | none => firstFree (imageName detectorName) s.files 1
  | some index => index + 1

/-- `FHOGDetector::saveImage`. -/
def Saving.saveImage (s : Saving) (call : Save) : Saving where
  files :=
    if call.written then imageName call.detectorName (s.index call.detectorName) :: s.files
    else s.files
  imageNameIndices := s.imageNameIndices.insert call.detectorName (s.index call.detectorName)

/-- The calls of a server that has just been started, with the files there are. -/
def saves (files : List Text) : Machine Saving Save where
  Init s := s = ⟨files, ∅⟩
  Enabled _ _ := True
  step s call := s.saveImage call

/-- The call is defined, and writes over no file. -/
def SavesNew (s : Saving) (call : Save) : Prop :=
  s.index call.detectorName < 2 ^ 31 ∧
    (call.written → imageName call.detectorName (s.index call.detectorName) ∉ s.files)

variable {files : List Text} {detectorName detectorName' : Text} {index index' : ℕ}

/-! ## Names -/

theorem not_mem_toDigits (n : ℕ) : '_' ∉ Nat.toDigits 10 n := fun h =>
  absurd (Nat.isDigit_of_mem_toDigits (by decide) (by decide) h) (by decide)

/-- What follows the last separator, and what precedes it. -/
theorem append_cons_inj {sep : Char} {s s' t t' : Text} (ht : sep ∉ t) (ht' : sep ∉ t')
    (h : s ++ sep :: t = s' ++ sep :: t') : s = s' ∧ t = t' := by
  induction s generalizing s' with
  | nil =>
    cases s' with
    | nil => exact ⟨rfl, (List.cons.inj h).2⟩
    | cons c s' =>
      refine absurd ?_ ht
      rw [(List.cons.inj h).2]
      exact List.mem_append_right _ List.mem_cons_self
  | cons c s ih =>
    cases s' with
    | nil =>
      refine absurd ?_ ht'
      rw [← (List.cons.inj h).2]
      exact List.mem_append_right _ List.mem_cons_self
    | cons c' s' =>
      obtain ⟨rfl, htail⟩ := List.cons.inj h
      obtain ⟨rfl, rfl⟩ := ih htail
      exact ⟨rfl, rfl⟩

/-- The name of a file says which detector it is for, and its number. -/
theorem imageName_inj (h : imageName detectorName index = imageName detectorName' index') :
    detectorName = detectorName' ∧ index = index' := by
  have hrest := List.append_cancel_left h
  rw [← List.cons_append, ← List.cons_append, ← List.append_assoc, ← List.append_assoc] at hrest
  obtain ⟨hname, hdigits⟩ := append_cons_inj (not_mem_toDigits _) (not_mem_toDigits _)
    (List.append_cancel_right hrest)
  refine ⟨hname, ?_⟩
  have hparse := congrArg (parseDigits 10) hdigits
  rw [parseDigits_toDigits, parseDigits_toDigits] at hparse
  exact Option.some.inj hparse

theorem imageName_injective (detectorName : Text) : Function.Injective (imageName detectorName) :=
  fun _ _ h => (imageName_inj h).2

/-! ## The files and the numbers after some calls -/

/-- The calls for a detector. -/
def countFor (detectorName : Text) (calls : List Save) : ℕ :=
  calls.countP (·.detectorName = detectorName)

/-- The number of the next file for a detector, after some calls: those that follow the first
    number that was free initially. -/
def nextIndex (files : List Text) (calls : List Save) (detectorName : Text) : ℕ :=
  firstFree (imageName detectorName) files 1 + countFor detectorName calls

/-- After some calls, the files there are are those of the beginning and some of the numbers
    used since, and the last number for each detector is remembered. -/
structure Saved (files : List Text) (calls : List Save) (s : Saving) : Prop where
  kept : files ⊆ s.files
  numbered : ∀ detectorName index, imageName detectorName index ∈ s.files →
    imageName detectorName index ∈ files ∨
      0 < countFor detectorName calls ∧ index < nextIndex files calls detectorName
  remembered : ∀ detectorName, s.imageNameIndices.lookup detectorName =
    if countFor detectorName calls = 0 then none
    else some (nextIndex files calls detectorName - 1)

variable {calls : List Save} {s : Saving}

/-- The number of the next file. -/
theorem Saved.index_eq (h : Saved files calls s) (detectorName : Text) :
    s.index detectorName = nextIndex files calls detectorName := by
  rw [Saving.index, h.remembered]
  by_cases hcount : countFor detectorName calls = 0
  · rw [if_pos hcount]
    -- No file for the detector has been saved yet.
    have htaken : ∀ index, imageName detectorName index ∈ s.files ↔
        imageName detectorName index ∈ files := fun index =>
      ⟨fun hmem => (h.numbered detectorName index hmem).resolve_right fun hpos => by omega,
        fun hmem => h.kept hmem⟩
    rw [nextIndex, hcount, Nat.add_zero]
    exact firstFree_congr (imageName_injective detectorName) htaken
  · rw [if_neg hcount]
    have hpos : 0 < nextIndex files calls detectorName :=
      Nat.lt_of_lt_of_le (Nat.pos_of_ne_zero hcount) (Nat.le_add_left _ _)
    exact Nat.sub_add_cancel hpos

theorem countFor_append (call : Save) : countFor detectorName (calls ++ [call]) =
    countFor detectorName calls + if call.detectorName = detectorName then 1 else 0 := by
  rw [countFor, List.countP_append, List.countP_singleton]
  simp only [decide_eq_true_eq, countFor]

theorem nextIndex_append (call : Save) : nextIndex files (calls ++ [call]) detectorName =
    nextIndex files calls detectorName + if call.detectorName = detectorName then 1 else 0 := by
  rw [nextIndex, countFor_append, ← Nat.add_assoc, nextIndex]

theorem saved_nil (files : List Text) : Saved files [] ⟨files, ∅⟩ :=
  ⟨List.Subset.refl _, fun _ _ h => .inl h, fun _ => rfl⟩

theorem Saved.saveImage (h : Saved files calls s) (call : Save) :
    Saved files (calls ++ [call]) (s.saveImage call) := by
  refine ⟨?_, fun detectorName index hmem => ?_, fun detectorName => ?_⟩
  · unfold Saving.saveImage
    dsimp only
    split_ifs
    · exact List.subset_cons_of_subset _ h.kept
    · exact h.kept
  · rw [nextIndex_append, countFor_append]
    have hcases : imageName detectorName index = imageName call.detectorName
        (s.index call.detectorName) ∨ imageName detectorName index ∈ s.files := by
      unfold Saving.saveImage at hmem
      dsimp only at hmem
      split_ifs at hmem
      · exact List.mem_cons.1 hmem
      · exact .inr hmem
    rcases hcases with hnew | hold
    · -- The file that the call writes has the next number.
      obtain ⟨rfl, rfl⟩ := imageName_inj hnew
      rw [if_pos rfl, h.index_eq]
      exact .inr ⟨Nat.succ_pos _, Nat.lt_succ_self _⟩
    · refine (h.numbered detectorName index hold).imp_right fun ⟨hpos, hlt⟩ => ⟨?_, ?_⟩
      · exact Nat.add_pos_left hpos _
      · exact Nat.lt_add_right _ hlt
  · rw [nextIndex_append, countFor_append, Saving.saveImage, Writes.lookup_insert, h.index_eq]
    split_ifs with hname hzero
    · omega
    · rw [hname]
      rfl
    · rw [h.remembered, if_pos (by omega)]
    · rw [h.remembered, if_neg (by omega)]
      rfl

theorem saved_after (files : List Text) (calls : List Save) :
    Saved files calls ((saves files).after ⟨files, ∅⟩ calls) := by
  induction calls using List.reverseRecOn with
  | nil => exact saved_nil files
  | append_singleton calls call ih =>
    rw [Machine.after_append]
    exact ih.saveImage call

/-- A call writes over no file exactly if its number was not taken initially. -/
theorem Saved.savesNew_iff (h : Saved files calls s) (call : Save) :
    SavesNew s call ↔ nextIndex files calls call.detectorName < 2 ^ 31 ∧
      (call.written →
        imageName call.detectorName (nextIndex files calls call.detectorName) ∉ files) := by
  rw [SavesNew, h.index_eq]
  refine and_congr_right fun _ => imp_congr_right fun _ => not_congr ?_
  constructor
  · intro hmem
    refine (h.numbered _ _ hmem).resolve_right fun hlt => ?_
    exact Nat.lt_irrefl _ hlt.2
  · exact fun hmem => h.kept hmem

/-- No call writes over a file exactly if, at each of them, the number that follows the first
    free one by the number of earlier calls for the detector was not taken initially. -/
theorem saves_new_iff (files : List Text) (calls : List Save) :
    (saves files).Along SavesNew ⟨files, ∅⟩ calls ↔
      ∀ before call rest, calls = before ++ call :: rest →
        nextIndex files before call.detectorName < 2 ^ 31 ∧
        (call.written →
          imageName call.detectorName (nextIndex files before call.detectorName) ∉ files) := by
  rw [Machine.along_iff_forall]
  exact forall_congr' fun before => forall_congr' fun call => forall_congr' fun rest =>
    imp_congr_right fun _ => (saved_after files before).savesNew_iff call

/-- The second file is written over, where the first one is missing. -/
theorem not_saves_new_gap : ¬ ∀ (files : List Text) (calls : List Save),
    (saves files).Along SavesNew ⟨files, ∅⟩ calls := by
  intro h
  obtain ⟨-, ⟨-, hnew⟩, -⟩ := h [imageName ['x'] 2] [⟨['x'], true⟩, ⟨['x'], true⟩]
  refine hnew rfl ?_
  decide

end Gaze.FHOGDetector
