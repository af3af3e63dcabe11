import Gaze.Machine

/-!
# The camera

The UI thread opens and closes the camera, focuses it and captures images; a handler
thread runs the callbacks of the camera. The semaphore `cameraOpenCloseLock`, which
has one permit, excludes these operations from each other. The UI thread acquires it
at the beginning of an operation. The end of an operation is most often a callback,
which releases it: the answer of the device that has been opened, or the completion of
a request, recognised by its tag.

* `permits_add_owed`: the permits, and the operations that have not released theirs,
  account for one permit, the releases that came again, and the permits that have
  been lost.
* `permits_le_one`: as long as no callback releases the permit again, there is at most
  one.
* `permits_le_one_iff`: exactly then, if all the operations are over and none has lost
  its permit.
-/

namespace Gaze

namespace Camera

/-- The tags of the requests: `"PreviewSession"`, `"FOCUS_TAG"` and `"CAPTURE_TAG"`. -/
inductive Tag
  | previewSession
  | focus
  | capture
  deriving DecidableEq

/-- The calls of `capture`. -/
inductive Shot
  /-- The first one of `focusOnPoint`, which cancels the autofocus. -/
  | cancel
  /-- The second one of `focusOnPoint`, which starts it. -/
  | focus
  /-- The one of `captureImage`. -/
  | image
  deriving DecidableEq

/-- A request that has been submitted, with the tag its builder had. -/
structure Request where
  shot : Shot
  tag : Option Tag
  deriving DecidableEq

/-- The tag that the callback of a request looks for. -/
def Shot.expected : Shot → Tag
  | .cancel | .focus => .focus
  | .image => .capture

/-- The completion of the request releases the lock. -/
def Request.unlocks (r : Request) : Bool := r.tag = some r.shot.expected

/-- What is known of a device. -/
inductive Device
  /-- `openCamera` has been called. -/
  | opening
  /-- It is creating a capture session. -/
  | configuring
  /-- It has called back. -/
  | answered
  deriving DecidableEq

/-- The operations that exclude each other. -/
inductive Operation
  | openCamera
  | focusOnPoint
  | captureImage
  | stop
  deriving DecidableEq

/-- Where the UI thread is. -/
inductive Stage
  | idle
  /-- In `lockCamera`. -/
  | locking (op : Operation)
  /-- After `lockCamera`. -/
  | locked (op : Operation)
  /-- In `focusOnPoint`, after its first `capture`. -/
  | cancelled
  /-- In `focusOnPoint`, after `setTag`. -/
  | tagged
  deriving DecidableEq

/-- Whether `chooseCamera` finds a camera, and whether its permission is granted. -/
inductive Choice
  | notFound
  | denied
  | chosen
  deriving DecidableEq

/-- How far `createCaptureSession` goes, until an exception. -/
inductive Creation
  /-- There is no builder. -/
  | refused
  /-- The builder has no tag. -/
  | untagged
  /-- The builder has a tag, but no session has been requested. -/
  | tagged
  | requested
  deriving DecidableEq

/-- The exceptions. -/
inductive Throwable
  | cameraAccess
  | other
  deriving DecidableEq

/-- The permit that the UI thread holds. -/
def Stage.held : Stage → ℕ
  | .idle | .locking _ => 0
  | .locked _ | .cancelled | .tagged => 1

@[simp] theorem Stage.held_idle : Stage.idle.held = 0 := rfl

@[simp] theorem Stage.held_locking (op : Operation) : (Stage.locking op).held = 0 := rfl

@[simp] theorem Stage.held_locked (op : Operation) : (Stage.locked op).held = 1 := rfl

@[simp] theorem Stage.held_cancelled : Stage.cancelled.held = 1 := rfl

@[simp] theorem Stage.held_tagged : Stage.tagged.held = 1 := rfl

end Camera

/-- A `CameraProcessor`, with the devices it has opened, the requests that have been
    submitted and have not called back, and its UI thread. -/
structure CameraProcessor where
  /-- The permits of `cameraOpenCloseLock`. -/
  permits : ℕ
  camera : Option ℕ
  captureSession : Option ℕ
  /-- The tag of `requestBuilder`, if there is a builder. -/
  requestBuilder : Option (Option Camera.Tag)
  /-- `imageReader` is not `null`. -/
  imageReader : Bool
  devices : List Camera.Device
  requests : List Camera.Request
  stage : Camera.Stage
  deriving DecidableEq

namespace CameraProcessor

open Camera

/-- A new `CameraProcessor`. -/
def new : CameraProcessor where
  permits := 1
  camera := none
  captureSession := none
  requestBuilder := none
  imageReader := false
  devices := []
  requests := []
  stage := .idle

/-- The calls and the callbacks, and the steps of the UI thread. -/
inductive Event
  /-- `start`, with a texture that is available or not. -/
  | start (available : Bool) (choice : Choice)
  | onSurfaceTextureAvailable (choice : Choice)
  | focusOnPoint
  | captureImage
  | stop
  /-- The UI thread acquires the lock. -/
  | locks
  /-- It calls `openCamera` on the camera manager. -/
  | opens
  /-- It captures the first request of `focusOnPoint`. -/
  | cancels
  /-- It tags the builder. -/
  | tags
  /-- It captures the second request of `focusOnPoint`. -/
  | focuses
  /-- It captures the request of `captureImage`. -/
  | captures
  /-- It closes the camera. -/
  | closes
  /-- It throws an exception. -/
  | throws (e : Camera.Throwable)
  | onOpened (d : ℕ) (creation : Creation)
  | onConfigured (d : ℕ)
  | onDisconnected (d : ℕ)
  /-- The listener is notified of the error, and may throw an exception. -/
  | onError (d : ℕ) (notified : Bool)
  | onCaptureCompleted (r : Request)
  | onCaptureFailed (r : Request)
  deriving DecidableEq

/-- `CameraProcessor.lockCamera`, once there is a permit. -/
def lockCamera (s : CameraProcessor) (op : Operation) : CameraProcessor :=
  { s with permits := s.permits - 1, stage := .locked op }

/-- `CameraProcessor.unlockCamera`. -/
def unlockCamera (s : CameraProcessor) : CameraProcessor := { s with permits := s.permits + 1 }

/-- `CameraProcessor.openCamera`, until it locks the camera. -/
def openCamera (s : CameraProcessor) : Choice → CameraProcessor
  | .notFound => s
  | .denied => { s with imageReader := true }
  | .chosen => { s with imageReader := true, stage := .locking .openCamera }

/-- `focusOnPoint` and `captureImage` do nothing without a session. -/
def withSession (s : CameraProcessor) (op : Operation) : CameraProcessor :=
  if s.captureSession.isSome then { s with stage := .locking op } else s

/-- `captureSession.capture`, with a request built with the given tag. -/
def capture (s : CameraProcessor) (shot : Shot) (tag : Option Tag) : CameraProcessor :=
  { s with requests := s.requests ++ [⟨shot, tag⟩] }

/-- `CameraProcessor.closeCamera`. -/
def closeCamera (s : CameraProcessor) : CameraProcessor :=
  { s with captureSession := none, camera := none, imageReader := false }

/-- `CameraProcessor.createCaptureSession`. -/
def createCaptureSession (s : CameraProcessor) (d : ℕ) : Creation → CameraProcessor
  | .refused => s
  | .untagged => { s with requestBuilder := some none }
  | .tagged => { s with requestBuilder := some (some .previewSession) }
  | .requested =>
    { s with
      requestBuilder := some (some .previewSession)
      devices := s.devices.set d .configuring }

/-- A device that was opening has called back. -/
def answered (s : CameraProcessor) (d : ℕ) : CameraProcessor :=
  if s.devices[d]? = some .opening then { s with devices := s.devices.set d .answered } else s

/-- A request has called back. -/
def dropRequest (s : CameraProcessor) (r : Request) : CameraProcessor :=
  { s with requests := s.requests.erase r }

/-- An exception of the UI thread. Only `focusOnPoint` and `captureImage` catch a
    `CameraAccessException` and unlock the camera. -/
def thrown (s : CameraProcessor) : Camera.Throwable → CameraProcessor
  | .cameraAccess =>
    if s.stage = .locked .openCamera then { s with stage := .idle }
    else { s with stage := .idle }.unlockCamera
  | .other => { s with stage := .idle }

/-- What a call, a callback or a step does. -/
def next (s : CameraProcessor) : Event → CameraProcessor
  | .start available choice => if available then s.openCamera choice else s
  | .onSurfaceTextureAvailable choice => s.openCamera choice
  | .focusOnPoint => s.withSession .focusOnPoint
  | .captureImage => s.withSession .captureImage
  | .stop => { s with stage := .locking .stop }
  | .locks =>
    match s.stage with
    | .locking op => s.lockCamera op
    | _ => s
  | .opens => { s with devices := s.devices ++ [.opening], stage := .idle }
  | .cancels => { s.capture .cancel s.requestBuilder.join with stage := .cancelled }
  | .tags =>
    { s with
      requestBuilder := s.requestBuilder.map fun _ => some .focus
      stage := .tagged }
  | .focuses => { s.capture .focus s.requestBuilder.join with stage := .idle }
  | .captures => { s.capture .image (some .capture) with stage := .idle }
  | .closes => { s.closeCamera with stage := .idle }.unlockCamera
  | .throws e => s.thrown e
  | .onOpened d creation =>
    (({ s with camera := some d }.answered d).createCaptureSession d creation).unlockCamera
  | .onConfigured d =>
    { s with captureSession := some d, devices := s.devices.set d .answered }
  | .onDisconnected d => (s.answered d).unlockCamera
  | .onError d notified => if notified then (s.answered d).unlockCamera else s.answered d
  | .onCaptureCompleted r =>
    if r.unlocks then (s.dropRequest r).unlockCamera else s.dropRequest r
  | .onCaptureFailed r => (s.dropRequest r).unlockCamera

/-- The UI thread has the lock, and is not closing the camera. -/
def Working (s : CameraProcessor) : Prop :=
  s.stage = .locked .focusOnPoint ∨ s.stage = .cancelled ∨ s.stage = .tagged ∨
    s.stage = .locked .captureImage

/-- The UI thread does one thing at a time, waits for a permit, and needs what is not
    `null`. A device that is opening calls `onOpened` once, and a request calls back
    once; a device may be disconnected, or have an error, at any time. -/
def Enabled (s : CameraProcessor) : Event → Prop
  | .start _ _ | .onSurfaceTextureAvailable _ | .focusOnPoint | .captureImage | .stop =>
    s.stage = .idle
  | .locks => (∃ op, s.stage = .locking op) ∧ 0 < s.permits
  | .opens => s.stage = .locked .openCamera
  | .cancels => s.stage = .locked .focusOnPoint ∧ s.captureSession.isSome ∧ s.requestBuilder.isSome
  | .tags => s.stage = .cancelled
  | .focuses => s.stage = .tagged ∧ s.captureSession.isSome
  | .captures => s.stage = .locked .captureImage ∧ s.captureSession.isSome ∧ s.camera.isSome ∧
      s.imageReader
  | .closes => s.stage = .locked .stop
  | .throws e => s.stage = .locked .openCamera ∨
      s.Working ∧ (e = .cameraAccess → s.captureSession.isSome)
  | .onOpened d _ => s.devices[d]? = some .opening
  | .onConfigured d => s.devices[d]? = some .configuring
  | .onDisconnected d | .onError d _ => d < s.devices.length
  | .onCaptureCompleted r | .onCaptureFailed r => r ∈ s.requests

/-- The runs of a `CameraProcessor`. -/
def machine : Machine CameraProcessor Event where
  Init s := s = new
  Enabled := Enabled
  step := next

/-! ## The operations and their permits -/

/-- The operations that have not released their permit: the one of the UI thread, and those
    that are waiting for a callback. -/
def owed (s : CameraProcessor) : ℕ :=
  s.stage.held + s.devices.count .opening + s.requests.countP fun r => r.shot ≠ .cancel

/-- A callback releases the permit of an operation that has released it, or will: a device
    has called back already, or the request is the first one of `focusOnPoint`. -/
def ReleasesAgain (s : CameraProcessor) : Event → Prop
  | .onDisconnected d => s.devices[d]? ≠ some .opening
  | .onError d notified => s.devices[d]? ≠ some .opening ∧ notified
  | .onCaptureCompleted r => r.shot = .cancel ∧ r.unlocks
  | .onCaptureFailed r => r.shot = .cancel
  | _ => False

/-- An operation is over, without having released its permit: after an exception, or because
    its request had another tag. -/
def Loses (s : CameraProcessor) : Event → Prop
  | .throws e => e = .other ∨ s.stage = .locked .openCamera
  | .onError d notified => s.devices[d]? = some .opening ∧ ¬notified
  | .onCaptureCompleted r => r.shot ≠ .cancel ∧ ¬r.unlocks
  | _ => False

instance (s : CameraProcessor) : Decidable s.Working :=
  inferInstanceAs (Decidable (_ ∨ _ ∨ _ ∨ _))

instance (s : CameraProcessor) : Decidable (∃ op, s.stage = .locking op) :=
  match s.stage with
  | .locking op => isTrue ⟨op, rfl⟩
  | .idle | .locked _ | .cancelled | .tagged => isFalse (by simp)

instance (s : CameraProcessor) : ∀ e, Decidable (machine.Enabled s e)
  | .start _ _ | .onSurfaceTextureAvailable _ | .focusOnPoint | .captureImage | .stop =>
    inferInstanceAs (Decidable (s.stage = .idle))
  | .locks => inferInstanceAs (Decidable ((∃ op, s.stage = .locking op) ∧ 0 < s.permits))
  | .opens => inferInstanceAs (Decidable (s.stage = .locked .openCamera))
  | .cancels => inferInstanceAs (Decidable (_ ∧ _ ∧ _))
  | .tags => inferInstanceAs (Decidable (s.stage = .cancelled))
  | .focuses => inferInstanceAs (Decidable (_ ∧ _))
  | .captures => inferInstanceAs (Decidable (_ ∧ _ ∧ _ ∧ _))
  | .closes => inferInstanceAs (Decidable (s.stage = .locked .stop))
  | .throws e => inferInstanceAs (Decidable (s.stage = .locked .openCamera ∨
      s.Working ∧ (e = .cameraAccess → s.captureSession.isSome)))
  | .onOpened d _ => inferInstanceAs (Decidable (s.devices[d]? = some .opening))
  | .onConfigured d => inferInstanceAs (Decidable (s.devices[d]? = some .configuring))
  | .onDisconnected d | .onError d _ => inferInstanceAs (Decidable (d < s.devices.length))
  | .onCaptureCompleted r | .onCaptureFailed r => inferInstanceAs (Decidable (r ∈ s.requests))

instance (s : CameraProcessor) : ∀ e, Decidable (s.ReleasesAgain e)
  | .onDisconnected d => inferInstanceAs (Decidable (s.devices[d]? ≠ some .opening))
  | .onError d notified => inferInstanceAs (Decidable (s.devices[d]? ≠ some .opening ∧ notified))
  | .onCaptureCompleted r => inferInstanceAs (Decidable (r.shot = .cancel ∧ r.unlocks))
  | .onCaptureFailed r => inferInstanceAs (Decidable (r.shot = .cancel))
  | .start _ _ | .onSurfaceTextureAvailable _ | .focusOnPoint | .captureImage | .stop | .locks
  | .opens | .cancels | .tags | .focuses | .captures | .closes | .throws _ | .onOpened _ _
  | .onConfigured _ => inferInstanceAs (Decidable False)

instance (s : CameraProcessor) : ∀ e, Decidable (s.Loses e)
  | .throws e => inferInstanceAs (Decidable (e = .other ∨ s.stage = .locked .openCamera))
  | .onError d notified => inferInstanceAs (Decidable (s.devices[d]? = some .opening ∧ ¬notified))
  | .onCaptureCompleted r => inferInstanceAs (Decidable (r.shot ≠ .cancel ∧ ¬r.unlocks))
  | .start _ _ | .onSurfaceTextureAvailable _ | .focusOnPoint | .captureImage | .stop | .locks
  | .opens | .cancels | .tags | .focuses | .captures | .closes | .onOpened _ _ | .onConfigured _
  | .onDisconnected _ | .onCaptureFailed _ => inferInstanceAs (Decidable False)

variable {s : CameraProcessor} {e : Event} {es : List Event}

@[simp] theorem permits_unlockCamera : s.unlockCamera.permits = s.permits + 1 := rfl

@[simp] theorem owed_unlockCamera : s.unlockCamera.owed = s.owed := rfl

/-- A device that was opening has called back. -/
theorem count_set (devices : List Device) (d : ℕ) (device : Device) (h : device ≠ .opening) :
    (devices.set d device).count .opening + (if devices[d]? = some .opening then 1 else 0) =
      devices.count .opening := by
  by_cases hd : d < devices.length
  · rw [List.count_set hd, List.getElem?_eq_getElem hd]
    by_cases hget : devices[d] = .opening
    · have hpos : 0 < devices.count .opening := List.count_pos_iff.2 (hget ▸ List.getElem_mem hd)
      simp [hget, h]
      omega
    · simp [hget, h]
  · rw [List.set_eq_of_length_le (Nat.le_of_not_lt hd),
      List.getElem?_eq_none (Nat.le_of_not_lt hd)]
    simp

/-- A request has called back. -/
theorem countP_erase {requests : List Request} {r : Request} (hr : r ∈ requests)
    (p : Request → Bool) :
    (requests.erase r).countP p + (if p r then 1 else 0) = requests.countP p := by
  rw [(List.perm_cons_erase hr).countP_eq p, List.countP_cons]

/-! ## What operations owe -/

/-- The UI thread holds a permit when it throws an exception. -/
theorem held_of_throws {exception : Camera.Throwable} (he : s.Enabled (.throws exception)) :
    s.stage.held = 1 := by
  rcases he with h | ⟨h | h | h | h, -⟩ <;> rw [h] <;> rfl

/-- The UI thread moves on. -/
theorem owed_stage (s : CameraProcessor) (stage : Stage) :
    owed { s with stage := stage } + s.stage.held = s.owed + stage.held := by
  simp only [owed]
  omega

theorem owed_openCamera (hstage : s.stage = .idle) (choice : Choice) :
    (s.openCamera choice).permits = s.permits ∧ (s.openCamera choice).owed = s.owed := by
  cases choice <;> simp [openCamera, owed, hstage]

theorem owed_withSession (hstage : s.stage = .idle) (op : Operation) :
    (s.withSession op).permits = s.permits ∧ (s.withSession op).owed = s.owed := by
  rw [withSession]
  split_ifs <;> simp [owed, hstage]

theorem owed_answered (s : CameraProcessor) (d : ℕ) : (s.answered d).permits = s.permits ∧
    (s.answered d).owed + (if s.devices[d]? = some .opening then 1 else 0) = s.owed := by
  rw [answered]
  by_cases hd : s.devices[d]? = some .opening
  · have hcount := count_set s.devices d .answered (by decide)
    simp only [if_pos hd, owed] at hcount ⊢
    exact ⟨trivial, by omega⟩
  · simp only [if_neg hd]
    exact ⟨trivial, rfl⟩

theorem getElem_answered {d : ℕ} (hd : s.devices[d]? = some .opening) :
    (s.answered d).devices[d]? = some .answered := by
  rw [answered, if_pos hd]
  exact List.getElem?_set_self (List.getElem?_eq_some_iff.1 hd).1

theorem owed_createCaptureSession {d : ℕ} (hd : s.devices[d]? ≠ some .opening)
    (creation : Creation) : (s.createCaptureSession d creation).permits = s.permits ∧
      (s.createCaptureSession d creation).owed = s.owed := by
  cases creation with
  | requested =>
    have hcount := count_set s.devices d .configuring (by decide)
    rw [if_neg hd] at hcount
    simp only [createCaptureSession, owed]
    exact ⟨trivial, by omega⟩
  | _ => exact ⟨rfl, rfl⟩

theorem owed_onOpened {d : ℕ} (hd : s.devices[d]? = some .opening) (creation : Creation) :
    (s.next (.onOpened d creation)).permits = s.permits + 1 ∧
      (s.next (.onOpened d creation)).owed + 1 = s.owed := by
  have hd' : ({ s with camera := some d } : CameraProcessor).devices[d]? = some .opening := hd
  obtain ⟨hpermits, howed⟩ := owed_answered { s with camera := some d } d
  obtain ⟨hpermits', howed'⟩ := owed_createCaptureSession
    (by rw [getElem_answered hd']; decide) creation
  rw [if_pos hd'] at howed
  rw [next, permits_unlockCamera, owed_unlockCamera, hpermits', howed', hpermits]
  exact ⟨rfl, howed⟩

theorem owed_dropRequest {r : Request} (hr : r ∈ s.requests) :
    (s.dropRequest r).permits = s.permits ∧
      (s.dropRequest r).owed + (if r.shot ≠ .cancel then 1 else 0) = s.owed := by
  have hcount := countP_erase hr fun r => r.shot ≠ .cancel
  simp only [decide_eq_true_eq] at hcount
  refine ⟨rfl, ?_⟩
  rw [owed, owed, ← hcount, ← Nat.add_assoc]
  rfl

/-! ## The permits -/

/-- A step that releases what it owes, once. -/
theorem permits_next_of_neither (hlose : ¬s.Loses e) (hagain : ¬s.ReleasesAgain e)
    (h : (s.next e).permits + (s.next e).owed = s.permits + s.owed) :
    (s.next e).permits + (s.next e).owed + (if s.Loses e then 1 else 0) =
      s.permits + s.owed + (if s.ReleasesAgain e then 1 else 0) := by
  rw [if_neg hlose, if_neg hagain, h]

theorem permits_next_of_loses (hlose : s.Loses e) (hagain : ¬s.ReleasesAgain e)
    (h : (s.next e).permits + (s.next e).owed + 1 = s.permits + s.owed) :
    (s.next e).permits + (s.next e).owed + (if s.Loses e then 1 else 0) =
      s.permits + s.owed + (if s.ReleasesAgain e then 1 else 0) := by
  rw [if_pos hlose, if_neg hagain, h, Nat.add_zero]

theorem permits_next_of_releasesAgain (hlose : ¬s.Loses e) (hagain : s.ReleasesAgain e)
    (h : (s.next e).permits + (s.next e).owed = s.permits + s.owed + 1) :
    (s.next e).permits + (s.next e).owed + (if s.Loses e then 1 else 0) =
      s.permits + s.owed + (if s.ReleasesAgain e then 1 else 0) := by
  rw [if_neg hlose, if_pos hagain, h]

/-- A callback that releases a permit releases the one it owes, or releases one again. -/
theorem permits_next_of_unlocks {s' : CameraProcessor} {owes : Prop} [Decidable owes]
    (hnext : s.next e = s'.unlockCamera) (hpermits : s'.permits = s.permits)
    (howed : s'.owed + (if owes then 1 else 0) = s.owed) (hlose : ¬s.Loses e)
    (hagain : s.ReleasesAgain e ↔ ¬owes) :
    (s.next e).permits + (s.next e).owed + (if s.Loses e then 1 else 0) =
      s.permits + s.owed + (if s.ReleasesAgain e then 1 else 0) := by
  by_cases howes : owes
  · rw [if_pos howes] at howed
    refine permits_next_of_neither hlose (fun h => hagain.1 h howes) ?_
    rw [hnext, permits_unlockCamera, owed_unlockCamera]
    omega
  · rw [if_neg howes] at howed
    refine permits_next_of_releasesAgain hlose (hagain.2 howes) ?_
    rw [hnext, permits_unlockCamera, owed_unlockCamera]
    omega

/-- A callback that releases nothing loses the permit it owes, if it owes one. -/
theorem permits_next_of_keeps {s' : CameraProcessor} {owes : Prop} [Decidable owes]
    (hnext : s.next e = s') (hpermits : s'.permits = s.permits)
    (howed : s'.owed + (if owes then 1 else 0) = s.owed) (hlose : s.Loses e ↔ owes)
    (hagain : ¬s.ReleasesAgain e) :
    (s.next e).permits + (s.next e).owed + (if s.Loses e then 1 else 0) =
      s.permits + s.owed + (if s.ReleasesAgain e then 1 else 0) := by
  by_cases howes : owes
  · rw [if_pos howes] at howed
    exact permits_next_of_loses (hlose.2 howes) hagain (by rw [hnext]; omega)
  · rw [if_neg howes] at howed
    exact permits_next_of_neither (fun h => howes (hlose.1 h)) hagain (by rw [hnext]; omega)

/-- An exception of the UI thread releases its permit, or loses it. -/
theorem permits_throws {exception : Camera.Throwable} (he : s.Enabled (.throws exception)) :
    (s.next (.throws exception)).permits + (s.next (.throws exception)).owed +
        (if s.Loses (.throws exception) then 1 else 0) =
      s.permits + s.owed + (if s.ReleasesAgain (.throws exception) then 1 else 0) := by
  have howed := owed_stage s .idle
  rw [held_of_throws he, Stage.held_idle] at howed
  cases exception with
  | cameraAccess =>
    by_cases hstage : s.stage = .locked .openCamera
    · refine permits_next_of_loses (.inr hstage) id ?_
      rw [next, thrown, if_pos hstage, Nat.add_assoc, howed]
      rfl
    · refine permits_next_of_neither (by simp [Loses, hstage]) id ?_
      rw [next, thrown, if_neg hstage, permits_unlockCamera, owed_unlockCamera, Nat.add_right_comm,
        Nat.add_assoc, howed]
      rfl
  | other =>
    refine permits_next_of_loses (.inl rfl) id ?_
    rw [next, thrown, Nat.add_assoc, howed]
    rfl

/-- What a call, a callback or a step does to the permits. -/
theorem permits_next (he : s.Enabled e) :
    (s.next e).permits + (s.next e).owed + (if s.Loses e then 1 else 0) =
      s.permits + s.owed + (if s.ReleasesAgain e then 1 else 0) := by
  cases e with
  | start available choice =>
    obtain ⟨hpermits, howed⟩ := owed_openCamera he choice
    refine permits_next_of_neither id id ?_
    cases available
    · rfl
    · rw [next, if_pos rfl, hpermits, howed]
  | onSurfaceTextureAvailable choice =>
    obtain ⟨hpermits, howed⟩ := owed_openCamera he choice
    exact permits_next_of_neither id id (by rw [next, hpermits, howed])
  | focusOnPoint =>
    obtain ⟨hpermits, howed⟩ := owed_withSession he .focusOnPoint
    exact permits_next_of_neither id id (by rw [next, hpermits, howed])
  | captureImage =>
    obtain ⟨hpermits, howed⟩ := owed_withSession he .captureImage
    exact permits_next_of_neither id id (by rw [next, hpermits, howed])
  | stop =>
    have hstage : s.stage = .idle := he
    exact permits_next_of_neither id id (by simp [next, owed, hstage])
  | locks =>
    obtain ⟨⟨op, hstage⟩, hpos⟩ := he
    refine permits_next_of_neither id id ?_
    simp only [next, hstage, lockCamera, owed, Stage.held_locking, Stage.held_locked]
    omega
  | opens =>
    -- The device now owes the permit of the UI thread.
    have hstage : s.stage = .locked .openCamera := he
    refine permits_next_of_neither id id ?_
    simp only [next, owed, hstage, Stage.held_idle, Stage.held_locked, List.count_append,
      List.count_singleton_self]
    omega
  | cancels =>
    obtain ⟨hstage, -⟩ := he
    exact permits_next_of_neither id id (by simp [next, owed, hstage, capture])
  | tags =>
    have hstage : s.stage = .cancelled := he
    exact permits_next_of_neither id id (by simp [next, owed, hstage])
  | focuses | captures =>
    -- The request now owes the permit of the UI thread.
    obtain ⟨hstage, -⟩ := he
    refine permits_next_of_neither id id ?_
    simp [next, owed, hstage, capture]
    omega
  | closes =>
    have hstage : s.stage = .locked .stop := he
    refine permits_next_of_neither id id ?_
    simp [next, owed, hstage, unlockCamera, closeCamera]
    omega
  | throws exception => exact permits_throws he
  | onOpened d creation =>
    obtain ⟨hpermits, howed⟩ := owed_onOpened he creation
    exact permits_next_of_neither id id (by omega)
  | onConfigured d =>
    have hconfiguring : s.devices[d]? = some .configuring := he
    have hcount := count_set s.devices d .answered (by decide)
    rw [hconfiguring, if_neg (by decide), Nat.add_zero] at hcount
    exact permits_next_of_neither id id (by simp only [next, owed, hcount])
  | onDisconnected d =>
    obtain ⟨hpermits, howed⟩ := owed_answered s d
    -- A device that was opening owed the permit; any other one releases a permit of its own.
    exact permits_next_of_unlocks rfl hpermits howed id Iff.rfl
  | onError d notified =>
    obtain ⟨hpermits, howed⟩ := owed_answered s d
    cases notified with
    | false =>
      exact permits_next_of_keeps rfl hpermits howed (and_iff_left (by decide))
        (fun h => absurd h.2 (by decide))
    | true =>
      exact permits_next_of_unlocks rfl hpermits howed (fun h => h.2 rfl) (and_iff_left rfl)
  | onCaptureCompleted r =>
    obtain ⟨hpermits, howed⟩ := owed_dropRequest he
    -- The tag decides whether a permit is released, and the shot whether one was owed.
    by_cases hr : r.unlocks
    · exact permits_next_of_unlocks (if_pos hr) hpermits howed (fun h => h.2 hr)
        ((and_iff_left hr).trans not_not.symm)
    · exact permits_next_of_keeps (if_neg hr) hpermits howed (and_iff_left hr)
        (fun h => hr h.2)
  | onCaptureFailed r =>
    -- A failure releases a permit whatever the tag, also for the request that owes none.
    obtain ⟨hpermits, howed⟩ := owed_dropRequest he
    exact permits_next_of_unlocks rfl hpermits howed id not_not.symm

/-! ## The runs -/

/-- The permits, and those that the operations have not released, account for one permit, the
    releases that came again, and the permits that have been lost. -/
theorem permits_add_owed (h : machine.IsRun s es) :
    (machine.after s es).permits + (machine.after s es).owed +
        machine.total (fun s e => if s.Loses e then 1 else 0) s es =
      1 + machine.total (fun s e => if s.ReleasesAgain e then 1 else 0) s es := by
  obtain rfl : s = new := h.init
  exact Machine.conservation (w := fun s => s.permits + s.owed) h.enabled
    fun s e he => permits_next he

/-- There is at most one permit, and operations exclude each other, as long as no callback
    releases a permit again. -/
theorem permits_add_owed_le_one (h : machine.IsRun s es)
    (hagain : machine.Along (fun s e => ¬s.ReleasesAgain e) s es) :
    (machine.after s es).permits + (machine.after s es).owed ≤ 1 := by
  have hpermits := permits_add_owed h
  rw [Machine.total_eq_zero_iff.2 (hagain.mono fun s e hnot => if_neg hnot)] at hpermits
  omega

theorem permits_le_one (h : machine.IsRun s es)
    (hagain : machine.Along (fun s e => ¬s.ReleasesAgain e) s es) :
    (machine.after s es).permits ≤ 1 :=
  (Nat.le_add_right _ _).trans (permits_add_owed_le_one h hagain)

/-- The camera is opened, and its autofocus is triggered. -/
def tap : List Event :=
  [.start true .chosen, .locks, .opens, .onOpened 0 .requested, .onConfigured 0,
    .focusOnPoint, .locks, .cancels, .tags, .focuses,
    .onCaptureCompleted ⟨.cancel, some .previewSession⟩, .onCaptureCompleted ⟨.focus, some .focus⟩]

/-- An image is captured after a tap, and the camera is closed. -/
theorem tap_permits : (machine.after new (tap ++ [.captureImage, .locks, .captures, .stop,
    .onCaptureCompleted ⟨.image, some .capture⟩, .locks, .closes])).permits ≤ 1 :=
  permits_le_one ⟨rfl, by decide⟩ (by decide)

/-- The builder keeps its tag, and both requests of a second tap release a permit. -/
theorem second_tap_permits : ¬∀ s es, machine.IsRun s es → (machine.after s es).permits ≤ 1 := by
  intro h
  have hpermits := h new (tap ++ [.focusOnPoint, .locks, .cancels, .tags, .focuses,
    .onCaptureCompleted ⟨.cancel, some .focus⟩, .onCaptureCompleted ⟨.focus, some .focus⟩])
    ⟨rfl, by decide⟩
  exact absurd hpermits (by decide)

/-- If all the operations are over, and none has lost its permit, there is one permit exactly
    if none has been released again. -/
theorem permits_le_one_iff (h : machine.IsRun s es) (howed : (machine.after s es).owed = 0)
    (hloses : machine.Along (fun s e => ¬s.Loses e) s es) :
    (machine.after s es).permits ≤ 1 ↔ machine.Along (fun s e => ¬s.ReleasesAgain e) s es := by
  refine ⟨fun hle => ?_, fun hagain =>
    (Nat.le_add_right _ _).trans (permits_add_owed_le_one h hagain)⟩
  have hpermits := permits_add_owed h
  rw [howed, Machine.total_eq_zero_iff.2 (hloses.mono fun s e hnot => if_neg hnot)] at hpermits
  have hzero : machine.total (fun s e => if s.ReleasesAgain e then 1 else 0) s es = 0 := by omega
  refine (Machine.total_eq_zero_iff.1 hzero).mono fun s e hcount hagain => ?_
  rw [if_pos hagain] at hcount
  exact absurd hcount (by decide)

end CameraProcessor

end Gaze
