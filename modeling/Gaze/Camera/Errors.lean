import Gaze.Camera

/-!
# Camera operations that fail

An operation of the UI thread calls the camera, and any of these calls may raise a
`CameraAccessException`. The operation is then over, except for the callbacks of the requests
it has submitted before. Here is the camera during one such operation: what it does itself is
told from what the other operations and the other callbacks do meanwhile.

* `weight_step`: what the operation takes and releases accounts for the permit it holds, but
  for a permit that leaks, and for those that are released twice.
* `raising_balanced_iff`: when the operation and its callbacks are over, there are as many
  permits as before, up to what the others have done, exactly if the exception is not that of
  `cameraManager.openCamera` and no callback of the operation releases a permit.
-/

namespace Gaze.CameraProcessor

open Camera

/-- How far the operation is. -/
inductive Phase
  /-- It has not been called. -/
  | waiting
  | inside
  /-- It is over: a call of the camera has raised an exception. -/
  | raised
  deriving DecidableEq

/-- The camera, and an operation that raises an exception. -/
structure Raising where
  processor : CameraProcessor
  phase : Phase
  /-- The requests that the operation has submitted, and that have not called back. -/
  pending : List Request

/-- What the operation does, and what the others do. -/
inductive Act
  /-- The operation is called, and goes on until it waits for the lock. -/
  | call (e : Event)
  /-- It is called, and `chooseCamera` raises an exception. -/
  | chooseCameraRaises
  /-- A step of the operation, or a callback of one of its requests. -/
  | own (e : Event)
  | other (e : Event)
  deriving DecidableEq

namespace Raising

/-- The calls that may raise a `CameraAccessException` later on. -/
def IsCall : Event → Prop
  | .start available choice => available ∧ choice = .chosen
  | .onSurfaceTextureAvailable choice => choice = .chosen
  | .focusOnPoint | .captureImage => True
  | _ => False

/-- What the operation may do: the UI thread is inside it, or one of its requests calls back. -/
def OwnEnabled (x : Raising) : Event → Prop
  | .locks | .cancels | .tags | .throws .cameraAccess => x.phase = .inside
  | .onCaptureCompleted r | .onCaptureFailed r => r ∈ x.pending
  | _ => False

/-- What the others may do: the UI thread is not inside the operation, and the requests that
    call back are not those of the operation. -/
def OtherEnabled (x : Raising) : Event → Prop
  | .onOpened _ _ | .onConfigured _ | .onDisconnected _ | .onError _ _ => True
  | .onCaptureCompleted r | .onCaptureFailed r => x.pending.count r < x.processor.requests.count r
  | _ => x.phase ≠ .inside

/-- The phase after a step of the operation. -/
def phaseAfter (x : Raising) : Event → Phase
  | .throws _ => .raised
  | _ => x.phase

/-- The pending requests after a step of the operation, or a callback. -/
def pendingAfter (x : Raising) : Event → List Request
  | .cancels => x.pending ++ [⟨.cancel, x.processor.requestBuilder.join⟩]
  | .onCaptureCompleted r | .onCaptureFailed r => x.pending.erase r
  | _ => x.pending

/-- One operation that raises an exception, from any state in which the UI thread is idle. -/
def raising : Machine Raising Act where
  Init x := machine.Reachable x.processor ∧ x.processor.stage = .idle ∧ x.phase = .waiting ∧
    x.pending = []
  Enabled x
    | .call e => x.phase = .waiting ∧ IsCall e ∧ x.processor.Enabled e ∧
        (x.processor.next e).stage ≠ .idle
    | .chooseCameraRaises => x.phase = .waiting ∧ x.processor.stage = .idle
    | .own e => x.OwnEnabled e ∧ x.processor.Enabled e
    | .other e => x.OtherEnabled e ∧ x.processor.Enabled e
  step x
    | .call e => { x with processor := x.processor.next e, phase := .inside }
    | .chooseCameraRaises => { x with phase := .raised }
    | .own e => ⟨x.processor.next e, x.phaseAfter e, x.pendingAfter e⟩
    | .other e => { x with processor := x.processor.next e }

/-- The permits that a step takes. -/
def takes (x : Raising) (a : Act) : ℕ :=
  x.processor.permits - (raising.step x a).processor.permits

/-- The permits that a step releases. -/
def releases (x : Raising) (a : Act) : ℕ :=
  (raising.step x a).processor.permits - x.processor.permits

/-- The permits that a step of the operation takes, and those it releases. -/
def ownTakes (x : Raising) : Act → ℕ
  | .other _ => 0
  | a => x.takes a

def ownReleases (x : Raising) : Act → ℕ
  | .other _ => 0
  | a => x.releases a

/-- The permits that a step of the others takes, and those it releases. -/
def otherTakes (x : Raising) : Act → ℕ
  | .other e => x.takes (.other e)
  | _ => 0

def otherReleases (x : Raising) : Act → ℕ
  | .other e => x.releases (.other e)
  | _ => 0

/-- `cameraManager.openCamera` raises the exception: the operation holds the permit, and is
    over. -/
def Leaks (x : Raising) (a : Act) : Prop :=
  a = .own (.throws .cameraAccess) ∧ x.processor.stage = .locked .openCamera

/-- A callback of the operation releases a permit: the request has failed, or it has completed
    with the tag that the callback looks for. -/
def releasesTwice : Act → Bool
  | .own (.onCaptureCompleted r) => r.unlocks
  | .own (.onCaptureFailed _) => true
  | _ => false

instance (x : Raising) : DecidablePred x.Leaks := fun _ => inferInstanceAs (Decidable (_ ∧ _))

/-- The permit that the operation holds. -/
def weight (x : Raising) : ℕ := if x.phase = .inside then x.processor.stage.held else 0

instance : DecidablePred IsCall
  | .start _ _ => inferInstanceAs (Decidable (_ ∧ _))
  | .onSurfaceTextureAvailable _ => inferInstanceAs (Decidable (_ = _))
  | .focusOnPoint | .captureImage => inferInstanceAs (Decidable True)
  | .stop | .locks | .opens | .cancels | .tags | .focuses | .captures | .closes | .throws _
  | .onOpened _ _ | .onConfigured _ | .onDisconnected _ | .onError _ _ | .onCaptureCompleted _
  | .onCaptureFailed _ => inferInstanceAs (Decidable False)

instance (x : Raising) : DecidablePred x.OwnEnabled
  | .locks | .cancels | .tags | .throws .cameraAccess => inferInstanceAs (Decidable (_ = _))
  | .onCaptureCompleted _ | .onCaptureFailed _ => inferInstanceAs (Decidable (_ ∈ _))
  | .throws .other | .start _ _ | .onSurfaceTextureAvailable _ | .focusOnPoint | .captureImage
  | .stop | .opens | .focuses | .captures | .closes | .onOpened _ _ | .onConfigured _
  | .onDisconnected _ | .onError _ _ => inferInstanceAs (Decidable False)

instance (x : Raising) : DecidablePred x.OtherEnabled
  | .onOpened _ _ | .onConfigured _ | .onDisconnected _ | .onError _ _ =>
    inferInstanceAs (Decidable True)
  | .onCaptureCompleted _ | .onCaptureFailed _ => inferInstanceAs (Decidable (_ < _))
  | .start _ _ | .onSurfaceTextureAvailable _ | .focusOnPoint | .captureImage | .stop | .locks
  | .opens | .cancels | .tags | .focuses | .captures | .closes | .throws _ =>
    inferInstanceAs (Decidable (_ ≠ _))

instance (x : Raising) : DecidablePred (raising.Enabled x)
  | .call e =>
    have : Decidable (x.processor.Enabled e) := inferInstanceAs (Decidable (machine.Enabled _ e))
    inferInstanceAs (Decidable (_ ∧ _ ∧ _ ∧ _))
  | .chooseCameraRaises => inferInstanceAs (Decidable (_ ∧ _))
  | .own e =>
    have : Decidable (x.processor.Enabled e) := inferInstanceAs (Decidable (machine.Enabled _ e))
    inferInstanceAs (Decidable (x.OwnEnabled e ∧ _))
  | .other e =>
    have : Decidable (x.processor.Enabled e) := inferInstanceAs (Decidable (machine.Enabled _ e))
    inferInstanceAs (Decidable (x.OtherEnabled e ∧ _))

variable {x : Raising} {a : Act} {as : List Act} {e : Event}

/-! ## One step -/

/-- Only one exception leaks a permit. -/
theorem not_leaks (h : a ≠ .own (.throws .cameraAccess)) : ¬ x.Leaks a := fun hleaks => h hleaks.1

/-- A callback of a request leaves the UI thread where it is. -/
theorem stage_onCaptureCompleted (s : CameraProcessor) (r : Request) :
    (s.next (.onCaptureCompleted r)).stage = s.stage := by
  unfold next
  dsimp only
  split_ifs <;> rfl

theorem permits_onCaptureCompleted (s : CameraProcessor) (r : Request) :
    (s.next (.onCaptureCompleted r)).permits = s.permits + if r.unlocks then 1 else 0 := by
  unfold next
  dsimp only
  split_ifs <;> rfl

/-- What the others do while the UI thread is inside the operation does not move it. -/
theorem stage_other (hphase : x.phase = .inside) (he : x.OtherEnabled e) :
    (x.processor.next e).stage = x.processor.stage := by
  have hanswered : ∀ (s : CameraProcessor) (d : ℕ), (s.answered d).stage = s.stage := fun s d => by
    unfold answered
    split_ifs <;> rfl
  cases e with
  | onOpened d creation =>
    have hcreate : ∀ s : CameraProcessor, (s.createCaptureSession d creation).stage = s.stage :=
      fun s => by cases creation <;> rfl
    exact (hcreate _).trans (hanswered _ d)
  | onConfigured d => rfl
  | onDisconnected d => exact hanswered _ d
  | onError d notified =>
    cases notified
    · exact hanswered _ d
    · exact hanswered _ d
  | onCaptureCompleted r => exact stage_onCaptureCompleted _ r
  | onCaptureFailed r => rfl
  | _ => exact absurd hphase he

/-- A call takes no permit: the operation waits for the lock. -/
theorem call_next (hcall : IsCall e) (he : x.processor.Enabled e)
    (hstage : (x.processor.next e).stage ≠ .idle) :
    (x.processor.next e).permits = x.processor.permits ∧
      ∃ op, (x.processor.next e).stage = .locking op := by
  have hopen : (x.processor.openCamera .chosen).permits = x.processor.permits ∧
      ∃ op, (x.processor.openCamera .chosen).stage = .locking op := ⟨rfl, _, rfl⟩
  have hsession : ∀ op, (x.processor.withSession op).stage ≠ .idle → x.processor.stage = .idle →
      (x.processor.withSession op).permits = x.processor.permits ∧
        ∃ op', (x.processor.withSession op).stage = .locking op' := fun op hne hidle => by
    unfold withSession at hne ⊢
    split_ifs at hne ⊢
    · exact ⟨rfl, op, rfl⟩
    · exact absurd hidle hne
  cases e with
  | start available choice =>
    obtain ⟨rfl, rfl⟩ := hcall
    exact hopen
  | onSurfaceTextureAvailable choice =>
    obtain rfl : choice = .chosen := hcall
    exact hopen
  | focusOnPoint => exact hsession _ hstage he
  | captureImage => exact hsession _ hstage he
  | _ => exact hcall.elim

theorem weight_of_ne (h : x.phase ≠ .inside) : x.weight = 0 := if_neg h

theorem weight_of_waiting (h : x.phase = .waiting) : x.weight = 0 :=
  weight_of_ne (by rw [h]; decide)

theorem weight_of_raised (h : x.phase = .raised) : x.weight = 0 := weight_of_ne (by rw [h]; decide)

theorem weight_of_inside (h : x.phase = .inside) : x.weight = x.processor.stage.held := if_pos h

/-- A step of the operation that neither leaks a permit nor releases one twice. -/
theorem balance_of_neither (hleaks : ¬ x.Leaks a) (htwice : releasesTwice a = false)
    (h : weight (raising.step x a) + (raising.step x a).processor.permits =
      x.weight + x.processor.permits) :
    weight (raising.step x a) + (raising.step x a).processor.permits +
        (if x.Leaks a then 1 else 0) =
      x.weight + x.processor.permits + (if releasesTwice a then 1 else 0) := by
  rw [if_neg hleaks, htwice, h]
  rfl

/-- A callback of the operation, which leaves the UI thread where it is, releases a permit twice
    if it releases one. -/
theorem balance_callback (hleaks : ¬ x.Leaks a)
    (hphase : (raising.step x a).phase = x.phase)
    (hstage : (raising.step x a).processor.stage = x.processor.stage)
    (hpermits : (raising.step x a).processor.permits =
      x.processor.permits + if releasesTwice a then 1 else 0) :
    weight (raising.step x a) + (raising.step x a).processor.permits +
        (if x.Leaks a then 1 else 0) =
      x.weight + x.processor.permits + (if releasesTwice a then 1 else 0) := by
  rw [if_neg hleaks, weight, hphase, hstage, hpermits, ← weight, Nat.add_zero, Nat.add_assoc]

/-- What a step of the operation does to the permits, and to the one it holds. -/
theorem balance (ha : raising.Enabled x (.own e)) :
    weight (raising.step x (.own e)) + (raising.step x (.own e)).processor.permits +
        (if x.Leaks (.own e) then 1 else 0) =
      x.weight + x.processor.permits + (if releasesTwice (.own e) then 1 else 0) := by
  obtain ⟨hown, he⟩ := ha
  cases e with
  | locks =>
    have hphase : x.phase = .inside := hown
    obtain ⟨⟨op, hstage⟩, hpos⟩ := he
    have hnext : x.processor.next .locks = x.processor.lockCamera op := by
      rw [next, hstage]
    refine balance_of_neither (not_leaks (by simp)) rfl ?_
    rw [weight_of_inside (x := raising.step x (.own .locks)) hphase, weight_of_inside hphase,
      hstage]
    change (x.processor.next .locks).stage.held + (x.processor.next .locks).permits =
      0 + x.processor.permits
    rw [hnext]
    change 1 + (x.processor.permits - 1) = 0 + x.processor.permits
    omega
  | cancels =>
    have hphase : x.phase = .inside := hown
    refine balance_of_neither (not_leaks (by simp)) rfl ?_
    rw [weight_of_inside (x := raising.step x (.own .cancels)) hphase, weight_of_inside hphase,
      he.1]
    rfl
  | tags =>
    have hphase : x.phase = .inside := hown
    have hstage : x.processor.stage = .cancelled := he
    refine balance_of_neither (not_leaks (by simp)) rfl ?_
    rw [weight_of_inside (x := raising.step x (.own .tags)) hphase, weight_of_inside hphase, hstage]
    rfl
  | throws exception =>
    cases exception with
    | other => exact hown.elim
    | cameraAccess =>
      have hphase : x.phase = .inside := hown
      rw [weight_of_raised (x := raising.step x (.own (.throws .cameraAccess))) rfl,
        weight_of_inside hphase, held_of_throws he]
      change 0 + (x.processor.thrown .cameraAccess).permits + _ = 1 + x.processor.permits + 0
      -- The permit leaks where nothing releases it.
      by_cases hstage : x.processor.stage = .locked .openCamera
      · rw [if_pos (show x.Leaks (.own (.throws .cameraAccess)) from ⟨rfl, hstage⟩), thrown,
          if_pos hstage]
        change 0 + x.processor.permits + 1 = 1 + x.processor.permits + 0
        omega
      · rw [if_neg fun h => hstage h.2, thrown, if_neg hstage, permits_unlockCamera]
        change 0 + (x.processor.permits + 1) + 0 = 1 + x.processor.permits + 0
        omega
  | onCaptureCompleted r =>
    exact balance_callback (not_leaks (by simp)) rfl (stage_onCaptureCompleted _ r)
      (permits_onCaptureCompleted _ r)
  | onCaptureFailed r => exact balance_callback (not_leaks (by simp)) rfl rfl rfl
  | _ => exact hown.elim

/-- What the operation takes and releases accounts for the permit it holds, but for a permit
    that leaks, and for those that are released twice. -/
theorem weight_step (ha : raising.Enabled x a) :
    weight (raising.step x a) + (x.ownReleases a + if x.Leaks a then 1 else 0) =
      weight x + (x.ownTakes a + if releasesTwice a then 1 else 0) := by
  cases a with
  | call e =>
    obtain ⟨hphase, hcall, he, hstage⟩ := ha
    obtain ⟨hpermits, op, hlocking⟩ := call_next hcall he hstage
    have hweight : weight (raising.step x (.call e)) = 0 := by
      rw [weight_of_inside rfl]
      exact congrArg Stage.held hlocking
    have hpermits' : (raising.step x (.call e)).processor.permits = x.processor.permits := hpermits
    rw [hweight, weight_of_waiting hphase, if_neg (not_leaks (by simp))]
    simp only [ownReleases, ownTakes, releases, takes, hpermits']
    rfl
  | chooseCameraRaises =>
    obtain ⟨hphase, -⟩ := ha
    rw [weight_of_raised (x := raising.step x .chooseCameraRaises) rfl,
      weight_of_waiting hphase, if_neg (not_leaks (by simp))]
    simp only [ownReleases, ownTakes]
    rfl
  | own e =>
    have hbalance := balance ha
    simp only [ownReleases, ownTakes, releases, takes]
    omega
  | other e =>
    obtain ⟨hother, -⟩ := ha
    have hweight : weight (raising.step x (.other e)) = x.weight := by
      by_cases hphase : x.phase = .inside
      · rw [weight_of_inside (x := raising.step x (.other e)) hphase, weight_of_inside hphase]
        exact congrArg Stage.held (stage_other hphase hother)
      · rw [weight_of_ne hphase, weight_of_ne (x := raising.step x (.other e)) hphase]
    rw [hweight, if_neg (not_leaks (by simp))]
    rfl

/-! ## The whole operation -/

/-- A permit that leaks and permits that are released twice exclude each other: `openCamera`
    submits no request. -/
structure Exclusive (x : Raising) (leaked twice : ℕ) : Prop where
  waiting : x.phase = .waiting → leaked = 0 ∧ twice = 0 ∧ x.pending = []
  inside : x.phase = .inside → leaked = 0
  opening : x.phase = .inside →
    x.processor.stage = .locking .openCamera ∨ x.processor.stage = .locked .openCamera →
    twice = 0 ∧ x.pending = []
  raised : x.phase = .raised → leaked = 0 ∨ twice = 0 ∧ x.pending = []

theorem exclusive_init (hx : raising.Init x) : Exclusive x 0 0 := by
  obtain ⟨-, -, hphase, hpending⟩ := hx
  exact ⟨fun _ => ⟨rfl, rfl, hpending⟩, fun _ => rfl, fun _ _ => ⟨rfl, hpending⟩,
    fun _ => .inl rfl⟩

theorem Exclusive.of_raised {leaked twice : ℕ} (hphase : x.phase = .raised)
    (h : leaked = 0 ∨ twice = 0 ∧ x.pending = []) : Exclusive x leaked twice :=
  have hne : x.phase ≠ .inside := by rw [hphase]; decide
  ⟨fun hwaiting => absurd (hphase.symm.trans hwaiting) (by decide),
    fun hinside => absurd hinside hne, fun hinside => absurd hinside hne, fun _ => h⟩

/-- A callback of a request of the operation: it is not `openCamera`. -/
theorem Exclusive.callback {leaked twice n : ℕ} {s : CameraProcessor} {pending : List Request}
    {r : Request} (h : Exclusive x leaked twice) (hr : r ∈ x.pending)
    (hstage : s.stage = x.processor.stage) :
    Exclusive ⟨s, x.phase, pending⟩ leaked (twice + n) := by
  have hne : x.pending ≠ [] := List.ne_nil_of_mem hr
  refine ⟨fun hphase => absurd (h.waiting hphase).2.2 hne, h.inside, fun hphase hopening => ?_,
    fun hphase => .inl ((h.raised hphase).resolve_right fun hnil => hne hnil.2)⟩
  rw [show (⟨s, x.phase, pending⟩ : Raising).processor.stage = x.processor.stage from hstage]
    at hopening
  exact absurd (h.opening hphase hopening).2 hne

theorem Exclusive.own {leaked twice : ℕ} (h : Exclusive x leaked twice)
    (ha : raising.Enabled x (.own e)) :
    Exclusive (raising.step x (.own e)) (leaked + if x.Leaks (.own e) then 1 else 0)
      (twice + if releasesTwice (.own e) then 1 else 0) := by
  obtain ⟨hown, he⟩ := ha
  cases e with
  | locks =>
    obtain ⟨⟨op, hstage⟩, -⟩ := he
    have hnext : (raising.step x (.own .locks)).processor.stage = .locked op := by
      change (x.processor.next .locks).stage = _
      rw [next, hstage]
      rfl
    rw [if_neg (not_leaks (by simp))]
    refine ⟨h.waiting, h.inside, fun hphase hopening => h.opening hphase (.inl ?_), h.raised⟩
    rw [hnext] at hopening
    rcases hopening with hopening | hopening
    · cases hopening
    · rw [hstage, Stage.locked.inj hopening]
  | cancels | tags =>
    rw [if_neg (not_leaks (by simp))]
    have hphase : x.phase = .inside := hown
    refine ⟨fun hwaiting => ?_, h.inside, fun _ hopening => ?_, fun hraised => ?_⟩
    · exact absurd (hphase.symm.trans hwaiting) (by decide)
    · rcases hopening with hopening | hopening <;> cases hopening
    · exact absurd (hphase.symm.trans hraised) (by decide)
  | throws exception =>
    cases exception with
    | other => exact hown.elim
    | cameraAccess =>
      have hphase : x.phase = .inside := hown
      refine .of_raised rfl ?_
      by_cases hstage : x.processor.stage = .locked .openCamera
      · exact .inr (h.opening hphase (.inr hstage))
      · rw [if_neg fun hleaks => hstage hleaks.2]
        exact .inl (h.inside hphase)
  | onCaptureCompleted r =>
    rw [if_neg (not_leaks (by simp))]
    exact h.callback hown (stage_onCaptureCompleted _ r)
  | onCaptureFailed r =>
    rw [if_neg (not_leaks (by simp))]
    exact h.callback hown rfl
  | _ => exact hown.elim

theorem Exclusive.step {leaked twice : ℕ} (h : Exclusive x leaked twice)
    (ha : raising.Enabled x a) :
    Exclusive (raising.step x a) (leaked + if x.Leaks a then 1 else 0)
      (twice + if releasesTwice a then 1 else 0) := by
  cases a with
  | call e =>
    obtain ⟨hphase, -⟩ := ha
    obtain ⟨rfl, rfl, hpending⟩ := h.waiting hphase
    rw [if_neg (not_leaks (by simp))]
    exact ⟨nofun, fun _ => rfl, fun _ _ => ⟨rfl, hpending⟩, nofun⟩
  | chooseCameraRaises =>
    obtain ⟨hphase, -⟩ := ha
    obtain ⟨rfl, rfl, hpending⟩ := h.waiting hphase
    rw [if_neg (not_leaks (by simp))]
    exact .of_raised rfl (.inl rfl)
  | own e => exact h.own ha
  | other e =>
    obtain ⟨hother, -⟩ := ha
    rw [if_neg (not_leaks (by simp))]
    refine ⟨h.waiting, h.inside, fun hphase hopening => h.opening hphase ?_, h.raised⟩
    rwa [show (raising.step x (.other e)).processor.stage = x.processor.stage from
      stage_other hphase hother] at hopening

/-- At the end of the operation and of its callbacks, the permits that the operation has taken
    and released, the one that has leaked and those released twice. -/
theorem own_total (h : raising.IsRun x as) (hphase : (raising.after x as).phase ≠ .inside) :
    raising.total ownReleases x as + raising.total (fun x a => if x.Leaks a then 1 else 0) x as =
      raising.total ownTakes x as +
        raising.total (fun _ a => if releasesTwice a then 1 else 0) x as := by
  have hconservation := Machine.conservation (w := weight) h.enabled fun _ _ => weight_step
  rw [Machine.total_add, Machine.total_add, weight_of_ne hphase,
    weight_of_waiting h.init.2.2.1, Nat.zero_add, Nat.zero_add] at hconservation
  exact hconservation

/-- The permits at the end of a run. -/
theorem permits_total (h : raising.IsRun x as) :
    (raising.after x as).processor.permits +
        (raising.total ownTakes x as + raising.total otherTakes x as) =
      x.processor.permits +
        (raising.total ownReleases x as + raising.total otherReleases x as) := by
  rw [← Machine.total_add, ← Machine.total_add]
  refine Machine.conservation (w := fun x => x.processor.permits) h.enabled fun x a _ => ?_
  cases a <;> simp only [ownTakes, otherTakes, ownReleases, otherReleases, takes, releases] <;>
    omega

/-- When an operation has raised an exception, and whatever callbacks of its requests there have
    been, there are as many permits as before, up to what the others have taken and released,
    exactly if the exception was not raised by `cameraManager.openCamera` and no callback of the
    operation has released a permit. -/
theorem raising_balanced_iff (h : raising.IsRun x as)
    (hphase : (raising.after x as).phase = .raised) :
    (raising.after x as).processor.permits + raising.total otherTakes x as =
        x.processor.permits + raising.total otherReleases x as ↔
      raising.Along (fun x a => ¬ x.Leaks a ∧ ¬ releasesTwice a) x as := by
  have hown := own_total h (by rw [hphase]; decide)
  have hpermits := permits_total h
  have hexclusive := h.invariant_total (f := fun x a => if x.Leaks a then 1 else 0)
    (g := fun _ a => if releasesTwice a then 1 else 0) (fun _ => exclusive_init)
    fun _ _ _ _ _ hx ha => hx.step ha
  have hzero : raising.total (fun x a => (if x.Leaks a then 1 else 0) +
      if releasesTwice a then 1 else 0) x as = 0 ↔
        raising.Along (fun x a => ¬ x.Leaks a ∧ ¬ releasesTwice a) x as := by
    rw [Machine.total_eq_zero_iff]
    refine Machine.Along.congr (Machine.along_iff_forall.2 fun _ a _ _ => ?_)
    rw [Nat.add_eq_zero_iff, ite_eq_right_iff, ite_eq_right_iff]
    exact and_congr (imp_congr_right fun _ => by decide) (imp_congr_right fun _ => by decide)
  rw [← hzero, Machine.total_add]
  rcases hexclusive.raised hphase with hleaked | ⟨htwice, -⟩ <;> omega

/-- The camera is opened; its autofocus cannot be triggered, and no request is submitted. -/
def refused : List Act :=
  [.other (.start true .chosen), .other .locks, .other .opens, .other (.onOpened 0 .requested),
    .other (.onConfigured 0), .call .focusOnPoint, .own .locks, .own (.throws .cameraAccess)]

theorem reachable_new : machine.Reachable new := .init rfl

theorem raising_balanced_refused :
    (raising.after ⟨new, .waiting, []⟩ refused).processor.permits +
        raising.total otherTakes ⟨new, .waiting, []⟩ refused =
      1 + raising.total otherReleases ⟨new, .waiting, []⟩ refused :=
  (raising_balanced_iff ⟨⟨reachable_new, rfl, rfl, rfl⟩, by decide⟩ (by decide)).2 (by decide)

/-- The camera manager raises an exception when the camera is opened: the permit is lost. -/
theorem not_raising_balanced_open : ¬ ∀ (x : Raising) (as : List Act), raising.IsRun x as →
    (raising.after x as).phase = .raised → (raising.after x as).pending = [] →
    (∀ e, .other e ∉ as) →
    (raising.after x as).processor.permits = x.processor.permits := by
  intro h
  have hpermits := h ⟨new, .waiting, []⟩
    [.call (.start true .chosen), .own .locks, .own (.throws .cameraAccess)]
    ⟨⟨reachable_new, rfl, rfl, rfl⟩, by decide⟩ (by decide) (by decide) (by simp)
  exact absurd hpermits (by decide)

end Raising

end Gaze.CameraProcessor
