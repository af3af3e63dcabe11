import Gaze.Detection.Detectors
import Gaze.Detection.Discovery
import Gaze.Detection.Local

/-!
# The detection of a shape, from the camera to the feedback

A player takes a picture, and the phone looks for a shape in it, with the detection server that it
has discovered or on the device (`ObjectDetector.checkForObjects`), and tells the player whether it
is there (`CameraActivity.onImageAvailable`). The detection servers are those of the repository:
they announce the port 8000 (`PresenceAdvertiser`), and a task of theirs answers a request
(`DetectionTask`).

* `result_of_answers`: what a server may answer is what its task sends after a request that has the
  name of the detector and the planes of the picture, which is its verdict (`result_eq_of_sends`).
* `announced_advertisement`: the advertisement announces the port 8000.
* `result_sound`: whatever the announcements, the failures and the calls that are going on
  meanwhile, what a call returns is the verdict on its picture, that of the device or of a server
  which has advertised its presence.
* `found_sound`: the player is told that the shape is there only if one of them has detected it.
-/

namespace Gaze

open Java Socket DetectionServer DetectionTask

namespace PresenceAdvertiser

/-- What `main` makes the detection server advertise, in datagrams. -/
def advertisement : List UInt8 := encodeUtf8 "DETECTION SERVER HERE:8000".toList

end PresenceAdvertiser

open PresenceAdvertiser

/-- What is looked for, and where. -/
structure Search where
  detectorName : Text
  width : Int32
  height : Int32
  y : Plane
  u : Plane
  v : Plane

/-- The picture of the camera, whose format is `YUV_420_888`. -/
def Search.image (search : Search) : DetectionServer.Image :=
  .yuv420888 search.width search.height search.y search.u search.v

namespace DetectionTask

/-- The answer to a request that has been read, unless there is none. -/
def verdict : Except Stop ℕ → Option Int32
  | .ok dets => some (if 0 < dets then 1 else 0)
  | .error (.thrown _) => some (-1)
  | .error .aborted => none
  | .error .undefined => none

/-- The phone may read this integer, when the task is over. -/
def Outcome.Sends (result : Int32) : Outcome → Prop
  | .done sent _ => sent = writeInt result
  | .aborted => False
  | .undefined => True

/-- What the task of a server may answer to a request, however the network cuts it. -/
def Answers (env : Environment) (search : Search) (result : Int32) : Prop :=
  ∃ c fuel outcome, sendDetectionRequest search.detectorName search.image = .ok c.pending ∧
    run env fuel c = some outcome ∧ outcome.Sends result

end DetectionTask

namespace ObjectDetector

variable {δ : Type}

/-- The native `checkForObjects`, with the shapes that a detector detects in an array. -/
def nativeCheck (dets : δ → Array2d → ℕ) (detectors : Detectors.Table δ) (search : Search) :
    Except Stop Int32 := do
  let image ← byteBufferToArray2d search.y.buffer search.width search.height
  return .ofInt (Wrapper.checkForObjects (dets · image) detectors (encodeUtf8 search.detectorName))

end ObjectDetector

/-- What a phone relies on: the detection on the device, the pictures of its calls, and the servers
    that may listen at an address and a port. -/
structure Phone (α ι δ : Type) where
  dets : δ → ObjectDetector.Array2d → ℕ
  /-- The detectors that are loaded when the call looks for a shape. -/
  detectors : ι → Detectors.Table δ
  search : ι → Search
  servers : α → Int32 → Environment → Prop
  /-- The port 0 is that of no socket. -/
  not_servers_zero : ∀ address env, ¬ servers address 0 env

/-- The world of its calls. -/
def Phone.world {α ι δ : Type} (phone : Phone α ι δ) : World α ι where
  Answers address port i result := ∃ env, phone.servers address port env ∧
    DetectionTask.Answers env (phone.search i) result
  not_answers_zero address _ _ := fun ⟨env, hserver, _⟩ =>
    phone.not_servers_zero address env hserver
  Detects i result := ∀ native,
    ObjectDetector.nativeCheck phone.dets (phone.detectors i) (phone.search i) = .ok native →
      result = native

namespace CameraActivity

/-- What the player sees. -/
inductive Feedback
  | error
  | found
  | notFound
  deriving DecidableEq

/-- `CameraActivity.onImageAvailable`. -/
def onImageAvailable (result : Int32) : Feedback :=
  if result = -1 then .error else if 0 < result then .found else .notFound

end CameraActivity

variable {α ι δ : Type} {phone : Phone α ι δ} {search : Search} {env : Environment}
  {result v : Int32} {r : Except Stop ℕ}

/-! ## One request -/

namespace DetectionTask

theorem reply_of_verdict (h : verdict r = some v) : reply r = .done (writeInt v) true := by
  cases r with
  | ok dets =>
    obtain rfl := Option.some.inj h
    rfl
  | error stop =>
    cases stop with
    | thrown e =>
      obtain rfl := Option.some.inj h
      rfl
    | aborted => cases h
    | undefined => cases h

/-- What the phone reads from a task that has a verdict is the verdict. -/
theorem result_eq_of_sends (hv : verdict r = some v) (h : (reply r).Sends result) : result = v := by
  rw [reply_of_verdict hv] at h
  have hsame : ntohl (htonl v) = ntohl (htonl result) := congrArg ntohl h
  rwa [ntohl_htonl, ntohl_htonl, eq_comm] at hsame

/-- An answer is what a task sends after a request about the picture. -/
theorem result_of_answers (hcheck : ∀ n : ℕ, 0 < n → env.sockCheckError n = false)
    (hascii : ∀ c ∈ search.detectorName, c.val < 128) (hname : search.detectorName.length ≤ 20)
    (himage : search.image.Supplied) (h : Answers env search result) :
    ∃ request, Recovers request search.detectorName search.image ∧
      (reply (env.process request)).Sends result := by
  obtain ⟨request, hrecovers, haccepted, hbytes⟩ := exists_request hascii hname himage
  obtain ⟨c, fuel, outcome, hsent, hrun, houtcome⟩ := h
  refine ⟨request, hrecovers, ?_⟩
  have hpending : request.bytes ++ [] = c.pending := by
    rw [List.append_nil]
    exact Except.ok.inj (hbytes.symm.trans hsent)
  have hparse : receiveRequest.parse c.pending = some (.ok request, []) :=
    hpending ▸ parse_receiveRequest_bytes haccepted
  obtain ⟨⟨received, c'⟩, hexec, rfl⟩ := Option.map_eq_some_iff.1 hrun
  obtain rfl := Reading.eq_of_exec (Environment.fills hcheck) hparse hexec
  exact houtcome

end DetectionTask

/-! ## Runs of the phone -/

theorem announced_advertisement (address : α) :
    announcement (.packet address advertisement) = some (address, 8000) := by
  have hmessages : messages advertisement = [broadcastSignature, "8000".toList] := by
    decide +kernel
  have hport : Integer.parseInt "8000".toList 10 = some 8000 := by decide +kernel
  simp only [announcement, hmessages, hport, if_true, Option.map_some]

namespace Phone

open Discovery

variable [DecidableEq ι] {s : Discovery α ι} {es : List (Event α ι)} {i : ι} {x : α × Int32}

/-- The announcements are those of the detection servers. -/
def Advertised (es : List (Event α ι)) : Prop :=
  ∀ address data, .receives (.packet address data) ∈ es →
    announcement (.packet address data) ≠ none → data = advertisement

/-- What has been announced is the port 8000, and by advertisements. -/
theorem Advertised.of_mem_trace {w : World α ι} (hes : Advertised es)
    (hx : x ∈ (machine w).trace announced s es) :
    x.2 = 8000 ∧ .receives (.packet x.1 advertisement) ∈ es := by
  obtain ⟨s', e, he, hannounced⟩ := Machine.exists_of_mem_trace hx
  cases e with
  | receives reception =>
    have hannouncement : announcement reception = some x := Option.mem_toList.1 hannounced
    cases reception with
    | packet address data =>
      obtain rfl := hes address data he (by rw [hannouncement]; exact nofun)
      obtain rfl := Option.some.inj ((announced_advertisement address).symm.trans hannouncement)
      exact ⟨rfl, he⟩
    | socketTimeout | ioException => cases hannouncement
  | opens _ | readsListening _ | completes | finalizes | readsAddress _ _ | readsPort _ _
  | answered _ _ | ioException _ | exception _ | clears _ | detected _ _ => cases hannounced

/-- What a call returns is the verdict on its picture, of the device or of a detection server that
    has advertised its presence. -/
theorem result_sound (h : (machine phone.world).IsRun s es) (hes : Advertised es)
    (hreturned : ((machine phone.world).after s es).calls i = .returned result)
    (hascii : ∀ c ∈ (phone.search i).detectorName, c.val < 128)
    (hname : (phone.search i).detectorName.length ≤ 20)
    (himage : (phone.search i).image.Supplied)
    (hcheck : ∀ address port env, phone.servers address port env →
      ∀ n : ℕ, 0 < n → env.sockCheckError n = false) :
    phone.world.Detects i result ∨
      ∃ address env request, .receives (.packet address advertisement) ∈ es ∧
        phone.servers address 8000 env ∧
        Recovers request (phone.search i).detectorName (phone.search i).image ∧
        (reply (env.process request)).Sends result := by
  have hsound := (inv_of_isRun h i).sound
  rw [hreturned] at hsound
  rcases hsound with hdetects | ⟨address, port, ⟨hread, -⟩, -, env, hserver, hanswers⟩
  · exact .inl hdetects
  · refine .inr ?_
    -- All the announcements have the same port.
    have hmem := hread.mem_of_const fun x hx y hy =>
      (hes.of_mem_trace hx).1.trans (hes.of_mem_trace hy).1.symm
    obtain ⟨hport : port = 8000, hadvertised⟩ := hes.of_mem_trace hmem
    subst hport
    obtain ⟨request, hrecovers, hresult⟩ :=
      result_of_answers (hcheck _ _ _ hserver) hascii hname himage hanswers
    exact ⟨address, env, request, hadvertised, hserver, hrecovers, hresult⟩

open CameraActivity in
/-- The feedback is that of the device, or of a detection server that has advertised its presence:
    whether there are shapes in its picture, or an error. -/
theorem feedback_sound (h : (machine phone.world).IsRun s es) (hes : Advertised es)
    (hreturned : ((machine phone.world).after s es).calls i = .returned result)
    (hascii : ∀ c ∈ (phone.search i).detectorName, c.val < 128)
    (hname : (phone.search i).detectorName.length ≤ 20)
    (himage : (phone.search i).image.Supplied)
    (hcheck : ∀ address port env, phone.servers address port env →
      ∀ n : ℕ, 0 < n → env.sockCheckError n = false) :
    (∀ native, ObjectDetector.nativeCheck phone.dets (phone.detectors i) (phone.search i) =
        .ok native → onImageAvailable result = onImageAvailable native) ∨
      ∃ address env request, .receives (.packet address advertisement) ∈ es ∧
        phone.servers address 8000 env ∧
        Recovers request (phone.search i).detectorName (phone.search i).image ∧
        match env.process request with
        | .ok dets => onImageAvailable result = if 0 < dets then .found else .notFound
        | .error (.thrown _) => onImageAvailable result = .error
        | .error .aborted => False
        | .error .undefined => True := by
  rcases result_sound h hes hreturned hascii hname himage hcheck with hdetects |
    ⟨address, env, request, hadvertised, hserver, hrecovers, hresult⟩
  · exact .inl fun native hnative => congrArg onImageAvailable (hdetects native hnative)
  · refine .inr ⟨address, env, request, hadvertised, hserver, hrecovers, ?_⟩
    cases hprocess : env.process request with
    | ok dets =>
      obtain rfl := result_eq_of_sends rfl (hprocess ▸ hresult)
      dsimp only
      split_ifs <;> rfl
    | error stop =>
      rw [hprocess] at hresult
      cases stop with
      | thrown e =>
        obtain rfl := result_eq_of_sends rfl hresult
        rfl
      -- A process that has been aborted sends nothing.
      | aborted => exact hresult
      | undefined => trivial

/-- A server that detects one shape in any picture. -/
def sampleServer : Environment := { sampleEnvironment with detect := fun _ _ => .ok 1 }

/-- A phone with no detector, which looks for a cup in a grey picture. -/
def samplePhone : Phone ℕ Unit Unit where
  dets _ _ := 0
  detectors _ := ∅
  search _ := ⟨"cup".toList, 2, 2, ⟨2, 1, [10, 20, 30, 40]⟩, ⟨1, 1, [128]⟩, ⟨1, 1, [128]⟩⟩
  servers _ port env := port = 8000 ∧ env = sampleServer
  not_servers_zero _ _ h := absurd h.1 (by decide)

/-- The phone discovers the server, and gets its answer. -/
def sampleDetection : List (Event ℕ Unit) :=
  [.opens true, .readsListening true, .receives (.packet 1 advertisement), .completes,
    .readsAddress () (some 1), .readsAddress () (some 1), .readsAddress () (some 1),
    .readsPort () 8000, .answered () 1]

theorem sampleServer_answers : DetectionTask.Answers sampleServer (samplePhone.search ()) 1 :=
  ⟨⟨(Request.yuv [99, 117, 112] samplePlanes).bytes, fun _ => 0⟩, 5, .done (writeInt 1) true,
    rfl, by decide +kernel, rfl⟩

theorem isRun_sampleDetection : (machine samplePhone.world).IsRun new sampleDetection := by
  have hcalls : ((machine samplePhone.world).after new (sampleDetection.take 8)).calls () =
      .connecting (some 1) 8000 := by decide +kernel
  have hanswered : Answered samplePhone.world () 1
      (((machine samplePhone.world).after new (sampleDetection.take 8)).calls ()) := by
    rw [hcalls]
    exact ⟨sampleServer, ⟨rfl, rfl⟩, sampleServer_answers⟩
  have hport : ((machine samplePhone.world).after new
      (sampleDetection.take 7)).serverPort.Sees 8000 := by decide +kernel
  exact ⟨rfl, ⟨rfl, trivial⟩, ⟨rfl, .head _⟩, ⟨by decide +kernel, trivial⟩,
    ⟨by decide +kernel, trivial⟩, ⟨by decide +kernel, .head _⟩, ⟨by decide +kernel, .head _⟩,
    ⟨by decide +kernel, .head _⟩, ⟨by decide +kernel, hport⟩,
    ⟨by decide +kernel, hanswered⟩, trivial⟩

theorem advertised_sampleDetection : Advertised sampleDetection := by
  intro address data hmem _
  simp only [sampleDetection, List.mem_cons, reduceCtorEq, Event.receives.injEq,
    Reception.packet.injEq, List.not_mem_nil, or_false, false_or] at hmem
  exact hmem.2

/-- The player is told that there is a cup. -/
theorem feedback_sampleDetection :
    CameraActivity.onImageAvailable 1 = .found ∧
      ((∀ native, ObjectDetector.nativeCheck samplePhone.dets (samplePhone.detectors ())
          (samplePhone.search ()) = .ok native →
          CameraActivity.onImageAvailable 1 = CameraActivity.onImageAvailable native) ∨
        ∃ address env request, .receives (.packet address advertisement) ∈ sampleDetection ∧
          samplePhone.servers address 8000 env ∧
          Recovers request (samplePhone.search ()).detectorName (samplePhone.search ()).image ∧
          match env.process request with
          | .ok dets => CameraActivity.onImageAvailable 1 = if 0 < dets then .found else .notFound
          | .error (.thrown _) => CameraActivity.onImageAvailable 1 = .error
          | .error .aborted => False
          | .error .undefined => True) :=
  ⟨by decide, feedback_sound isRun_sampleDetection advertised_sampleDetection
    (by decide +kernel) (by simp [samplePhone]) (by decide)
    ⟨⟨by decide, by decide⟩, by decide, by decide, by decide⟩
    (by rintro _ _ _ ⟨-, rfl⟩ n hn; simp [sampleServer, sampleEnvironment])⟩

end Phone

end Gaze
