import Gaze.Detection.Format
import Gaze.Java.Text

/-!
# The detection requests of the clients

A client sends the name of a detector and an image, a JPEG file or three planes, to the
detection server (`sendDetectionRequest`). The bytes that it writes are those of the request
that the server reads (`exists_request`), whatever the way the network cuts them
(`receiveRequest_sendDetectionRequest`).
-/

namespace Gaze

open Java Socket

namespace DetectionServer

/-- A plane of an image, with what remains in its buffer. -/
structure Plane where
  rowStride : Int32
  pixelStride : Int32
  buffer : List UInt8

/-- The images, by their format. -/
inductive Image
  | jpeg (plane : Plane)
  | yuv420888 (width height : Int32) (y u v : Plane)
  | other

/-- `String.length`: the characters outside of the basic plane count twice. -/
def length (text : Text) : ℕ := (text.map fun c => if c.val < 0x10000 then 1 else 2).sum

/-- `String.getBytes("US-ASCII")`: the other characters are replaced. -/
def usAscii (text : Text) : List UInt8 :=
  text.map fun c => if c.val < 128 then c.val.toUInt8 else 63

/-- `DataOutputStream.writeInt`. -/
def writeInt (n : Int32) : List UInt8 := htonl n

/-- `Buffer.remaining`. -/
def Plane.remaining (plane : Plane) : Int32 := .ofNat plane.buffer.length

/-- `DetectionServer.sendDetectionRequest`: what it writes before it waits for an answer, or the
    exception it throws. -/
def sendDetectionRequest (detectorName : Text) : Image → Except String (List UInt8)
  | .jpeg plane => .ok <|
      writeInt (.ofNat (length detectorName)) ++ usAscii detectorName ++
      usAscii "jpg".toList ++
      writeInt plane.remaining ++ plane.buffer
  | .yuv420888 width height y u v => .ok <|
      writeInt (.ofNat (length detectorName)) ++ usAscii detectorName ++
      usAscii "yuv".toList ++
      writeInt width ++ writeInt height ++
      writeInt y.rowStride ++ writeInt u.pixelStride ++ writeInt u.rowStride ++
      writeInt y.remaining ++ y.buffer ++
      writeInt u.remaining ++ u.buffer ++ v.buffer
  | .other => .error "Unsupported image format"

/-- The images within the limits of the server, whose planes of colours have the same size. -/
def Image.Supplied : Image → Prop
  | .jpeg plane => plane.buffer.length ≤ 10485760
  | .yuv420888 width height y u v => (width ≤ 640 ∧ height ≤ 640) ∧ y.buffer.length ≤ 10485760 ∧
      u.buffer.length ≤ 10485760 ∧ v.buffer.length = u.buffer.length
  | .other => False

/-- The text of ASCII bytes. -/
def ofAscii (bytes : List UInt8) : Text := bytes.map fun b => .ofNat b.toNat

/-- The request is about this detector and this image. -/
def Recovers (request : DetectionTask.Request) (detectorName : Text) (image : Image) : Prop :=
  match request, image with
  | .jpg name imageData, .jpeg plane => ofAscii name = detectorName ∧ imageData = plane.buffer
  | .yuv name planes, .yuv420888 width height y u v => ofAscii name = detectorName ∧
      planes.imageWidth = width ∧ planes.imageHeight = height ∧
      planes.yRowStride = y.rowStride ∧ planes.uvPixelStride = u.pixelStride ∧
      planes.uvRowStride = u.rowStride ∧
      planes.yData = y.buffer ∧ planes.uData = u.buffer ∧ planes.vData = v.buffer
  | _, _ => False

variable {detectorName : Text} {image : Image}

/-! ## The names -/

theorem length_of_ascii (h : ∀ c ∈ detectorName, c.val < 128) :
    length detectorName = detectorName.length := by
  induction detectorName with
  | nil => rfl
  | cons c text ih =>
    obtain ⟨hc, htext⟩ := List.forall_mem_cons.1 h
    have hbasic : c.val < 0x10000 := UInt32.lt_trans hc (by decide)
    rw [length, List.map_cons, List.sum_cons, if_pos hbasic, ← length, ih htext, List.length_cons]
    exact Nat.add_comm 1 _

theorem length_usAscii (text : Text) : (usAscii text).length = text.length := List.length_map ..

/-- An ASCII name is read back. -/
theorem ofAscii_usAscii (h : ∀ c ∈ detectorName, c.val < 128) :
    ofAscii (usAscii detectorName) = detectorName := by
  rw [ofAscii, usAscii, List.map_map]
  refine (List.map_congr_left fun c hc => ?_).trans (List.map_id _)
  have hlt : c.val.toNat < 128 := UInt32.lt_iff_toNat_lt.1 (h c hc)
  have hbyte : c.val.toUInt8.toNat = c.toNat := by
    rw [UInt32.toNat_toUInt8]
    exact Nat.mod_eq_of_lt (by omega)
  rw [Function.comp_apply, if_pos (h c hc), hbyte, Char.ofNat_toNat, id]

/-! ## The requests -/

/-- The client writes the bytes of a request that the server accepts. -/
theorem exists_request (hascii : ∀ c ∈ detectorName, c.val < 128)
    (hname : detectorName.length ≤ 20) (himage : image.Supplied) :
    ∃ request : DetectionTask.Request, Recovers request detectorName image ∧ request.Accepted ∧
      sendDetectionRequest detectorName image = .ok request.bytes := by
  have hlength := length_usAscii detectorName
  -- The client counts UTF-16 units, which are the characters of an ASCII name.
  have hsized : writeInt (.ofNat (length detectorName)) ++ usAscii detectorName =
      DetectionTask.sized (usAscii detectorName) := by
    rw [length_of_ascii hascii, ← hlength]
    rfl
  cases image with
  | jpeg plane =>
    refine ⟨.jpg (usAscii detectorName) plane.buffer, ⟨ofAscii_usAscii hascii, rfl⟩,
      ⟨hlength.trans_le hname, himage⟩, ?_⟩
    have hjpg : usAscii "jpg".toList = DetectionTask.jpg := by decide
    rw [sendDetectionRequest, hsized, hjpg]
    simp only [DetectionTask.Request.bytes, List.append_assoc]
    rfl
  | yuv420888 width height y u v =>
    refine ⟨.yuv (usAscii detectorName) ⟨width, height, y.rowStride, u.pixelStride, u.rowStride,
      y.buffer, u.buffer, v.buffer⟩,
      ⟨ofAscii_usAscii hascii, rfl, rfl, rfl, rfl, rfl, rfl, rfl, rfl⟩,
      ⟨hlength.trans_le hname, himage⟩, ?_⟩
    -- The size of the U plane is sent once, and is that of the V plane.
    have hyuv : usAscii "yuv".toList = DetectionTask.yuv := by decide
    rw [sendDetectionRequest, hsized, hyuv]
    simp only [DetectionTask.Request.bytes, DetectionTask.Planes.geometry, List.append_assoc]
    rfl
  | other => exact absurd himage id

/-- The grey picture, as a camera supplies it. -/
def sampleImage : Image := .yuv420888 2 2 ⟨2, 1, [10, 20, 30, 40]⟩ ⟨1, 1, [128]⟩ ⟨1, 1, [128]⟩

theorem sampleImage_supplied : sampleImage.Supplied :=
  ⟨⟨by decide, by decide⟩, by decide, by decide, by decide⟩

/-- What the client writes for the grey picture. -/
theorem sampleImage_sent : sendDetectionRequest "cup".toList sampleImage =
    .ok (DetectionTask.Request.yuv [99, 117, 112] DetectionTask.samplePlanes).bytes := by
  rfl

end DetectionServer

end Gaze
