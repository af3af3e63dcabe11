import Gaze.Socket.ByteOrder
import Gaze.Socket.Reading
import Mathlib.Algebra.Ring.Int.Defs

/-!
# The detection server

A task of the detection server reads a request, which is a detector name and an image,
decodes the image, detects shapes in it, and sends an integer: whether there are any, or
`-1` after an exception.

The task reads the integers and the strings of the request one after the other
(`receiveRequest`), calling `recv` until it has all the bytes of each (`read`). An image
is either a JPEG file or three planes, whose rows and pixels are at distances that the
request announces (`decodeYUV`). What a task does may be undefined: the indices of the
pixels may be outside of the planes, and the counters of the loops may overflow.

The decompression of JPEG files, the memory, the computation of colours, and the detection
are those of an `Environment`. There are files for which an assertion of the decoder fails,
which aborts the process of the server, or for which its behaviour is undefined
(`JpgdStop`): a task that is given one of them gives no answer.
-/

namespace Gaze

open Socket

namespace DetectionTask

/-- The exceptions that are caught. -/
inductive Exception
  | runtimeError (what : String)
  | lengthError
  | badArrayNewLength
  | badAlloc
  | other
  deriving DecidableEq

/-- Why a computation stops. -/
inductive Stop
  | thrown (e : Exception)
  /-- An assertion fails, and the process is aborted. -/
  | aborted
  /-- Its behaviour is undefined. -/
  | undefined
  deriving DecidableEq

/-- A `std::runtime_error`. -/
def runtimeError (what : String) : Stop := .thrown (.runtimeError what)

/-- An image, whose bytes may be indeterminate. -/
structure Image where
  rows : ℤ
  columns : ℤ
  data : List (Option UInt8)
  deriving DecidableEq

/-- A decompressed JPEG file: three bytes for each pixel, and the number of channels of the
    file, which has one or three. -/
structure Decompressed where
  width : ℕ
  height : ℕ
  channels : ℕ
  data : List UInt8
  length_data : data.length = 3 * (width * height)
  channels_eq : channels = 1 ∨ channels = 3

/-- Why `jpgd` gives no image. -/
inductive JpgdStop
  /-- The file is refused, or there is no memory: the result is `NULL`. -/
  | failed
  /-- A `JPGD_ASSERT` fails, and the process is aborted. -/
  | aborted
  | undefined
  deriving DecidableEq

/-- What a task relies on. -/
structure Environment where
  sockCheckError : ℤ → Bool
  /-- `jpgd::decompress_jpeg_image_from_memory`. -/
  decompress : List UInt8 → Except JpgdStop Decompressed
  /-- There is memory for an array of this number of pixels. -/
  allocates : ℕ → Bool
  /-- The red, the green and the blue of a pixel, in floating-point arithmetic. -/
  rgb : ℤ → ℤ → ℤ → UInt8 × UInt8 × UInt8
  /-- The number of shapes that a detector detects. -/
  detect : List UInt8 → Image → Except Exception ℕ

/-- The planes of an image, as a request announces them. -/
structure Planes where
  imageWidth : Int32
  imageHeight : Int32
  yRowStride : Int32
  uvPixelStride : Int32
  uvRowStride : Int32
  yData : List UInt8
  uData : List UInt8
  vData : List UInt8
  deriving DecidableEq

/-- A request that has been read. -/
inductive Request
  | jpg (detectorName : List UInt8) (imageData : List UInt8)
  | yuv (detectorName : List UInt8) (planes : Planes)
  deriving DecidableEq

/-- The bytes of an image type. -/
def jpg : List UInt8 := [106, 112, 103]

/-- The bytes of an image type. -/
def yuv : List UInt8 := [121, 117, 118]

/-- An `int`, converted to a `size_t`. -/
def toSize (n : Int32) : ℕ := (n.toInt % 2 ^ 64).toNat

/-! ## The requests -/

/-- `std::string::max_size()`. -/
def maxSize : ℕ := 2 ^ 63 - 1

/-- `DetectionTask::read`, whose loop is `fill`. -/
def read (length : ℕ) : Reading Stop (List UInt8) :=
  if maxSize < length then .throw (.thrown .lengthError) else .read length .pure

/-- `DetectionTask::readInt32`. -/
def readInt32 : Reading Stop Int32 := do
  let data ← read 4
  return ntohl data

/-- The first part of `DetectionTask::run`, before it decodes the image. -/
def receiveRequest : Reading Stop Request := do
  let detectorNameSize ← readInt32
  if 20 < detectorNameSize then .throw (runtimeError "Received detector name too big") else
  let detectorName ← read (toSize detectorNameSize)
  let imageType ← read 3
  if imageType = jpg then
    let imageSize ← readInt32
    if 10485760 < imageSize then .throw (runtimeError "Received image size is too big") else
    let imageData ← read (toSize imageSize)
    return .jpg detectorName imageData
  else if imageType = yuv then
    let imageWidth ← readInt32
    let imageHeight ← readInt32
    if 640 < imageWidth ∨ 640 < imageHeight then
      .throw (runtimeError "Received image dimensions are too big")
    else
    let yRowStride ← readInt32
    let uvPixelStride ← readInt32
    let uvRowStride ← readInt32
    let ySize ← readInt32
    if 10485760 < ySize then .throw (runtimeError "Received y plane size is too big") else
    let yData ← read (toSize ySize)
    let uvSize ← readInt32
    if 10485760 < uvSize then .throw (runtimeError "Received uv planes size is too big") else
    let uData ← read (toSize uvSize)
    let vData ← read (toSize uvSize)
    return .yuv detectorName
      { imageWidth, imageHeight, yRowStride, uvPixelStride, uvRowStride, yData, uData, vData }
  else .throw (runtimeError "Unsupported image format")

/-! ## The images -/

/-- The bytes at the beginning of an image are overwritten. -/
def Image.copy (image : Image) (bytes : List UInt8) : Image :=
  { image with data := bytes.map some ++ image.data.drop bytes.length }

/-- `data.c_str()[i]`: after the last byte, there is a zero. -/
def charAt (data : List UInt8) (i : ℤ) : Except Stop UInt8 :=
  if 0 ≤ i ∧ i ≤ data.length then .ok (data.getD i.toNat 0) else .error .undefined

/-- The index of the luminance of a pixel. -/
def yIndex (yRowStride : ℕ) (y x : ℕ) : ℕ := (y * yRowStride + x) % 2 ^ 64

/-- The index of the colours of a pixel, a `size_t` converted to an `int`. -/
def uvIndex (uvPixelStride uvRowStride : ℕ) (y x : ℕ) : ℤ :=
  (((uvPixelStride * (x / 2) + uvRowStride * (y / 2)) % 2 ^ 64 : ℕ) : ℤ).bmod (2 ^ 32)

/-- `for (int i = 0; i < n; i++)`, with a body that writes some bytes. -/
def forInt (n : ℕ) (body : ℕ → Except Stop (List UInt8)) : Except Stop (List UInt8) := do
  let written ← (List.range (min n (2 ^ 31))).mapM body
  -- After `INT_MAX`, the counter overflows.
  if 2 ^ 31 ≤ n then .error .undefined else return written.flatten

namespace Environment

variable (env : Environment)

/-- The loop of `DetectionTask::read`, which may call `recv` `fuel` times. -/
def fill : ℕ → List UInt8 → ℕ → Connection → Option (Except Stop (List UInt8) × Connection)
  | 0, _, _, _ => none
  | fuel + 1, message, length, c =>
    if message.length < length then
      let (bytes, c) := c.recv (length - message.length)
      if env.sockCheckError bytes.length then some (.error (runtimeError "Network error"), c)
      else fill fuel (message ++ bytes) length c
    else some (.ok message, c)

/-- `dlib::matrix<dlib::rgb_pixel>(rows, columns)`. -/
def newMatrix (rows columns : ℤ) : Except Stop Image :=
  let size := (rows * columns % 2 ^ 64).toNat
  if 2 ^ 63 ≤ 3 * size then .error (.thrown .badArrayNewLength)
  else if env.allocates size then .ok ⟨rows, columns, List.replicate (3 * size) none⟩
  else .error (.thrown .badAlloc)

/-- `DetectionTask::decodeJPG`. -/
def decodeJPG (compressedData : List UInt8) : Except Stop Image :=
  match env.decompress compressedData with
  | .ok d => do
    let image ← env.newMatrix d.height d.width
    return image.copy (d.data.take (d.width * d.height * d.channels))
  | .error .failed => .error (runtimeError "Failed to decode JPEG image.")
  | .error .aborted => .error .aborted
  | .error .undefined => .error .undefined

/-- `DetectionTask::yuv420p2rgb888`. -/
def yuv420p2rgb888 (width height yRowStride uvPixelStride uvRowStride : ℕ)
    (yData uData vData : List UInt8) : Except Stop (List UInt8) :=
  forInt height fun y => forInt width fun x => do
    let yy ← charAt yData (yIndex yRowStride y x)
    let uu ← charAt uData (uvIndex uvPixelStride uvRowStride y x)
    let vv ← charAt vData (uvIndex uvPixelStride uvRowStride y x)
    let (r, g, b) := env.rgb yy.toNat ((uu.toNat : ℤ) - 128) ((vv.toNat : ℤ) - 128)
    return [r, g, b]

/-- `DetectionTask::decodeYUV`. -/
def decodeYUV (planes : Planes) : Except Stop Image := do
  let image ← env.newMatrix planes.imageHeight.toInt planes.imageWidth.toInt
  let rgbData ← env.yuv420p2rgb888 (toSize planes.imageWidth) (toSize planes.imageHeight)
    (toSize planes.yRowStride) (toSize planes.uvPixelStride) (toSize planes.uvRowStride)
    planes.yData planes.uData planes.vData
  return image.copy rgbData

/-- The detection in an image, whose exceptions are caught. -/
def detectIn (detectorName : List UInt8) (image : Image) : Except Stop ℕ :=
  (env.detect detectorName image).mapError .thrown

/-- The second part of `DetectionTask::run`: the number of shapes. -/
def process : Request → Except Stop ℕ
  | .jpg detectorName imageData => env.decodeJPG imageData >>= env.detectIn detectorName
  | .yuv detectorName planes => env.decodeYUV planes >>= env.detectIn detectorName

end Environment

/-! ## The task -/

/-- What a task has done when it is over. -/
inductive Outcome
  /-- It has sent some bytes, and closed the socket or not. -/
  | done (sent : List UInt8) (closed : Bool)
  /-- It has aborted the process of the server. -/
  | aborted
  | undefined
  deriving DecidableEq

/-- The end of `DetectionTask::run`. -/
def reply : Except Stop ℕ → Outcome
  | .ok dets => .done (htonl (if 0 < dets then 1 else 0)) true
  | .error (.thrown _) => .done (htonl (-1)) true
  | .error .aborted => .aborted
  | .error .undefined => .undefined

/-- `DetectionTask::run`, when each `read` may call `recv` `fuel` times; `none` when it is still
    reading. -/
def run (env : Environment) (fuel : ℕ) (c : Connection) : Option Outcome :=
  (receiveRequest.exec (env.fill fuel []) c).map fun (request, _) =>
    reply (request >>= env.process)

/-- An environment in which the pictures are grey and nothing is detected in them. -/
def sampleEnvironment : Environment where
  sockCheckError n := n < 0
  decompress _ := .error .failed
  allocates size := size ≤ 409600
  rgb yy _ _ := (.ofInt yy, .ofInt yy, .ofInt yy)
  detect _ _ := .ok 0

/-- A grey picture of two rows and two columns. -/
def samplePlanes : Planes where
  imageWidth := 2
  imageHeight := 2
  yRowStride := 2
  uvPixelStride := 1
  uvRowStride := 1
  yData := [10, 20, 30, 40]
  uData := [128]
  vData := [128]

end DetectionTask

end Gaze
