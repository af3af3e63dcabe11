import Gaze.Detection

/-!
# The images of JPEG files

The decoder (`jpgd`) gives three bytes for each pixel, since this is what it is asked for, and
reports the number of channels of the file, which is one where it is in shades of grey.
`decodeJPG` copies as many bytes as the pixels have channels.

* `JpegDecoder.length_decompress`: the buffer of the decoder has as many bytes for each pixel
  as it is asked for, whatever the file.
* `decodeJPG_complete_iff`: the image has all the pixels exactly if the file has three
  channels, or no pixel.
-/

namespace Gaze.DetectionTask

/-- A `jpeg_decoder` that has read the header of a file. -/
structure JpegDecoder where
  width : ℕ
  height : ℕ
  numComponents : ℕ
  /-- `begin_decoding` supports no other number. -/
  numComponents_eq : numComponents = 1 ∨ numComponents = 3
  beginDecoding : Except JpgdStop Unit
  /-- There is memory for some bytes. -/
  allocates : ℕ → Bool
  /-- `decode`: the line of some number, with one byte for each pixel, or four. -/
  decode : ℕ → Except JpgdStop (List UInt8)
  length_decode : ∀ y line, decode y = .ok line →
    line.length = width * if numComponents = 1 then 1 else 4

namespace JpegDecoder

variable (decoder : JpegDecoder) (reqComps : ℕ)

/-- The pixel of some number in a line. -/
def pixel (line : List UInt8) (x : ℕ) : List UInt8 :=
  if decoder.numComponents = 1 then
    let luma := line.getD x 0
    if reqComps = 1 then [luma]
    else if reqComps = 3 then [luma, luma, luma]
    else [luma, luma, luma, 255]
  else
    let r := line.getD (x * 4) 0
    let g := line.getD (x * 4 + 1) 0
    let b := line.getD (x * 4 + 2) 0
    if reqComps = 1 then
      [UInt8.ofNat ((r.toNat * 19595 + g.toNat * 38470 + b.toNat * 7471 + 32768) / 2 ^ 16)]
    else if reqComps = 3 then [r, g, b]
    else [r, g, b, line.getD (x * 4 + 3) 0]

/-- `decompress_jpeg_image_from_stream`, which gives `reqComps` bytes for each pixel. -/
def decompress : Except JpgdStop (List UInt8) :=
  if reqComps ≠ 1 ∧ reqComps ≠ 3 ∧ reqComps ≠ 4 then .error .failed
  else decoder.beginDecoding >>= fun _ =>
    if ¬ decoder.allocates (decoder.width * reqComps * decoder.height) then .error .failed
    else do
      let lines ← (List.range decoder.height).mapM decoder.decode
      return lines.flatMap fun line =>
        (List.range decoder.width).flatMap (decoder.pixel reqComps line)

variable {decoder reqComps} {data : List UInt8}

theorem length_pixel (h : reqComps = 1 ∨ reqComps = 3 ∨ reqComps = 4) (line : List UInt8) (x : ℕ) :
    (decoder.pixel reqComps line x).length = reqComps := by
  unfold pixel
  rcases h with rfl | rfl | rfl <;> split_ifs <;> first | rfl | contradiction

theorem length_flatMap_of_length_eq {α : Type} {f : α → List UInt8} {n : ℕ}
    (h : ∀ a, (f a).length = n) (l : List α) : (l.flatMap f).length = l.length * n := by
  induction l with
  | nil => rw [List.flatMap_nil, List.length_nil, List.length_nil, Nat.zero_mul]
  | cons a l ih => rw [List.flatMap_cons, List.length_append, ih, h, List.length_cons, Nat.succ_mul,
      Nat.add_comm]

/-- A sequence is a success if both of its parts are. -/
theorem of_bind_eq_ok {α β ε : Type} {x : Except ε α} {f : α → Except ε β} {b : β}
    (h : x >>= f = .ok b) : ∃ a, x = .ok a ∧ f a = .ok b := by
  cases x with
  | ok a => exact ⟨a, rfl, h⟩
  | error e => cases h

theorem length_of_mapM_eq_ok {α β ε : Type} {f : α → Except ε β} {l : List α} {l' : List β}
    (h : l.mapM f = .ok l') : l'.length = l.length := by
  induction l generalizing l' with
  | nil => rw [← Except.ok.inj h]; rfl
  | cons a l ih =>
    rw [List.mapM_cons] at h
    obtain ⟨b, -, hrest⟩ := of_bind_eq_ok h
    obtain ⟨l'', hl'', hl'⟩ := of_bind_eq_ok hrest
    rw [← Except.ok.inj hl', List.length_cons, List.length_cons, ih hl'']

/-- The buffer has as many bytes for each pixel as it is asked for. -/
theorem length_decompress (h : decoder.decompress reqComps = .ok data) :
    data.length = reqComps * (decoder.width * decoder.height) := by
  unfold decompress at h
  split_ifs at h with hreq hallocates
  · have hreq' : reqComps = 1 ∨ reqComps = 3 ∨ reqComps = 4 := by tauto
    have hline : ∀ line, ((List.range decoder.width).flatMap
        (decoder.pixel reqComps line)).length = decoder.width * reqComps := fun line => by
      rw [length_flatMap_of_length_eq (length_pixel hreq' line), List.length_range]
    obtain ⟨-, -, hrest⟩ := of_bind_eq_ok h
    obtain ⟨lines, hlines, hdata⟩ := of_bind_eq_ok hrest
    rw [← Except.ok.inj hdata, length_flatMap_of_length_eq hline, length_of_mapM_eq_ok hlines,
      List.length_range, Nat.mul_comm, Nat.mul_comm decoder.width, Nat.mul_assoc]
  · -- There is no memory for the image.
    obtain ⟨-, -, hrest⟩ := of_bind_eq_ok h
    cases hrest

end JpegDecoder

/-- `decompress_jpeg_image_from_memory`, asked for three bytes for each pixel, when
    `jpeg_decoder` is the constructor of decoders. -/
def decompressFromMemory (jpegDecoder : List UInt8 → Except JpgdStop JpegDecoder)
    (srcData : List UInt8) : Except JpgdStop Decompressed :=
  jpegDecoder srcData >>= fun decoder =>
    match h : decoder.decompress 3 with
    | .ok data =>
      .ok ⟨decoder.width, decoder.height, decoder.numComponents, data,
        JpegDecoder.length_decompress h, decoder.numComponents_eq⟩
    | .error stop => .error stop

variable {env : Environment} {compressedData : List UInt8} {d : Decompressed} {image : Image}

/-- The image that `decodeJPG` fills, whose matrix has no more pixels than the decoder's. -/
theorem decodeJPG_eq_ok (hd : env.decompress compressedData = .ok d)
    (himage : env.decodeJPG compressedData = .ok image) :
    ∃ size ≤ d.width * d.height, image = ⟨d.height, d.width,
      (d.data.take (d.width * d.height * d.channels)).map some ++
        (List.replicate (3 * size) none).drop
          (d.data.take (d.width * d.height * d.channels)).length⟩ := by
  rw [Environment.decodeJPG, hd] at himage
  dsimp only at himage
  rw [Environment.newMatrix] at himage
  split_ifs at himage with hsize hallocates
  · cases himage
  · refine ⟨_, ?_, (Except.ok.inj himage).symm⟩
    have hmod : ((d.height : ℤ) * d.width % 2 ^ 64).toNat = d.width * d.height % 2 ^ 64 := by
      rw [Int.mul_comm]
      exact_mod_cast Int.toNat_natCast (d.width * d.height % 2 ^ 64)
    rw [hmod]
    exact Nat.mod_le _ _
  · cases himage

/-- The image is what the decoder has decompressed exactly if the file has three channels, or
    no pixel. -/
theorem decodeJPG_complete_iff (hd : env.decompress compressedData = .ok d)
    (himage : env.decodeJPG compressedData = .ok image) :
    image = ⟨d.height, d.width, d.data.map some⟩ ↔ d.channels = 3 ∨ d.width * d.height = 0 := by
  obtain ⟨size, hsize, rfl⟩ := decodeJPG_eq_ok hd himage
  have hlength := d.length_data
  constructor
  · intro heq
    rcases d.channels_eq with hone | hthree
    · refine .inr ?_
      obtain ⟨-, -, hdata⟩ := Image.mk.inj heq
      rw [hone, Nat.mul_one] at hdata
      -- The decoder has written no indeterminate byte: the copy leaves no room for one.
      have hdrop : (List.replicate (3 * size) (none : Option UInt8)).drop
          (d.data.take (d.width * d.height)).length = [] := by
        rw [List.eq_nil_iff_forall_not_mem]
        intro b hb
        obtain rfl := List.eq_of_mem_replicate (List.mem_of_mem_drop hb)
        have hmem : none ∈ d.data.map some := hdata ▸ List.mem_append_right _ hb
        obtain ⟨c, -, hc⟩ := List.mem_map.1 hmem
        cases hc
      rw [hdrop, List.append_nil] at hdata
      have htake := congrArg List.length hdata
      rw [List.length_map, List.length_map, List.length_take, hlength] at htake
      omega
    · exact .inl hthree
  · intro h
    have hall : d.data.take (d.width * d.height * d.channels) = d.data := by
      refine List.take_of_length_le ?_
      rcases h with hthree | hzero
      · rw [hlength, hthree]
        omega
      · rw [hlength, hzero]
        omega
    rw [hall, List.drop_eq_nil_of_le (by rw [List.length_replicate, hlength]; omega),
      List.append_nil]

/-- The JPEG file of one pixel in a shade of grey: its difference is zero, and it has no other
    coefficient. -/
def greyFile : List UInt8 :=
  -- SOI, DQT
  [0xFF, 0xD8, 0xFF, 0xDB, 0x00, 0x43, 0x00] ++ List.replicate 64 1 ++
  -- SOF0
  [0xFF, 0xC0, 0x00, 0x0B, 0x08, 0x00, 0x01, 0x00, 0x01, 0x01, 0x01, 0x11, 0x00] ++
  -- DHT: a code of one bit, for each of two tables
  [0xFF, 0xC4, 0x00, 0x14, 0x00, 0x01] ++ List.replicate 15 0 ++ [0x00] ++
  [0xFF, 0xC4, 0x00, 0x14, 0x10, 0x01] ++ List.replicate 15 0 ++ [0x00] ++
  -- SOS, two bits of data, EOI
  [0xFF, 0xDA, 0x00, 0x08, 0x01, 0x01, 0x00, 0x00, 0x3F, 0x00, 0x3F, 0xFF, 0xD9]

/-- The JPEG file of one grey pixel, with three channels. -/
def colorFile : List UInt8 :=
  [0xFF, 0xD8, 0xFF, 0xDB, 0x00, 0x43, 0x00] ++ List.replicate 64 1 ++
  [0xFF, 0xC0, 0x00, 0x11, 0x08, 0x00, 0x01, 0x00, 0x01, 0x03, 0x01, 0x11, 0x00, 0x02, 0x11, 0x00,
    0x03, 0x11, 0x00] ++
  [0xFF, 0xC4, 0x00, 0x14, 0x00, 0x01] ++ List.replicate 15 0 ++ [0x00] ++
  [0xFF, 0xC4, 0x00, 0x14, 0x10, 0x01] ++ List.replicate 15 0 ++ [0x00] ++
  -- SOS, six bits of data, EOI
  [0xFF, 0xDA, 0x00, 0x0C, 0x03, 0x01, 0x00, 0x02, 0x00, 0x03, 0x00, 0x00, 0x3F, 0x00, 0x03,
    0xFF, 0xD9]

/-- What decompresses the two files, whose pixel has the luminance 128. -/
def onePixel : Environment where
  sockCheckError n := n ≤ 0
  decompress data :=
    if data = greyFile then .ok ⟨1, 1, 1, [128, 128, 128], rfl, .inl rfl⟩
    else if data = colorFile then .ok ⟨1, 1, 3, [128, 128, 128], rfl, .inr rfl⟩
    else .error .failed
  allocates _ := true
  rgb _ _ _ := (0, 0, 0)
  detect _ _ := .ok 0

theorem decodeJPG_complete_iff_color :
    (⟨1, 1, [some 128, some 128, some 128]⟩ : Image) = ⟨1, 1, [128, 128, 128].map some⟩ ↔
      3 = 3 ∨ 1 * 1 = 0 :=
  @decodeJPG_complete_iff onePixel colorFile ⟨1, 1, 3, [128, 128, 128], rfl, .inr rfl⟩ _ rfl rfl

/-- Of a pixel in a shade of grey, only the first of three bytes is copied. -/
theorem not_decodeJPG_complete_grey :
    ¬ ∀ (env : Environment) (compressedData : List UInt8) (d : Decompressed) (image : Image),
      env.decompress compressedData = .ok d → env.decodeJPG compressedData = .ok image →
      image = ⟨d.height, d.width, d.data.map some⟩ := by
  intro h
  have hgrey := h onePixel greyFile ⟨1, 1, 1, [128, 128, 128], rfl, .inl rfl⟩
    ⟨1, 1, [some 128, none, none]⟩ rfl rfl
  exact absurd hgrey (by decide)

end Gaze.DetectionTask
