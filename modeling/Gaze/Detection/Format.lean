import Gaze.Detection

/-!
# The requests of the detection server

The bytes of a request are those of its parts, one after the other; each size is sent
before the bytes it is about (`Request.bytes`).

* `parse_receiveRequest_bytes`: a task reads a request from its bytes, if its sizes are
  accepted, and nothing more.
* `of_parse_receiveRequest`: it reads nothing else: the bytes that it has read are those
  of a request, or they end with a size, dimensions or an image type that it refuses.
-/

namespace Gaze

open Socket

namespace DetectionTask

/-- Some bytes, after their number. -/
def sized (bytes : List UInt8) : List UInt8 := htonl (.ofNat bytes.length) ++ bytes

/-- The five integers before the planes. -/
def Planes.geometry (planes : Planes) : List UInt8 :=
  htonl planes.imageWidth ++ (htonl planes.imageHeight ++ (htonl planes.yRowStride ++
    (htonl planes.uvPixelStride ++ htonl planes.uvRowStride)))

namespace Request

/-- The bytes of a request. -/
def bytes : Request → List UInt8
  | jpg detectorName imageData => sized detectorName ++ (DetectionTask.jpg ++ sized imageData)
  | yuv detectorName planes => sized detectorName ++ (DetectionTask.yuv ++ (planes.geometry ++
      (sized planes.yData ++ (sized planes.uData ++ planes.vData))))

/-- The sizes and the dimensions are accepted. -/
def Accepted : Request → Prop
  | jpg detectorName imageData => detectorName.length ≤ 20 ∧ imageData.length ≤ 10485760
  | yuv detectorName planes => detectorName.length ≤ 20 ∧
      (planes.imageWidth ≤ 640 ∧ planes.imageHeight ≤ 640) ∧ planes.yData.length ≤ 10485760 ∧
      planes.uData.length ≤ 10485760 ∧ planes.vData.length = planes.uData.length

end Request

instance : DecidablePred Request.Accepted
  | .jpg _ _ => inferInstanceAs (Decidable (_ ∧ _))
  | .yuv _ _ => inferInstanceAs (Decidable (_ ∧ (_ ∧ _) ∧ _ ∧ _ ∧ _))

/-- The bytes after which a task reads nothing more, because it refuses what they end with. -/
inductive Refused : List UInt8 → Prop
  | nameSize {n : Int32} : n < 0 ∨ 20 < n → Refused (htonl n)
  | imageType {detectorName imageType : List UInt8} : detectorName.length ≤ 20 →
      imageType.length = 3 → imageType ≠ jpg → imageType ≠ yuv →
      Refused (sized detectorName ++ imageType)
  | imageSize {detectorName : List UInt8} {n : Int32} : detectorName.length ≤ 20 →
      n < 0 ∨ 10485760 < n → Refused (sized detectorName ++ (jpg ++ htonl n))
  | dimensions {detectorName : List UInt8} {imageWidth imageHeight : Int32} :
      detectorName.length ≤ 20 → 640 < imageWidth ∨ 640 < imageHeight →
      Refused (sized detectorName ++ (yuv ++ (htonl imageWidth ++ htonl imageHeight)))
  | ySize {detectorName : List UInt8} {planes : Planes} {n : Int32} : detectorName.length ≤ 20 →
      planes.imageWidth ≤ 640 ∧ planes.imageHeight ≤ 640 → n < 0 ∨ 10485760 < n →
      Refused (sized detectorName ++ (yuv ++ (planes.geometry ++ htonl n)))
  | uvSize {detectorName : List UInt8} {planes : Planes} {n : Int32} : detectorName.length ≤ 20 →
      planes.imageWidth ≤ 640 ∧ planes.imageHeight ≤ 640 → planes.yData.length ≤ 10485760 →
      n < 0 ∨ 10485760 < n →
      Refused (sized detectorName ++ (yuv ++ (planes.geometry ++ (sized planes.yData ++ htonl n))))

variable {α : Type} {bytes data rest : List UInt8} {n bound : Int32} {r : Except Stop α}

/-! ## The sizes -/

theorem toSize_of_nonneg (h : 0 ≤ n) : (toSize n : ℤ) = n.toInt := by
  have hn : 0 ≤ n.toInt := Int32.le_iff_toInt_le.1 h
  have hlt := n.toInt_lt
  rw [toSize, Int.toNat_of_nonneg (Int.emod_nonneg _ (by decide)), Int.emod_eq_of_lt hn (by omega)]

theorem toSize_le_maxSize (h : 0 ≤ n) : toSize n ≤ maxSize := by
  have hsize := toSize_of_nonneg h
  have hlt := n.toInt_lt
  have hmax : maxSize = 2 ^ 63 - 1 := rfl
  omega

/-- A negative size is too big a string. -/
theorem maxSize_lt_toSize (h : n < 0) : maxSize < toSize n := by
  have hn : n.toInt < 0 := Int32.lt_iff_toInt_lt.1 h
  have hle := n.le_toInt
  have hmod : n.toInt % 2 ^ 64 = n.toInt + 2 ^ 64 := by
    rw [← Int.add_emod_right, Int.emod_eq_of_lt (by omega) (by omega)]
  have hmax : maxSize = 2 ^ 63 - 1 := rfl
  rw [toSize, hmod]
  omega

theorem toSize_ofNat {length : ℕ} (h : length ≤ 10485760) : toSize (.ofNat length) = length := by
  have hn : (Int32.ofNat length).toInt = length := Int32.toInt_ofNat_of_lt (by omega)
  rw [toSize, hn]
  omega

theorem ofNat_toSize (h : 0 ≤ n) : .ofNat (toSize n) = n := by
  have hsize := toSize_of_nonneg h
  have hlt := n.toInt_lt
  refine Int32.toInt_inj.1 ?_
  rw [Int32.toInt_ofNat_of_lt (by omega), hsize]

/-! ## The reads -/

section Reads

variable {f : List UInt8 → Reading Stop α} {g : Int32 → Reading Stop α}

theorem parse_read_bind (hdata : data.length ≤ maxSize) :
    (read data.length >>= f).parse (data ++ rest) = (f data).parse rest := by
  rw [read, if_neg (Nat.not_lt.2 hdata)]
  exact Reading.parse_read_append (k := f)

theorem readInt32_bind : readInt32 >>= g = read 4 >>= fun data => g (ntohl data) := rfl

theorem parse_readInt32_bind (n : Int32) (rest : List UInt8) :
    (readInt32 >>= g).parse (htonl n ++ rest) = (g n).parse rest := by
  rw [readInt32_bind, ← length_htonl n, parse_read_bind (by rw [length_htonl]; decide),
    ntohl_htonl]

theorem of_parse_read_bind {length : ℕ} (hlength : length ≤ maxSize)
    (h : (read length >>= f).parse bytes = some (r, rest)) : ∃ data bytes', data.length = length ∧
      bytes = data ++ bytes' ∧ (f data).parse bytes' = some (r, rest) := by
  rw [read, if_neg (Nat.not_lt.2 hlength)] at h
  change (Reading.read length f).parse bytes = some (r, rest) at h
  rw [Reading.parse] at h
  split_ifs at h with hle
  exact ⟨_, _, List.length_take_of_le hle, (List.take_append_drop length bytes).symm, h⟩

theorem of_parse_readInt32_bind (h : (readInt32 >>= g).parse bytes = some (r, rest)) :
    ∃ n bytes', bytes = htonl n ++ bytes' ∧ (g n).parse bytes' = some (r, rest) := by
  rw [readInt32_bind] at h
  obtain ⟨data, bytes', hlength, hbytes, hparse⟩ := of_parse_read_bind (by decide) h
  exact ⟨ntohl data, bytes', by rw [htonl_ntohl hlength, hbytes], hparse⟩

/-- A size, which is refused if it is greater than `bound`, and as many bytes. -/
def readSized (bound : Int32) (what : String) (h : Int32 → List UInt8 → Reading Stop α) :
    Reading Stop α := do
  let n ← readInt32
  if bound < n then .throw (runtimeError what) else
  let data ← read (toSize n)
  h n data

variable {what : String} {h : Int32 → List UInt8 → Reading Stop α}

theorem parse_readSized (hbound : bound ≤ 10485760) (hdata : (data.length : ℤ) ≤ bound.toInt) :
    (readSized bound what h).parse (sized data ++ rest) =
      (h (.ofNat data.length) data).parse rest := by
  have hlength : data.length ≤ 10485760 := by
    have hle : bound.toInt ≤ 10485760 := Int32.le_iff_toInt_le.1 hbound
    omega
  have hn : (Int32.ofNat data.length).toInt = data.length := Int32.toInt_ofNat_of_lt (by omega)
  have hmax : maxSize = 2 ^ 63 - 1 := rfl
  rw [readSized, sized, List.append_assoc, parse_readInt32_bind,
    if_neg (Int32.not_lt.2 (Int32.le_iff_toInt_le.2 (hn ▸ hdata))), toSize_ofNat hlength,
    parse_read_bind (by omega)]

theorem parse_readSized_refused (hn : n < 0 ∨ bound < n) : ∃ e,
    (readSized bound what h).parse (htonl n ++ rest) = some (.error (.thrown e), rest) := by
  rw [readSized, parse_readInt32_bind]
  by_cases hlt : bound < n
  · rw [if_pos hlt]
    exact ⟨_, rfl⟩
  · rw [if_neg hlt, read, if_pos (maxSize_lt_toSize (hn.resolve_right hlt))]
    exact ⟨_, rfl⟩

/-- What has been read is a size and as many bytes, or a size that is refused. -/
theorem of_parse_readSized (hparse : (readSized bound what h).parse bytes = some (r, rest)) :
    (∃ n e, (n < 0 ∨ bound < n) ∧ r = .error (.thrown e) ∧ bytes = htonl n ++ rest) ∨
      ∃ data bytes', (data.length : ℤ) ≤ bound.toInt ∧ bytes = sized data ++ bytes' ∧
        (h (.ofNat data.length) data).parse bytes' = some (r, rest) := by
  obtain ⟨n, bytes₁, rfl, hchecked⟩ := of_parse_readInt32_bind hparse
  split_ifs at hchecked with hlt
  · obtain ⟨rfl, rfl⟩ := Prod.mk.inj (Option.some.inj hchecked)
    exact .inl ⟨n, _, .inr hlt, rfl, rfl⟩
  · by_cases hneg : n < 0
    · rw [read, if_pos (maxSize_lt_toSize hneg), Reading.throw_bind] at hchecked
      obtain ⟨rfl, rfl⟩ := Prod.mk.inj (Option.some.inj hchecked)
      exact .inl ⟨n, _, .inl hneg, rfl, rfl⟩
    · have hnonneg : 0 ≤ n := Int32.not_lt.1 hneg
      obtain ⟨data, bytes', hlength, rfl, hdata⟩ :=
        of_parse_read_bind (toSize_le_maxSize hnonneg) hchecked
      have hn : .ofNat data.length = n := hlength ▸ ofNat_toSize hnonneg
      refine .inr ⟨data, bytes', ?_, ?_, hn ▸ hdata⟩
      · rw [hlength, toSize_of_nonneg hnonneg]
        exact Int32.le_iff_toInt_le.1 (Int32.not_lt.1 hlt)
      · rw [sized, hn, List.append_assoc]

end Reads

/-- The task reads three sized strings, at most. -/
theorem receiveRequest_eq : receiveRequest =
    (readSized 20 "Received detector name too big" fun _ detectorName => do
      let imageType ← read 3
      if imageType = jpg then
        readSized 10485760 "Received image size is too big" fun _ imageData =>
          return .jpg detectorName imageData
      else if imageType = yuv then
        let imageWidth ← readInt32
        let imageHeight ← readInt32
        if 640 < imageWidth ∨ 640 < imageHeight then
          .throw (runtimeError "Received image dimensions are too big")
        else
        let yRowStride ← readInt32
        let uvPixelStride ← readInt32
        let uvRowStride ← readInt32
        readSized 10485760 "Received y plane size is too big" fun _ yData =>
          readSized 10485760 "Received uv planes size is too big" fun uvSize uData => do
            let vData ← read (toSize uvSize)
            return .yuv detectorName
              { imageWidth, imageHeight, yRowStride, uvPixelStride, uvRowStride, yData, uData,
                vData }
      else .throw (runtimeError "Unsupported image format")) := rfl

/-! ## The requests -/

theorem jpg_ne_yuv : jpg ≠ yuv := by decide

theorem parse_read_type {imageType : List UInt8} {f : List UInt8 → Reading Stop α}
    (hlength : imageType.length = 3) :
    (read 3 >>= f).parse (imageType ++ rest) = (f imageType).parse rest :=
  hlength ▸ parse_read_bind (by rw [hlength]; decide)

/-- A task reads an accepted request from its bytes, and nothing more. -/
theorem parse_receiveRequest_bytes {request : Request} (hrequest : request.Accepted) :
    receiveRequest.parse (request.bytes ++ rest) = some (.ok request, rest) := by
  rw [receiveRequest_eq]
  cases request with
  | jpg detectorName imageData =>
    obtain ⟨hname, hdata⟩ := hrequest
    rw [Request.bytes, List.append_assoc, List.append_assoc,
      parse_readSized (by decide) (Int.ofNat_le.2 hname), parse_read_type (by rfl), if_pos rfl,
      parse_readSized (by decide) (Int.ofNat_le.2 hdata), Reading.parse_pure]
  | yuv detectorName planes =>
    obtain ⟨hname, ⟨hwidth, hheight⟩, hy, hu, hv⟩ := hrequest
    have hdimensions : ¬(640 < planes.imageWidth ∨ 640 < planes.imageHeight) :=
      not_or.2 ⟨Int32.not_lt.2 hwidth, Int32.not_lt.2 hheight⟩
    simp only [Request.bytes, Planes.geometry, List.append_assoc]
    rw [parse_readSized (by decide) (Int.ofNat_le.2 hname), parse_read_type (by rfl),
      if_neg jpg_ne_yuv.symm, if_pos rfl, parse_readInt32_bind, parse_readInt32_bind,
      if_neg hdimensions, parse_readInt32_bind, parse_readInt32_bind, parse_readInt32_bind,
      parse_readSized (by decide) (Int.ofNat_le.2 hy),
      parse_readSized (by decide) (Int.ofNat_le.2 hu), toSize_ofNat hu, ← hv,
      parse_read_bind (by rw [hv]; exact Nat.le_trans hu (by decide)), Reading.parse_pure]

/-- A task stops after what it refuses. -/
theorem parse_receiveRequest_refused {refused : List UInt8} (hrefused : Refused refused)
    (rest : List UInt8) :
    ∃ e, receiveRequest.parse (refused ++ rest) = some (.error (.thrown e), rest) := by
  rw [receiveRequest_eq]
  -- Each case goes through the parts that are accepted, up to the one that is refused.
  cases hrefused with
  | nameSize hn => exact parse_readSized_refused hn
  | imageType hname hlength hjpg hyuv =>
    rw [List.append_assoc, parse_readSized (by decide) (Int.ofNat_le.2 hname),
      parse_read_type hlength, if_neg hjpg, if_neg hyuv]
    exact ⟨_, rfl⟩
  | imageSize hname hn =>
    rw [List.append_assoc, List.append_assoc, parse_readSized (by decide) (Int.ofNat_le.2 hname),
      parse_read_type (by rfl), if_pos rfl]
    exact parse_readSized_refused hn
  | dimensions hname hdimensions =>
    simp only [List.append_assoc]
    rw [parse_readSized (by decide) (Int.ofNat_le.2 hname), parse_read_type (by rfl),
      if_neg jpg_ne_yuv.symm, if_pos rfl, parse_readInt32_bind, parse_readInt32_bind,
      if_pos hdimensions]
    exact ⟨_, rfl⟩
  | ySize hname hdimensions hn =>
    simp only [Planes.geometry, List.append_assoc]
    rw [parse_readSized (by decide) (Int.ofNat_le.2 hname), parse_read_type (by rfl),
      if_neg jpg_ne_yuv.symm, if_pos rfl, parse_readInt32_bind, parse_readInt32_bind,
      if_neg (not_or.2 ⟨Int32.not_lt.2 hdimensions.1, Int32.not_lt.2 hdimensions.2⟩),
      parse_readInt32_bind, parse_readInt32_bind, parse_readInt32_bind]
    exact parse_readSized_refused hn
  | uvSize hname hdimensions hy hn =>
    simp only [Planes.geometry, List.append_assoc]
    rw [parse_readSized (by decide) (Int.ofNat_le.2 hname), parse_read_type (by rfl),
      if_neg jpg_ne_yuv.symm, if_pos rfl, parse_readInt32_bind, parse_readInt32_bind,
      if_neg (not_or.2 ⟨Int32.not_lt.2 hdimensions.1, Int32.not_lt.2 hdimensions.2⟩),
      parse_readInt32_bind, parse_readInt32_bind, parse_readInt32_bind,
      parse_readSized (by decide) (Int.ofNat_le.2 hy)]
    exact parse_readSized_refused hn

/-- What a task has read is an accepted request, or something that it refuses. -/
theorem of_parse_receiveRequest {r : Except Stop Request}
    (h : receiveRequest.parse bytes = some (r, rest)) :
    (∃ request : Request, request.Accepted ∧ r = .ok request ∧ bytes = request.bytes ++ rest) ∨
      ∃ e refused, r = .error (.thrown e) ∧ Refused refused ∧ bytes = refused ++ rest := by
  rw [receiveRequest_eq] at h
  -- The task reads part after part; each one is as it should be, or is refused, and ends the
  -- reading.
  obtain ⟨n, e, hn, rfl, rfl⟩ | ⟨name, bytes₁, hname, rfl, h₁⟩ := of_parse_readSized h
  · exact .inr ⟨e, _, rfl, .nameSize hn, rfl⟩
  have hname : name.length ≤ 20 := Int.ofNat_le.1 hname
  obtain ⟨imageType, bytes₂, hlength, rfl, h₂⟩ := of_parse_read_bind (by decide) h₁
  split_ifs at h₂ with hjpg hyuv
  · -- A JPEG file.
    obtain ⟨n, e, hn, rfl, rfl⟩ | ⟨data, bytes₃, hdata, rfl, h₃⟩ := of_parse_readSized h₂
    · refine .inr ⟨e, _, rfl, .imageSize hname hn, ?_⟩
      simp only [hjpg, List.append_assoc]
    · obtain ⟨rfl, rfl⟩ := Prod.mk.inj (Option.some.inj h₃)
      refine .inl ⟨.jpg name data, ⟨hname, Int.ofNat_le.1 hdata⟩, rfl, ?_⟩
      simp only [hjpg, Request.bytes, List.append_assoc]
  · -- Three planes.
    obtain ⟨width, bytes₃, rfl, h₃⟩ := of_parse_readInt32_bind h₂
    obtain ⟨height, bytes₄, rfl, h₄⟩ := of_parse_readInt32_bind h₃
    split_ifs at h₄ with hdimensions
    · obtain ⟨rfl, rfl⟩ := Prod.mk.inj (Option.some.inj h₄)
      refine .inr ⟨_, _, rfl, .dimensions hname hdimensions, ?_⟩
      simp only [hyuv, List.append_assoc]
    · have hle : width ≤ 640 ∧ height ≤ 640 :=
        ⟨Int32.not_lt.1 (not_or.1 hdimensions).1, Int32.not_lt.1 (not_or.1 hdimensions).2⟩
      obtain ⟨yRowStride, bytes₅, rfl, h₅⟩ := of_parse_readInt32_bind h₄
      obtain ⟨uvPixelStride, bytes₆, rfl, h₆⟩ := of_parse_readInt32_bind h₅
      obtain ⟨uvRowStride, bytes₇, rfl, h₇⟩ := of_parse_readInt32_bind h₆
      obtain ⟨n, e, hn, rfl, rfl⟩ | ⟨yData, bytes₈, hy, rfl, h₈⟩ := of_parse_readSized h₇
      · refine .inr ⟨e, _, rfl, @Refused.ySize name ⟨width, height, yRowStride, uvPixelStride,
          uvRowStride, [], [], []⟩ n hname hle hn, ?_⟩
        simp only [hyuv, Planes.geometry, List.append_assoc]
      obtain ⟨n, e, hn, rfl, rfl⟩ | ⟨uData, bytes₉, hu, rfl, h₉⟩ := of_parse_readSized h₈
      · refine .inr ⟨e, _, rfl, @Refused.uvSize name ⟨width, height, yRowStride, uvPixelStride,
          uvRowStride, yData, [], []⟩ n hname hle (Int.ofNat_le.1 hy) hn, ?_⟩
        simp only [hyuv, Planes.geometry, List.append_assoc]
      have hu : uData.length ≤ 10485760 := Int.ofNat_le.1 hu
      rw [toSize_ofNat hu] at h₉
      obtain ⟨vData, rest₁, hv, rfl, h₁₀⟩ := of_parse_read_bind
        (Nat.le_trans hu (by decide)) h₉
      obtain ⟨rfl, rfl⟩ := Prod.mk.inj (Option.some.inj h₁₀)
      refine .inl ⟨.yuv name ⟨width, height, yRowStride, uvPixelStride, uvRowStride, yData, uData,
        vData⟩, ⟨hname, hle, Int.ofNat_le.1 hy, hu, hv⟩, rfl, ?_⟩
      simp only [hyuv, Request.bytes, Planes.geometry, List.append_assoc]
  · obtain ⟨rfl, rfl⟩ := Prod.mk.inj (Option.some.inj h₂)
    refine .inr ⟨_, _, rfl, .imageType hname hlength hjpg hyuv, ?_⟩
    rw [List.append_assoc]

/-! ## The connection -/

namespace Environment

variable {env : Environment} {n need : ℕ} {message : List UInt8} {c : Connection} {fuel : ℕ}

theorem fill_succ_zero :
    env.fill (fuel + 1) message (message.length + 0) c = some (.ok message, c) := by
  rw [fill, if_neg (by simp)]

/-- The loop goes on with what `recv` returns, which may be nothing. -/
theorem fill_succ (hneed : 0 < need) (hcheck : env.sockCheckError (c.recv need).1.length = false) :
    env.fill (fuel + 1) message (message.length + need) c =
      env.fill fuel (message ++ (c.recv need).1) (message.length + need) (c.recv need).2 := by
  rw [fill, if_pos (by omega), Nat.add_sub_cancel_left]
  simp [hcheck]

/-- The loop of `read` only ends with all the bytes. -/
theorem fill_reads {c' : Connection} (hmessage : message.length ≤ n)
    (h : env.fill fuel message n c = some (.ok data, c')) :
    data.length = n ∧ message ++ c.pending = data ++ c'.pending := by
  induction fuel generalizing message c with
  | zero => exact absurd h (by simp [fill])
  | succ fuel ih =>
    rw [fill] at h
    split_ifs at h with hlt
    · dsimp only at h
      split_ifs at h with hcheck
      · exact absurd h (by simp)
      · have hle := c.length_recv_le (n - message.length)
        obtain ⟨hlength, happend⟩ := ih (by rw [List.length_append]; omega) h
        exact ⟨hlength, by rw [← happend, List.append_assoc, Connection.recv_append]⟩
    · obtain ⟨hdata, rfl⟩ := Prod.mk.inj (Option.some.inj h)
      obtain rfl := Except.ok.inj hdata
      exact ⟨Nat.le_antisymm hmessage (Nat.le_of_not_lt hlt), rfl⟩

/-- The loop of `read` ends when there are enough bytes. -/
theorem fill_whole (hcheck : ∀ n : ℕ, 0 < n → env.sockCheckError n = false)
    (message : List UInt8) (hneed : need ≤ c.pending.length) :
    ∃ c', c'.pending = c.pending.drop need ∧
      (∀ fuel r, env.fill fuel message (message.length + need) c = some r →
        r = (.ok (message ++ c.pending.take need), c')) ∧
      ∀ fuel, need < fuel → (env.fill fuel message (message.length + need) c).isSome := by
  -- By induction on the number of bytes that are still needed, whatever has been received.
  induction need using Nat.strongRecOn generalizing message c with
  | ind need ih =>
    rcases Nat.eq_zero_or_pos need with rfl | hpos
    · refine ⟨c, rfl, fun fuel r hr => ?_, fun fuel hfuel => ?_⟩
      · cases fuel with
        | zero => exact absurd hr (by simp [fill])
        | succ fuel =>
          rw [fill_succ_zero] at hr
          rw [List.take_zero, List.append_nil]
          exact (Option.some.inj hr).symm
      · obtain ⟨fuel, rfl⟩ := Nat.exists_eq_succ_of_ne_zero (by omega : fuel ≠ 0)
        rw [fill_succ_zero]
        rfl
    · -- The next call of `recv` returns some bytes: fewer are needed after it.
      have hbytes := Connection.length_recv_pos hpos (by omega : 0 < c.pending.length)
      have hle := c.length_recv_le need
      have happend := c.recv_append need
      have hlength : (message ++ (c.recv need).1).length + (need - (c.recv need).1.length) =
          message.length + need := by
        rw [List.length_append]
        omega
      have hpending := congrArg List.length happend
      rw [List.length_append] at hpending
      obtain ⟨c', hc', hresult, hsome⟩ := ih (need - (c.recv need).1.length) (by omega)
        (message ++ (c.recv need).1) (c := (c.recv need).2) (by omega)
      rw [hlength] at hresult hsome
      refine ⟨c', ?_, fun fuel r hr => ?_, fun fuel hfuel => ?_⟩
      · rw [hc', ← happend, List.drop_append, List.drop_of_length_le hle, List.nil_append]
      · cases fuel with
        | zero => exact absurd hr (by simp [fill])
        | succ fuel =>
          rw [fill_succ hpos (hcheck _ hbytes)] at hr
          rw [hresult fuel r hr, ← happend, List.take_append, List.take_of_length_le hle,
            List.append_assoc]
      · obtain ⟨fuel, rfl⟩ := Nat.exists_eq_succ_of_ne_zero (by omega : fuel ≠ 0)
        rw [fill_succ hpos (hcheck _ hbytes)]
        exact hsome fuel (by omega)

/-- Otherwise, it goes on for ever. -/
theorem fill_short (hcheck : ∀ n : ℕ, env.sockCheckError n = false) (fuel : ℕ)
    (message : List UInt8) (hneed : c.pending.length < need) :
    env.fill fuel message (message.length + need) c = none := by
  induction fuel generalizing message c need with
  | zero => rfl
  | succ fuel ih =>
    have happend := congrArg List.length (c.recv_append need)
    rw [List.length_append] at happend
    have hle := c.length_recv_le need
    have hlength : (message ++ (c.recv need).1).length + (need - (c.recv need).1.length) =
        message.length + need := by
      rw [List.length_append]
      omega
    rw [fill_succ (by omega) (hcheck _), ← hlength]
    exact ih _ (by omega)

theorem reads : Reading.Reads fun fuel => env.fill fuel [] :=
  fun _ _ _ _ _ h => fill_reads (Nat.zero_le _) h

theorem fills (hcheck : ∀ n : ℕ, 0 < n → env.sockCheckError n = false) :
    Reading.Fills fun fuel => env.fill fuel [] where
  whole length c hlength := by
    have hwhole := fill_whole hcheck [] hlength
    rwa [List.length_nil, Nat.zero_add] at hwhole

theorem fillsOnly (hcheck : ∀ n : ℕ, env.sockCheckError n = false) :
    Reading.FillsOnly fun fuel => env.fill fuel [] where
  toFills := fills fun n _ => hcheck n
  short fuel length c hlt := by
    have hshort := fill_short hcheck fuel [] hlt
    rwa [List.length_nil, Nat.zero_add] at hshort

end Environment

/-- A task reads an accepted request, whatever the way the network cuts it. -/
theorem exec_receiveRequest (env : Environment)
    (hcheck : ∀ n : ℕ, 0 < n → env.sockCheckError n = false) (request : Request)
    (hrequest : request.Accepted) {c : Connection} (hpending : c.pending = request.bytes ++ rest) :
    ∃ bound c', c'.pending = rest ∧ ∀ fuel, bound ≤ fuel →
      receiveRequest.exec (env.fill fuel []) c = some (.ok request, c') := by
  refine Reading.exec_of_parse (Environment.fills hcheck) ?_
  rw [hpending]
  exact parse_receiveRequest_bytes hrequest

/-- What a task has read is an accepted request, which it has read to the end. -/
theorem of_exec_receiveRequest {env : Environment} {fuel : ℕ} {c c' : Connection}
    {request : Request}
    (h : receiveRequest.exec (env.fill fuel []) c = some (.ok request, c')) :
    request.Accepted ∧ c.pending = request.bytes ++ c'.pending := by
  have hparse := Reading.parse_of_exec_ok Environment.reads h
  obtain ⟨request', haccepted, heq, hbytes⟩ | ⟨e, _, hr, -⟩ := of_parse_receiveRequest hparse
  · obtain rfl := Except.ok.inj heq
    exact ⟨haccepted, hbytes⟩
  · exact absurd hr (by simp)

end DetectionTask

end Gaze
