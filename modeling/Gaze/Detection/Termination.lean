import Gaze.Detection.Planes

/-!
# The end of a detection task

When the peer has closed its side of the connection, `recv` returns `0`, which is not an
error: a task that needs more bytes calls it for ever. `terminates_iff`: a task ends, with
one answer, and closes its socket, exactly if the stream begins with a request that is whole,
or with something that the task refuses; unless the decoder of JPEG files aborts the process on
the data of the request (its assertions are compiled in), or it is undefined what the task does
with them or with the planes of the request.
-/

namespace Gaze

open Socket

namespace DetectionTask

/-! ## Undefined behaviour -/

/-- The computation has a result if `p`, and its behaviour is undefined otherwise. -/
def DefinedIf {α : Type} (x : Except Stop α) (p : Prop) : Prop :=
  (p → ∃ a, x = .ok a) ∧ (¬p → x = .error .undefined)

namespace DefinedIf

variable {α β : Type} {x : Except Stop α} {f : α → Except Stop β} {p q : Prop}

theorem congr (h : DefinedIf x p) (hpq : p ↔ q) : DefinedIf x q := propext hpq ▸ h

theorem ok (a : α) : DefinedIf (.ok a) True := ⟨fun _ => ⟨a, rfl⟩, fun h => absurd trivial h⟩

theorem undefined : DefinedIf (.error .undefined : Except Stop α) False :=
  ⟨fun h => h.elim, fun _ => rfl⟩

/-- A sequence is defined if both of its parts are. -/
theorem bind (hx : DefinedIf x p) (hf : ∀ a, DefinedIf (f a) q) : DefinedIf (x >>= f) (p ∧ q) := by
  by_cases hp : p
  · obtain ⟨a, rfl⟩ := hx.1 hp
    exact (hf a).congr (and_iff_right hp).symm
  · rw [hx.2 hp]
    exact ⟨fun h => absurd h.1 hp, fun _ => rfl⟩

theorem mapM {l : List α} {P : α → Prop} (h : ∀ a ∈ l, DefinedIf (f a) (P a)) :
    DefinedIf (l.mapM f) (∀ a ∈ l, P a) := by
  induction l with
  | nil => exact (ok []).congr (by simp)
  | cons a l ih =>
    obtain ⟨ha, hl⟩ := List.forall_mem_cons.1 h
    rw [List.mapM_cons]
    refine (ha.bind fun b => (ih hl).bind fun bs => ok (b :: bs)).congr ?_
    rw [and_true, List.forall_mem_cons]

/-- A loop is defined if its counter does not overflow and all its rounds are defined. -/
theorem forInt {n : ℕ} {body : ℕ → Except Stop (List UInt8)} {P : ℕ → Prop}
    (h : ∀ i < n, i < 2 ^ 31 → DefinedIf (body i) (P i)) :
    DefinedIf (forInt n body) (n < 2 ^ 31 ∧ ∀ i < n, P i) := by
  have hrounds : DefinedIf ((List.range (min n (2 ^ 31))).mapM body)
      (∀ i ∈ List.range (min n (2 ^ 31)), P i) :=
    mapM fun i hi => h i (by rw [List.mem_range] at hi; omega) (by rw [List.mem_range] at hi; omega)
  rw [DetectionTask.forInt]
  -- The counter is an `int`: it overflows in the round `2 ^ 31`, if there are as many.
  by_cases hn : 2 ^ 31 ≤ n
  · simp only [if_pos hn]
    exact (hrounds.bind fun _ => undefined).congr
      (iff_of_false And.right fun h => Nat.not_lt.2 hn h.1)
  · simp only [if_neg hn]
    refine (hrounds.bind fun written => ok written.flatten).congr ?_
    rw [and_true, and_iff_right (Nat.lt_of_not_le hn), Nat.min_eq_left (by omega)]
    simp only [List.mem_range]

theorem charAt (data : List UInt8) (i : ℤ) :
    DefinedIf (charAt data i) (0 ≤ i ∧ i < (data.length + 1 : ℕ)) := by
  rw [DetectionTask.charAt]
  split_ifs with h
  · exact (ok _).congr (iff_of_true trivial ⟨h.1, by omega⟩)
  · exact ⟨fun hi => absurd ⟨hi.1, by omega⟩ h, fun _ => rfl⟩

end DefinedIf

/-! ## The images -/

variable {env : Environment} {planes : Planes}

/-- The decoding is defined if the counters do not overflow, and if the indices of all the pixels
    are at most the sizes of the planes. -/
theorem definedIf_yuv420p2rgb888 (env : Environment)
    (width height yRowStride uvPixelStride uvRowStride : ℕ) (yData uData vData : List UInt8) :
    DefinedIf
      (env.yuv420p2rgb888 width height yRowStride uvPixelStride uvRowStride yData uData vData)
      (height < 2 ^ 31 ∧ ∀ y < height, width < 2 ^ 31 ∧ ∀ x < width,
        (0 ≤ (yIndex yRowStride y x : ℤ) ∧
          (yIndex yRowStride y x : ℤ) < (yData.length + 1 : ℕ)) ∧
        (0 ≤ uvIndex uvPixelStride uvRowStride y x ∧
          uvIndex uvPixelStride uvRowStride y x < (uData.length + 1 : ℕ)) ∧
        (0 ≤ uvIndex uvPixelStride uvRowStride y x ∧
          uvIndex uvPixelStride uvRowStride y x < (vData.length + 1 : ℕ)) ∧ True) :=
  .forInt fun _ _ _ => .forInt fun _ _ _ =>
    (DefinedIf.charAt yData _).bind fun _ => (DefinedIf.charAt uData _).bind fun _ =>
      (DefinedIf.charAt vData _).bind fun _ => .ok _

theorem toSize_lt_iff {n : Int32} : toSize n < 2 ^ 31 ↔ 0 ≤ n := by
  constructor
  · intro h
    by_contra hneg
    exact absurd (toSize_of_neg (Int32.not_le.1 hneg)) (Nat.not_le.2 h)
  · intro h
    have hsize := toSize_of_nonneg h
    have hlt := n.toInt_lt
    omega

/-- The decoding of an image that has been allocated is defined if its height is not negative, and
    if its last pixel is inside of the planes, or just after them. -/
theorem definedIf_decodeYUV (hroom : planes.HasRoom env) (hwidth : planes.imageWidth ≤ 640)
    (hheight : planes.imageHeight ≤ 640) (hy : planes.yData.length ≤ 10485760)
    (hu : planes.uData.length ≤ 10485760) (hv : planes.vData.length = planes.uData.length) :
    DefinedIf (env.decodeYUV planes) (0 ≤ planes.imageHeight ∧
      planes.LastFits (planes.yData.length + 1) (planes.uData.length + 1)) := by
  obtain ⟨image, himage⟩ := newMatrix_of_hasRoom hroom
  have hdefined := (DefinedIf.ok image).bind fun image =>
    (definedIf_yuv420p2rgb888 env (toSize planes.imageWidth) (toSize planes.imageHeight)
      (toSize planes.yRowStride) (toSize planes.uvPixelStride) (toSize planes.uvRowStride)
      planes.yData planes.uData planes.vData).bind fun rgbData => .ok (image.copy rgbData)
  rw [Environment.decodeYUV, himage]
  -- The string of a plane may be read up to its zero, one index after its last byte.
  refine hdefined.congr ?_
  rw [true_and, and_true, ← hroom.within_iff hwidth hheight (by omega) (by omega), hv,
    toSize_lt_iff]
  refine and_congr_right fun hnonneg => ⟨fun h y x hy _ hx _ => ?_, fun h y hy => ?_⟩
  · obtain ⟨⟨-, hlt⟩, huv, -⟩ := (h y hy).2 x hx
    exact ⟨Int.ofNat_lt.1 hlt, huv⟩
  · -- There are rows, and memory for the image: its width is not negative.
    have hw : toSize planes.imageWidth < 2 ^ 31 := by
      rw [toSize_lt_iff]
      by_contra hneg
      have hneg := Int32.not_le.1 hneg
      have hrows : planes.imageHeight ≠ 0 := by
        rintro hzero
        rw [hzero] at hy
        exact absurd hy (Nat.not_lt_zero y)
      rcases hroom.sign (Int32.ne_of_lt hneg) hrows with ⟨hpos, -⟩ | ⟨-, hneg'⟩
      · exact Int32.lt_irrefl (Int32.lt_trans hneg hpos)
      · exact absurd hnonneg (Int32.not_le.2 hneg')
    have hh := toSize_lt_iff.2 hnonneg
    refine ⟨hw, fun x hx => ?_⟩
    obtain ⟨hlt, huv⟩ := h y x hy (by omega) hx (by omega)
    exact ⟨⟨Int.natCast_nonneg _, Int.ofNat_lt.2 hlt⟩, huv, huv, trivial⟩

/-! ## The answers -/

/-- The computation has a result, or throws an exception: it neither aborts the process, nor is its
    behaviour undefined. -/
def Returns {α : Type} (x : Except Stop α) : Prop := x ≠ .error .aborted ∧ x ≠ .error .undefined

/-- The image of the request is decoded, or an exception is thrown: it is a JPEG file on which the
    decoder neither aborts nor is undefined, or it is not allocated, or its height is not negative
    and its last pixel is inside of the planes, or just after them, where the strings have a
    zero. -/
def Request.Decodable (env : Environment) : Request → Prop
  | .jpg _ imageData =>
    env.decompress imageData ≠ .error .aborted ∧ env.decompress imageData ≠ .error .undefined
  | .yuv _ planes => ¬planes.HasRoom env ∨ 0 ≤ planes.imageHeight ∧
      planes.LastFits (planes.yData.length + 1) (planes.uData.length + 1)

theorem returns_ok {α : Type} (a : α) : Returns (.ok a) := ⟨by simp, by simp⟩

theorem returns_thrown {α : Type} (e : Exception) : Returns (.error (.thrown e) : Except Stop α) :=
  ⟨by simp, by simp⟩

theorem DefinedIf.returns_iff_condition {α : Type} {x : Except Stop α} {p : Prop}
    (h : DefinedIf x p) : Returns x ↔ p := by
  by_cases hp : p
  · obtain ⟨a, rfl⟩ := h.1 hp
    exact iff_of_true (returns_ok a) hp
  · rw [h.2 hp]
    exact iff_of_false (fun hreturns => hreturns.2 rfl) hp

/-- A sequence whose second part returns. -/
theorem returns_bind_iff {α β : Type} {x : Except Stop α} {f : α → Except Stop β}
    (hf : ∀ a, Returns (f a)) : Returns (x >>= f) ↔ Returns x := by
  cases x with
  | ok a => exact iff_of_true (hf a) (returns_ok a)
  | error e => simp [Returns, bind, Except.bind]

theorem returns_detectIn (env : Environment) (detectorName : List UInt8) (image : Image) :
    Returns (env.detectIn detectorName image) := by
  rw [Environment.detectIn]
  cases env.detect detectorName image with
  | ok dets => exact returns_ok dets
  | error e => exact returns_thrown e

theorem returns_newMatrix (env : Environment) (rows columns : ℤ) :
    Returns (env.newMatrix rows columns) := by
  rw [Environment.newMatrix]
  split_ifs
  · exact returns_thrown _
  · exact returns_ok _
  · exact returns_thrown _

/-- After the decompression, `decodeJPG` needs memory only. -/
theorem returns_decodeJPG_iff (env : Environment) (compressedData : List UInt8) :
    Returns (env.decodeJPG compressedData) ↔ env.decompress compressedData ≠ .error .aborted ∧
      env.decompress compressedData ≠ .error .undefined := by
  rw [Environment.decodeJPG]
  cases env.decompress compressedData with
  | ok d =>
    refine iff_of_true ?_ ⟨by simp, by simp⟩
    exact (returns_bind_iff fun _ => returns_ok _).2 (returns_newMatrix env _ _)
  | error stop =>
    cases stop with
    | failed => exact iff_of_true (returns_thrown _) ⟨by simp, by simp⟩
    | aborted => exact iff_of_false (fun h => h.1 rfl) fun h => h.1 rfl
    | undefined => exact iff_of_false (fun h => h.2 rfl) fun h => h.2 rfl

/-- A task that has read a request has something to answer exactly if the image is decodable. -/
theorem returns_process_iff {request : Request} (hrequest : request.Accepted) :
    Returns (env.process request) ↔ request.Decodable env := by
  cases request with
  | jpg detectorName imageData =>
    rw [Environment.process, returns_bind_iff (returns_detectIn env detectorName),
      returns_decodeJPG_iff, Request.Decodable]
  | yuv detectorName planes =>
    obtain ⟨-, ⟨hwidth, hheight⟩, hy, hu, hv⟩ := hrequest
    rw [Environment.process, returns_bind_iff (returns_detectIn env detectorName)]
    -- Without memory for the image, an exception is thrown before any pixel is decoded.
    by_cases hroom : planes.HasRoom env
    · rw [(definedIf_decodeYUV hroom hwidth hheight hy hu hv).returns_iff_condition,
        Request.Decodable, or_iff_right (not_not_intro hroom)]
    · obtain ⟨e, he⟩ := newMatrix_of_not_hasRoom hroom
      refine iff_of_true ?_ (.inl hroom)
      rw [Environment.decodeYUV, he]
      exact returns_thrown e

/-- A task that is over has sent `1`, `0` or `-1`, once, and has closed its socket. -/
def Outcome.Answers (outcome : Outcome) : Prop :=
  ∃ n : Int32, (n = 1 ∨ n = 0 ∨ n = -1) ∧ outcome = .done (htonl n) true

theorem answers_reply_iff {result : Except Stop ℕ} : (reply result).Answers ↔ Returns result := by
  match result with
  | .ok dets =>
    refine iff_of_true ⟨if 0 < dets then 1 else 0, ?_, rfl⟩ (returns_ok dets)
    split_ifs <;> simp
  | .error (.thrown e) => exact iff_of_true ⟨-1, .inr (.inr rfl), rfl⟩ (returns_thrown e)
  | .error .aborted => exact iff_of_false (fun ⟨_, _, h⟩ => by simp [reply] at h) fun h => h.1 rfl
  | .error .undefined => exact iff_of_false (fun ⟨_, _, h⟩ => by simp [reply] at h) fun h => h.2 rfl

/-- The task ends, and has sent one answer and closed its socket. -/
def Terminates (env : Environment) (c : Connection) : Prop :=
  ∃ bound outcome, outcome.Answers ∧ ∀ fuel, bound ≤ fuel → run env fuel c = some outcome

/-- A task terminates exactly if the stream begins with something that it refuses, or with a
    request that is whole and whose image is decodable. -/
theorem terminates_iff {c : Connection} (hcheck : ∀ n : ℕ, env.sockCheckError n = false) :
    Terminates env c ↔ (∃ refused, Refused refused ∧ refused <+: c.pending) ∨
      ∃ request : Request, (request.Accepted ∧ request.Decodable env) ∧
        request.bytes <+: c.pending := by
  constructor
  · rintro ⟨bound, outcome, hanswers, hrun⟩
    obtain ⟨⟨r, c'⟩, hexec, houtcome⟩ := Option.map_eq_some_iff.1 (hrun bound le_rfl)
    obtain rfl := houtcome
    -- A task that ends has read a request, or something that it refuses: there is no other end.
    have hparse := Reading.parse_of_exec (Environment.fillsOnly hcheck) hexec
    obtain ⟨request, haccepted, rfl, hbytes⟩ | ⟨e, refused, -, hrefused, hbytes⟩ :=
      of_parse_receiveRequest hparse
    · refine .inr ⟨request, ⟨haccepted, ?_⟩, c'.pending, hbytes.symm⟩
      exact (returns_process_iff haccepted).1 (answers_reply_iff.1 hanswers)
    · exact .inl ⟨refused, hrefused, c'.pending, hbytes.symm⟩
  · rintro (⟨refused, hrefused, rest, hbytes⟩ | ⟨request, ⟨haccepted, hdecodable⟩, rest, hbytes⟩)
    · obtain ⟨e, hparse⟩ := parse_receiveRequest_refused hrefused rest
      rw [hbytes] at hparse
      obtain ⟨bound, c', -, hexec⟩ := Reading.exec_of_parse
        (Environment.fillsOnly hcheck).toFills hparse
      have hanswers : (reply (.error (.thrown e))).Answers := answers_reply_iff.2 (returns_thrown e)
      exact ⟨bound, _, hanswers, fun fuel hfuel => by rw [run, hexec fuel hfuel]; rfl⟩
    · obtain ⟨bound, c', -, hexec⟩ :=
        exec_receiveRequest env (fun n _ => hcheck n) request haccepted hbytes.symm
      exact ⟨bound, _, answers_reply_iff.2 ((returns_process_iff haccepted).2 hdecodable),
        fun fuel hfuel => by rw [run, hexec fuel hfuel]; rfl⟩

/-- A task answers to a peer that sends the grey picture. -/
theorem samplePlanes_terminates :
    Terminates sampleEnvironment ⟨(Request.yuv [] samplePlanes).bytes, fun _ => 0⟩ :=
  (terminates_iff (by simp [sampleEnvironment])).2
    (.inr ⟨.yuv [] samplePlanes, ⟨by decide, .inr (by decide)⟩, List.prefix_rfl⟩)

/-- A task never answers to a peer that closes its side without sending anything. -/
theorem empty_stream_not_terminates : ¬∀ (env : Environment) (c : Connection),
    (∀ n : ℕ, env.sockCheckError n = false) → Terminates env c := by
  intro h
  have hcheck : ∀ n : ℕ, sampleEnvironment.sockCheckError n = false := by simp [sampleEnvironment]
  obtain ⟨bound, outcome, -, hrun⟩ := h sampleEnvironment ⟨[], fun _ => 0⟩ hcheck
  have hnone := Reading.exec_eq_none (p := receiveRequest) (c := ⟨[], fun _ => 0⟩)
    (Environment.fillsOnly hcheck) rfl bound
  have hsome := hrun bound le_rfl
  rw [run, hnone] at hsome
  exact absurd hsome (by simp)

end DetectionTask

end Gaze
