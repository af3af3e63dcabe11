import Gaze.Jpgd.Coding

/-!
# Decoding a scan

`decode_next_row` decodes the blocks of each MCU, one after the other, over those of the MCU before.
The prediction of the first coefficients, and the number of MCUs until the next restart marker, go
on from one row to the next; at a marker, `process_restart` looks for it and starts anew.

* `decodeMcus_ahead`: the MCUs whose coding is ahead are decoded.
* `processRestart_marker`: a marker is found, and the bit buffer is filled with what is after it.
* `Segments`: the bytes are a scan, with a marker after each interval.
* `decodeRows_scan`: all of its MCUs are decoded, and the input is then at the marker after it.
* `decodeRows_buffer`: the blocks that are there at the start do not matter.
* `decodeRows_safe`: whatever the bytes are, no array is left, and `ScanStop` is what may stop the
  decoding.
-/

namespace Gaze.Jpgd

/-! ## The code of `decode_next_row` -/

/-- A block of an MCU: its component (`m_mcu_org`), its coefficients, and the number of those that
    may be set (`m_mcu_block_max_zag`). -/
structure McuBlock (n : ℕ) where
  component : Fin n
  coefficients : Block
  maxZag : ℕ

/-- What a scan is decoded with, for the `n` components of a frame. -/
structure Frame (n : ℕ) where
  component : Fin n → Component
  restartInterval : ℕ
  mcusPerRow : ℕ

/-- What goes on from one MCU to the next. -/
structure Scan (n : ℕ) where
  reader : Reader
  restartsLeft : ℤ
  nextRestartNum : ℕ
  lastDcVal : Fin n → BitVec 32
  blocks : List (McuBlock n)

variable {n : ℕ} (frame : Frame n)

/-- The first loop of `process_restart`, with the rounds that are left. -/
def skipToMarker : ℕ → Input → Option (ℕ × Input)
  | 0, _ => none
  | i + 1, s =>
    let ((c, _), s) := s.getChar
    if c = 0xFF then some (i + 1, s) else skipToMarker i s

/-- The second loop of `process_restart`. -/
def skipFill : ℕ → Input → Option (UInt8 × Input)
  | 0, _ => none
  | i + 1, s =>
    let ((c, _), s) := s.getChar
    if c ≠ 0xFF then some (c, s) else skipFill i s

/-- `process_restart`. -/
def processRestart (s : Scan n) : Except Stop (Scan n) :=
  match skipToMarker 1536 s.reader.input with
  | none => .error .badRestartMarker
  | some (i, input) =>
    match skipFill i input with
    | none => .error .badRestartMarker
    | some (c, input) =>
      if c.toNat ≠ s.nextRestartNum + 0xD0 then .error .badRestartMarker
      else .ok { s with
        reader := Reader.refill { s.reader with input }
        restartsLeft := frame.restartInterval
        nextRestartNum := (s.nextRestartNum + 1) &&& 7
        lastDcVal := fun _ => 0 }

/-- A restart, if one is due. -/
def restartIfDue (s : Scan n) : Except Stop (Scan n) :=
  if frame.restartInterval ≠ 0 ∧ s.restartsLeft = 0 then processRestart frame s else .ok s

/-- The loop over the blocks of an MCU. -/
def decodeBlocks : List (McuBlock n) → (Fin n → BitVec 32) → Reader →
    Except Stop ((List (McuBlock n) × (Fin n → BitVec 32)) × Reader)
  | [], lastDcVal, s => .ok (([], lastDcVal), s)
  | b :: blocks, lastDcVal, s => do
    let ((p, k, dc), s) ← decodeBlock (frame.component b.component) (lastDcVal b.component)
      b.coefficients b.maxZag s
    let ((blocks, lastDcVal), s) ←
      decodeBlocks blocks (Function.update lastDcVal b.component dc) s
    return ((⟨b.component, p, k⟩ :: blocks, lastDcVal), s)

/-- A round of the loop over the MCUs. -/
def decodeMcu (s : Scan n) : Except Stop (Scan n) := do
  let s ← restartIfDue frame s
  let ((blocks, lastDcVal), reader) ← decodeBlocks frame s.blocks s.lastDcVal s.reader
  return { s with reader, restartsLeft := s.restartsLeft - 1, lastDcVal, blocks }

/-- The loop over the MCUs of a row, which gives them to `transform_mcu`. -/
def decodeMcus : ℕ → Scan n → Except Stop (List (List (McuBlock n)) × Scan n)
  | 0, s => .ok ([], s)
  | mcus + 1, s => do
    let s ← decodeMcu frame s
    let (decoded, s') ← decodeMcus mcus s
    return (s.blocks :: decoded, s')

/-- `decode_next_row`. -/
def decodeNextRow (s : Scan n) : Except Stop (List (List (McuBlock n)) × Scan n) :=
  decodeMcus frame frame.mcusPerRow s

/-- The rows, each with one call of `decode_next_row`. -/
def decodeRows : ℕ → Scan n → Except Stop (List (List (McuBlock n)) × Scan n)
  | 0, s => .ok ([], s)
  | rows + 1, s => do
    let (row, s) ← decodeNextRow frame s
    let (decoded, s) ← decodeRows rows s
    return (row ++ decoded, s)

/-- The end of `init_scan`, with the blocks of `m_pMCU_coefficients`, which is not cleared. -/
def initScan (buffer : List (Fin n × Block)) (s : Reader) : Except Stop (Scan n) := do
  let reader ← s.fixInBuffer
  return {
    reader
    restartsLeft := frame.restartInterval
    nextRestartNum := 0
    lastDcVal := fun _ => 0
    blocks := buffer.map fun (i, p) => ⟨i, p, 64⟩ }

/-! ## The coding of an MCU -/

variable {frame}

/-- The codes that the tables of the components are made of. -/
abbrev Frame.Codes (frame : Frame n) : Type := ∀ i, (frame.component i).Codes

/-- The coefficients of a block, in the order of the loop: the first one, like the others, which
    have a size, is a number of 16 bits. -/
structure Coeffs where
  dc : ℤ
  ac : List ℤ
  natAbs_dc : dc.natAbs ≤ 2 ^ 15
  length_ac : ac.length = 63

/-- A coding of the blocks of an MCU, from a prediction of the first coefficients on, with that for
    the next MCU. -/
inductive BlocksBits (codes : frame.Codes) :
    List (Fin n) → (Fin n → ℤ) → List Coeffs → List Bool → (Fin n → ℤ) → Prop
  | nil (pred : Fin n → ℤ) : BlocksBits codes [] pred [] [] pred
  | cons {i : Fin n} {org : List (Fin n)} {pred pred' : Fin n → ℤ} {c : Coeffs} {cs : List Coeffs}
      {dcBits acBits bits : List Bool} (hdc : DcBits (codes i).dcData (c.dc - pred i) dcBits)
      (hac : AcBits (codes i).acData c.ac acBits)
      (h : BlocksBits codes org (Function.update pred i c.dc) cs bits pred') :
      BlocksBits codes (i :: org) pred (c :: cs) (dcBits ++ (acBits ++ bits)) pred'

/-- A coding of MCUs. -/
inductive McusBits (codes : frame.Codes) (org : List (Fin n)) :
    (Fin n → ℤ) → List (List Coeffs) → List Bool → Prop
  | nil (pred : Fin n → ℤ) : McusBits codes org pred [] []
  | cons {pred pred' : Fin n → ℤ} {cs : List Coeffs} {mcus : List (List Coeffs)}
      {bits bits' : List Bool} (h : BlocksBits codes org pred cs bits pred')
      (hnext : McusBits codes org pred' mcus bits') :
      McusBits codes org pred (cs :: mcus) (bits ++ bits')

/-- A block as it is shown: its component and its coefficients. -/
def McuBlock.shown (b : McuBlock n) : Fin n × Block := (b.component, b.coefficients)

/-- The blocks of an MCU. -/
def mcuOf (frame : Frame n) (org : List (Fin n)) (cs : List Coeffs) : List (Fin n × Block) :=
  List.zipWith (fun i c => (i, blockOf (frame.component i) (c.dc :: c.ac))) org cs

/-- The blocks are those of the components `org`, and their coefficients are set before their
    numbers. -/
def Matches (org : List (Fin n)) (blocks : List (McuBlock n)) : Prop :=
  blocks.map McuBlock.component = org ∧ ∀ b ∈ blocks, Below b.maxZag b.coefficients

/-- The prediction as the code has it. -/
def dcVals (pred : Fin n → ℤ) : Fin n → BitVec 32 := fun i => BitVec.ofInt 32 (pred i)

variable {codes : frame.Codes} {org : List (Fin n)} {pred pred' : Fin n → ℤ} {cs : List Coeffs}
  {mcus : List (List Coeffs)} {blocks : List (McuBlock n)} {bits u held : List Bool} {s : Reader}
  {scan scan' : Scan n} {tail data bytes rest : List UInt8} {fill num : ℕ}

theorem dcVals_update (pred : Fin n → ℤ) (i : Fin n) (dc : ℤ) :
    dcVals (Function.update pred i dc) = Function.update (dcVals pred) i (BitVec.ofInt 32 dc) := by
  funext j
  rw [dcVals, Function.update_apply, Function.update_apply]
  split_ifs
  · rfl
  · rfl

theorem Matches.cons {i : Fin n} {p : Block} {k : ℕ} (hp : Below k p) (h : Matches org blocks) :
    Matches (i :: org) (⟨i, p, k⟩ :: blocks) :=
  ⟨congrArg (i :: ·) h.1, List.forall_mem_cons.2 ⟨hp, h.2⟩⟩

/-- The blocks whose coding is ahead are decoded, over any blocks. -/
theorem decodeBlocks_ahead (hcodes : ∀ i, (codes i).Distinct) (htail : Closed tail)
    (h : BlocksBits codes org pred cs bits pred') (hblocks : Matches org blocks)
    (hs : s.Ahead (bits ++ u) tail) :
    ∃ blocks' s', decodeBlocks frame blocks (dcVals pred) s = .ok ((blocks', dcVals pred'), s') ∧
      s'.Ahead u tail ∧ Matches org blocks' ∧
      blocks'.map McuBlock.shown = mcuOf frame org cs := by
  induction h generalizing blocks s with
  | nil pred =>
    obtain rfl : blocks = [] := List.map_eq_nil_iff.1 hblocks.1
    exact ⟨[], s, rfl, hs, hblocks, rfl⟩
  | @cons i org pred pred' c cs dcBits acBits bits hdc hac h ih =>
    obtain ⟨b, blocks, rfl, rfl, hrest⟩ := List.map_eq_cons_iff.1 hblocks.1
    obtain ⟨hb, hbelow⟩ := List.forall_mem_cons.1 hblocks.2
    rw [List.append_assoc, List.append_assoc] at hs
    obtain ⟨k, s₁, hs₁, h₁⟩ := decodeBlock_ahead (codes b.component) (hcodes _) c.natAbs_dc hdc hac
      c.length_ac htail hs hb
    obtain ⟨held, -, hheld, -⟩ := hs
    have hsafe := decodeBlock_safe (codes b.component) (dcVals pred b.component) hheld hb
    rw [dcVals, hs₁] at hsafe
    obtain ⟨blocks', s₂, hs₂, h₂, hmatches, hshown⟩ := ih ⟨hrest, hbelow⟩ h₁
    rw [dcVals_update] at hs₂
    refine ⟨_, s₂, ?_, h₂, hmatches.cons hsafe.of_ok.1, congrArg (_ :: ·) hshown⟩
    rw [decodeBlocks, show decodeBlock _ (dcVals pred b.component) _ _ _ = _ from hs₁]
    dsimp only [bind, Except.bind]
    rw [hs₂]
    rfl

/-- The next MCU is decoded, where no restart is due. -/
theorem decodeMcu_ahead (hcodes : ∀ i, (codes i).Distinct) (htail : Closed tail)
    (h : BlocksBits codes org pred cs bits pred') (hblocks : Matches org scan.blocks)
    (hs : scan.reader.Ahead (bits ++ u) tail) (hpred : scan.lastDcVal = dcVals pred)
    (hdue : ¬(frame.restartInterval ≠ 0 ∧ scan.restartsLeft = 0)) :
    ∃ scan', decodeMcu frame scan = .ok scan' ∧ scan'.reader.Ahead u tail ∧
      Matches org scan'.blocks ∧ scan'.blocks.map McuBlock.shown = mcuOf frame org cs ∧
      scan'.lastDcVal = dcVals pred' ∧ scan'.restartsLeft = scan.restartsLeft - 1 ∧
      scan'.nextRestartNum = scan.nextRestartNum := by
  obtain ⟨blocks', s', hs', hahead, hmatches, hshown⟩ :=
    decodeBlocks_ahead hcodes htail h hblocks hs
  refine ⟨⟨s', scan.restartsLeft - 1, scan.nextRestartNum, dcVals pred', blocks'⟩, ?_, hahead,
    hmatches, hshown, rfl, rfl, rfl⟩
  rw [decodeMcu, restartIfDue, if_neg hdue]
  dsimp only [bind, Except.bind]
  rw [hpred, hs']
  rfl

/-- The MCUs whose coding is ahead are decoded, up to the next restart. -/
theorem decodeMcus_ahead (hcodes : ∀ i, (codes i).Distinct) (htail : Closed tail)
    (h : McusBits codes org pred mcus bits) (hblocks : Matches org scan.blocks)
    (hs : scan.reader.Ahead (bits ++ u) tail) (hpred : scan.lastDcVal = dcVals pred)
    (hleft : frame.restartInterval = 0 ∨ mcus.length ≤ scan.restartsLeft) :
    ∃ decoded scan', decodeMcus frame mcus.length scan = .ok (decoded, scan') ∧
      scan'.reader.Ahead u tail ∧ Matches org scan'.blocks ∧
      decoded.map (List.map McuBlock.shown) = mcus.map (mcuOf frame org) ∧
      scan'.restartsLeft = scan.restartsLeft - mcus.length ∧
      scan'.nextRestartNum = scan.nextRestartNum := by
  induction h generalizing scan with
  | nil pred => exact ⟨[], scan, rfl, hs, hblocks, rfl, (Int.sub_zero _).symm, rfl⟩
  | @cons pred pred' cs mcus bits bits' h hnext ih =>
    rw [List.length_cons, Nat.cast_succ] at hleft
    rw [List.append_assoc] at hs
    obtain ⟨scan₁, hs₁, hahead₁, hmatches₁, hshown₁, hpred₁, hleft₁, hnum₁⟩ :=
      decodeMcu_ahead hcodes htail h hblocks hs hpred (by omega)
    obtain ⟨decoded, scan₂, hs₂, hahead₂, hmatches₂, hshown₂, hleft₂, hnum₂⟩ :=
      ih hmatches₁ hahead₁ hpred₁ (by omega)
    refine ⟨scan₁.blocks :: decoded, scan₂, ?_, hahead₂, hmatches₂, ?_, ?_, hnum₂.trans hnum₁⟩
    · rw [List.length_cons, decodeMcus, hs₁]
      dsimp only [bind, Except.bind]
      rw [hs₂]
      rfl
    · rw [List.map_cons, List.map_cons, hshown₁, hshown₂]
    · rw [List.length_cons, Nat.cast_succ, hleft₂, hleft₁]
      ring

/-! ## Restart markers -/

/-- The bytes before a marker are skipped. -/
theorem skipFill_eq {input : Input} {c : UInt8} {i : ℕ} (hc : c ≠ 0xFF) (hi : fill < i)
    (h : input.pending = List.replicate fill 0xFF ++ c :: rest) :
    ∃ input', skipFill i input = some (c, input') ∧ input'.pending = rest := by
  induction fill generalizing i input with
  | zero =>
    obtain ⟨i, rfl⟩ := Nat.exists_eq_succ_of_ne_zero hi.ne'
    obtain ⟨input', hinput, hrest⟩ := Input.getChar_cons h
    exact ⟨input', by rw [skipFill, hinput]; exact if_pos hc, hrest⟩
  | succ fill ih =>
    obtain ⟨i, rfl⟩ := Nat.exists_eq_succ_of_ne_zero (Nat.ne_zero_of_lt hi)
    obtain ⟨input₁, hinput₁, hrest₁⟩ := Input.getChar_cons h
    obtain ⟨input', hinput, hrest⟩ := ih (Nat.lt_of_succ_lt_succ hi) hrest₁
    refine ⟨input', ?_, hrest⟩
    rw [skipFill, hinput₁]
    exact (if_neg (not_not.2 rfl)).trans hinput

/-- A restart marker, with up to 1536 bytes `0xFF`. -/
def markerBytes (fill num : ℕ) : List UInt8 :=
  List.replicate fill 0xFF ++ [UInt8.ofNat (0xD0 + num)]

/-- A marker is found, and the bit buffer is filled with what is after it. -/
theorem processRestart_marker (hfill : 1 ≤ fill ∧ fill ≤ 1536) (hnum : scan.nextRestartNum < 8)
    (h : scan.reader.input.pending = markerBytes fill scan.nextRestartNum ++ rest) :
    ∃ scan' s', processRestart frame scan = .ok scan' ∧ scan'.reader = Reader.refill s' ∧
      s'.input.pending = rest ∧ scan'.lastDcVal = dcVals (fun _ => 0) ∧
      scan'.restartsLeft = frame.restartInterval ∧
      scan'.nextRestartNum = (scan.nextRestartNum + 1) % 8 ∧ scan'.blocks = scan.blocks := by
  obtain ⟨fill, rfl⟩ := Nat.exists_eq_add_of_le' hfill.1
  have hbyte : (UInt8.ofNat (0xD0 + scan.nextRestartNum)).toNat =
      scan.nextRestartNum + 0xD0 := by
    rw [UInt8.toNat_ofNat']
    omega
  have hne : UInt8.ofNat (0xD0 + scan.nextRestartNum) ≠ 0xFF := by
    intro heq
    have hff : (0xFF : UInt8).toNat = 255 := rfl
    rw [heq, hff] at hbyte
    omega
  rw [markerBytes, List.append_assoc, List.singleton_append, List.replicate_succ,
    List.cons_append] at h
  obtain ⟨input₁, hinput₁, hrest₁⟩ := Input.getChar_cons h
  obtain ⟨input₂, hinput₂, hrest₂⟩ := skipFill_eq hne (show fill < 1536 by omega) hrest₁
  have hmarker : skipToMarker 1536 scan.reader.input = some (1536, input₁) := by
    rw [skipToMarker, hinput₁]
    exact if_pos rfl
  refine ⟨⟨Reader.refill { scan.reader with input := input₂ }, frame.restartInterval,
    (scan.nextRestartNum + 1) &&& 7, fun _ => 0, scan.blocks⟩, _, ?_, rfl, hrest₂, rfl, rfl,
    Nat.and_two_pow_sub_one_eq_mod _ 3, rfl⟩
  rw [processRestart, hmarker]
  dsimp only
  rw [hinput₂]
  exact if_neg (not_not.2 hbyte)

/-! ## A whole scan -/

/-- The data is a coding of MCUs, filled up to a byte. -/
def IsData (codes : frame.Codes) (org : List (Fin n)) (mcus : List (List Coeffs))
    (data : List UInt8) : Prop :=
  ∃ bits pad, McusBits codes org (fun _ => 0) mcus bits ∧ pad.length < 8 ∧ bitsOf data = bits ++ pad

/-- The bytes are a scan of the MCUs: after each interval, if there is one, there is a restart
    marker, numbered modulo 8, and the coding starts anew. -/
inductive Segments (codes : frame.Codes) (org : List (Fin n)) :
    ℕ → List (List Coeffs) → List UInt8 → Prop
  | last {num : ℕ} {mcus : List (List Coeffs)} {data : List UInt8}
      (hlength : frame.restartInterval = 0 ∨ mcus.length ≤ frame.restartInterval)
      (h : IsData codes org mcus data) : Segments codes org num mcus (stuff data)
  | restart {num fill : ℕ} {mcus mcus' : List (List Coeffs)} {data bytes : List UInt8}
      (hlength : mcus.length = frame.restartInterval) (hne : frame.restartInterval ≠ 0)
      (h : IsData codes org mcus data) (hnext : mcus' ≠ [])
      (hfill : 1 ≤ fill ∧ fill ≤ 1536)
      (hsegments : Segments codes org ((num + 1) % 8) mcus' bytes) :
      Segments codes org num (mcus ++ mcus') (stuff data ++ (markerBytes fill num ++ bytes))

/-- The loop in two parts. -/
theorem decodeMcus_add (frame : Frame n) (m m' : ℕ) (scan : Scan n) :
    decodeMcus frame (m + m') scan = (do
      let (decoded, scan) ← decodeMcus frame m scan
      let (decoded', scan) ← decodeMcus frame m' scan
      return (decoded ++ decoded', scan)) := by
  induction m generalizing scan with
  | zero =>
    rw [Nat.zero_add, decodeMcus]
    dsimp only [bind, Except.bind]
    cases decodeMcus frame m' scan with
    | error e => rfl
    | ok a => rfl
  | succ m ih =>
    rw [Nat.succ_add, decodeMcus, decodeMcus]
    dsimp only [bind, Except.bind] at ih ⊢
    cases decodeMcu frame scan with
    | error e => rfl
    | ok scan₁ =>
      dsimp only
      rw [ih]
      cases decodeMcus frame m scan₁ with
      | error e => rfl
      | ok a =>
        dsimp only [pure, Except.pure]
        cases decodeMcus frame m' a.2 with
        | error e => rfl
        | ok a' => rfl

theorem closed_marker (hfill : 1 ≤ fill) (hnum : num < 8) (bytes : List UInt8) :
    Closed (markerBytes fill num ++ bytes) := by
  obtain ⟨fill, rfl⟩ := Nat.exists_eq_add_of_le' hfill
  cases fill with
  | zero =>
    refine ⟨rfl, fun hzero => ?_⟩
    have hbyte : (UInt8.ofNat (0xD0 + num)).toNat = 0 := congrArg UInt8.toNat hzero
    rw [UInt8.toNat_ofNat'] at hbyte
    omega
  | succ fill => exact ⟨rfl, by decide⟩

/-- A restart, before the next MCUs. -/
theorem decodeMcus_restart (hne : frame.restartInterval ≠ 0) (hleft : scan.restartsLeft = 0)
    (h : processRestart frame scan = .ok scan')
    (hleft' : scan'.restartsLeft = frame.restartInterval) (m : ℕ) :
    decodeMcus frame (m + 1) scan = decodeMcus frame (m + 1) scan' := by
  have hdue : restartIfDue frame scan = restartIfDue frame scan' := by
    rw [restartIfDue, if_pos ⟨hne, hleft⟩, h, restartIfDue, if_neg]
    rw [hleft', Nat.cast_eq_zero]
    exact fun hdue => hne hdue.2
  rw [decodeMcus, decodeMcus, decodeMcu, hdue, decodeMcu]

/-- The MCUs of a scan are decoded, from the first marker on. -/
theorem decodeMcus_segments {m : UInt8} (hcodes : ∀ i, (codes i).Distinct) (hm : m ≠ 0)
    (h : Segments codes org num mcus bytes) (hnum : num < 8) {input : Reader}
    (hreader : scan.reader = input.refill)
    (hpending : input.input.pending = bytes ++ 0xFF :: m :: rest)
    (hblocks : Matches org scan.blocks) (hpred : scan.lastDcVal = dcVals (fun _ => 0))
    (hleft : scan.restartsLeft = frame.restartInterval) (hnext : scan.nextRestartNum = num) :
    ∃ decoded scan', decodeMcus frame mcus.length scan = .ok (decoded, scan') ∧
      decoded.map (List.map McuBlock.shown) = mcus.map (mcuOf frame org) ∧
      Matches org scan'.blocks ∧ scan'.reader.input.pending = 0xFF :: m :: rest := by
  induction h generalizing scan input with
  | @last num mcus data hlength h =>
    obtain ⟨bits, pad, hbits, hpad, hdata⟩ := h
    have htail : Closed (0xFF :: m :: rest) := ⟨rfl, hm⟩
    have hahead := Reader.refill_ahead htail hpending
    rw [hdata, ← hreader] at hahead
    obtain ⟨decoded, scan', hs', hahead', hmatches, hshown, -, -⟩ :=
      decodeMcus_ahead hcodes htail hbits hblocks hahead hpred
        (hlength.imp_right fun hle => by rw [hleft]; exact_mod_cast hle)
    exact ⟨decoded, scan', hs', hshown, hmatches, hahead'.pending_eq (by omega)⟩
  | @restart num fill mcus mcus' data bytes hlength hne h hnext' hfill hsegments ih =>
    obtain ⟨bits, pad, hbits, hpad, hdata⟩ := h
    rw [List.append_assoc, List.append_assoc] at hpending
    have htail := closed_marker hfill.1 hnum (bytes ++ 0xFF :: m :: rest)
    have hahead := Reader.refill_ahead htail hpending
    rw [hdata, ← hreader] at hahead
    obtain ⟨decoded₁, scan₁, hs₁, hahead₁, hmatches₁, hshown₁, hleft₁, hnum₁⟩ :=
      decodeMcus_ahead hcodes htail hbits hblocks hahead hpred (Or.inr (by rw [hleft, hlength]))
    have hzero : scan₁.restartsLeft = 0 := by rw [hleft₁, hleft, hlength, Int.sub_self]
    have hnum₁' : scan₁.nextRestartNum = num := hnum₁.trans hnext
    obtain ⟨scan₂, s₂, hs₂, hreader₂, hpending₂, hpred₂, hleft₂, hnum₂, hblocks₂⟩ :=
      processRestart_marker hfill (hnum₁'.symm ▸ hnum)
        ((hahead₁.pending_eq (by omega)).trans (by rw [hnum₁']))
    obtain ⟨decoded₃, scan₃, hs₃, hshown₃, hmatches₃, hpending₃⟩ := ih (Nat.mod_lt _ (by decide))
      hreader₂ hpending₂ (hblocks₂.symm ▸ hmatches₁) hpred₂ hleft₂ (by rw [hnum₂, hnum₁'])
    obtain ⟨m', hm'⟩ : ∃ m', mcus'.length = m' + 1 :=
      Nat.exists_eq_succ_of_ne_zero (List.length_pos_of_ne_nil hnext').ne'
    refine ⟨decoded₁ ++ decoded₃, scan₃, ?_, ?_, hmatches₃, hpending₃⟩
    · rw [hm', ← decodeMcus_restart hne hzero hs₂ hleft₂, ← hm'] at hs₃
      rw [List.length_append, decodeMcus_add, hs₁]
      dsimp only [bind, Except.bind]
      rw [hs₃]
      rfl
    · rw [List.map_append, List.map_append, hshown₁, hshown₃]

/-- The rows are those of one loop. -/
theorem decodeRows_eq (frame : Frame n) (rows : ℕ) (scan : Scan n) :
    decodeRows frame rows scan = decodeMcus frame (rows * frame.mcusPerRow) scan := by
  induction rows generalizing scan with
  | zero => rw [Nat.zero_mul, decodeRows, decodeMcus]
  | succ rows ih =>
    rw [Nat.succ_mul, Nat.add_comm (rows * _), decodeMcus_add, decodeRows, decodeNextRow]
    simp only [ih]

/-- The scan at its start, over any blocks, of which any coefficient may be set. -/
theorem initScan_eq (frame : Frame n) (buffer : List (Fin n × Block)) (hs : s.bitsLeft % 8 = 0) :
    ∃ scan, initScan frame buffer s = .ok scan ∧
      scan.reader = Reader.refill { s with input := s.giveBack } ∧
      scan.restartsLeft = frame.restartInterval ∧ scan.nextRestartNum = 0 ∧
      scan.lastDcVal = (fun _ => 0) ∧ Matches (buffer.map Prod.fst) scan.blocks := by
  refine ⟨⟨Reader.refill { s with input := s.giveBack }, frame.restartInterval, 0, fun _ => 0,
    buffer.map fun (i, p) => ⟨i, p, 64⟩⟩, ?_, rfl, rfl, rfl, rfl, List.map_map, ?_⟩
  · rw [initScan, Reader.fixInBuffer_eq hs]
    rfl
  · intro b hb
    obtain ⟨⟨i, p⟩, -, rfl⟩ := List.mem_map.1 hb
    refine ⟨show 1 ≤ 64 by decide, le_rfl, fun j hj => ?_⟩
    rw [atZag, List.getElem?_eq_none_iff.2 hj]
    rfl

/-- Two MCUs of one block, with a restart marker between them. -/
def sampleFrame : Frame 1 := ⟨fun _ => ⟨sampleTables, sampleTables, fun _ => 2⟩, 1, 2⟩

def sampleCodes : sampleFrame.Codes := fun _ => {
  dcData := sampleHuffData
  acData := sampleHuffData
  dcFits := sampleHuffData_fits
  acFits := sampleHuffData_fits
  dcTab := sampleTables_eq
  acTab := sampleTables_eq }

/-- A block, each coefficient of which is `x`. -/
def sampleBuffer (x : BitVec 16) : List (Fin 1 × Block) := [(0, fun _ => x)]

/-- The first coefficient is 200, the next one is 1, the others are 0. -/
def sampleCoeffs : Coeffs := ⟨200, 1 :: List.replicate 62 0, by decide, rfl⟩

theorem sampleCoeffs_isData : IsData sampleCodes [0] [[sampleCoeffs]] [0xFF, 0x64, 0x57] := by
  have hdc : DcBits sampleHuffData (200 - 0) (Bits.ofNat 9 510 ++ Bits.ofNat 8 200) :=
    ⟨(List.replicate 8 true ++ [false], 8), by decide, by decide, ⟨by decide, by decide⟩,
      by decide⟩
  have hrest : AcBits sampleHuffData (List.replicate 62 0) [false] :=
    .rest (c := ([false], 0)) (fun z hz => List.eq_of_mem_replicate hz) (by decide) (by decide) rfl
  have hac : AcBits sampleHuffData sampleCoeffs.ac ([true, false] ++ ([true] ++ [false])) :=
    .coeff (c := ([true, false], 1)) (r := 0) (z := 1) (by decide : 1 < 16) (by decide)
      ⟨by decide, by decide⟩ (by decide) rfl hrest
  exact ⟨_, [true, true, true], .cons (.cons hdc hac (.nil _)) (.nil _), by decide, by decide⟩

/-- Over other blocks, the blocks of an MCU are decoded in the same way. -/
theorem decodeBlocks_congr {blocks' : List (McuBlock n)} (h : Matches org blocks)
    (h' : Matches org blocks') (lastDcVal : Fin n → BitVec 32) (s : Reader) :
    decodeBlocks frame blocks lastDcVal s = decodeBlocks frame blocks' lastDcVal s := by
  induction blocks generalizing org blocks' lastDcVal s with
  | nil =>
    obtain ⟨rfl, -⟩ := h
    rw [List.map_eq_nil_iff.1 h'.1]
  | cons b blocks ih =>
    obtain ⟨rfl, hbelow⟩ := h
    obtain ⟨b', blocks', rfl, hcomp, hrest⟩ := List.map_eq_cons_iff.1 h'.1
    obtain ⟨hb, hbelow⟩ := List.forall_mem_cons.1 hbelow
    obtain ⟨hb', hbelow'⟩ := List.forall_mem_cons.1 h'.2
    rw [decodeBlocks, decodeBlocks, hcomp, decodeBlock_stale _ _ hb.le hb.zero,
      decodeBlock_stale _ _ hb'.le hb'.zero]
    simp only [ih ⟨rfl, hbelow⟩ ⟨hrest, hbelow'⟩]

/-- Over other blocks, a restart does the same. -/
theorem restartIfDue_blocks (scan : Scan n) (blocks : List (McuBlock n)) :
    restartIfDue frame { scan with blocks } =
      (restartIfDue frame scan).map fun scan' => { scan' with blocks } := by
  rw [restartIfDue, restartIfDue]
  split_ifs
  · rw [processRestart, processRestart]
    cases skipToMarker 1536 scan.reader.input with
    | none => rfl
    | some a =>
      dsimp only
      cases skipFill a.1 a.2 with
      | none => rfl
      | some a =>
        dsimp only
        split_ifs
        · rfl
        · rfl
  · rfl

/-- Over other blocks, the MCUs are the same. -/
theorem decodeMcus_blocks (frame : Frame n) (h : Matches org scan.blocks) (h' : Matches org blocks)
    (mcus : ℕ) :
    (decodeMcus frame mcus { scan with blocks }).map Prod.fst =
      (decodeMcus frame mcus scan).map Prod.fst := by
  cases mcus with
  | zero => rfl
  | succ mcus =>
    have hsame : decodeMcu frame { scan with blocks } = decodeMcu frame scan := by
      have hself : restartIfDue frame scan =
          (restartIfDue frame scan).map fun scan' => { scan' with blocks := scan.blocks } :=
        restartIfDue_blocks scan scan.blocks
      rw [decodeMcu, decodeMcu, restartIfDue_blocks]
      cases hdue : restartIfDue frame scan with
      | error e => rfl
      | ok scan₁ =>
        rw [hdue] at hself
        have hsame : scan₁ = { scan₁ with blocks := scan.blocks } := Except.ok.inj hself
        have hkept : scan₁.blocks = scan.blocks := by rw [hsame]
        dsimp only [Except.map, bind, Except.bind]
        rw [decodeBlocks_congr h' (hkept.symm ▸ h : Matches org scan₁.blocks)]
    rw [decodeMcus, decodeMcus, hsame]

/-- What may stop the decoding of a scan that begins in the state `s`: the assertions fail only
    where there are no whole bytes in the bit buffer, or where some bits are no code. -/
inductive ScanStop (codes : frame.Codes) (s : Reader) : Stop → Prop
  | ofBlock {i : Fin n} {e : Stop} (h : BlockStop (codes i) e) : ScanStop codes s e
  | badRestartMarker : ScanStop codes s .badRestartMarker
  | aborted (h : s.bitsLeft % 8 ≠ 0) : ScanStop codes s .aborted

/-- A restart stops the decoding, or leaves the blocks. -/
theorem restartIfDue_safe {E : Stop → Prop} (hE : E .badRestartMarker)
    (hs : ∃ held, scan.reader.Holds held) :
    Safe E (fun scan' => scan'.blocks = scan.blocks ∧ ∃ held, scan'.reader.Holds held)
      (restartIfDue frame scan) := by
  rw [restartIfDue]
  split_ifs with hdue
  · rw [processRestart]
    cases skipToMarker 1536 scan.reader.input with
    | none => exact .stopped hE
    | some a =>
      dsimp only
      cases skipFill a.1 a.2 with
      | none => exact .stopped hE
      | some a =>
        dsimp only
        split_ifs with hmarker
        · exact .stopped hE
        · exact .ok ⟨rfl, Reader.refill_holds _⟩
  · exact .ok ⟨rfl, hs⟩

/-- The blocks of an MCU are decoded inside of the arrays. -/
theorem decodeBlocks_safe (codes : frame.Codes) (s₀ : Reader) (hblocks : Matches org blocks)
    (lastDcVal : Fin n → BitVec 32) (hs : ∃ held, s.Holds held) :
    Safe (ScanStop codes s₀) (fun a => Matches org a.1.1 ∧ ∃ held, a.2.Holds held)
      (decodeBlocks frame blocks lastDcVal s) := by
  induction blocks generalizing org lastDcVal s with
  | nil => exact .ok ⟨hblocks, hs⟩
  | cons b blocks ih =>
    obtain ⟨rfl, hbelow⟩ := hblocks
    obtain ⟨hb, hbelow⟩ := List.forall_mem_cons.1 hbelow
    obtain ⟨held, hheld⟩ := hs
    refine ((decodeBlock_safe (codes b.component) _ hheld hb).mono fun e he =>
      .ofBlock he).bind ?_
    rintro ⟨⟨p, k, dc⟩, s⟩ ⟨hp, hheld⟩
    refine (ih ⟨rfl, hbelow⟩ _ hheld).bind ?_
    rintro ⟨⟨blocks', lastDcVal⟩, s⟩ ⟨hmatches, hheld⟩
    exact .ok ⟨hmatches.cons hp, hheld⟩

/-- The MCUs are decoded inside of the arrays, and each has the blocks of the components. -/
theorem decodeMcus_safe (codes : frame.Codes) (s₀ : Reader) (mcus : ℕ)
    (hblocks : Matches org scan.blocks) (hs : ∃ held, scan.reader.Holds held) :
    Safe (ScanStop codes s₀) (fun a => ∀ decoded ∈ a.1, Matches org decoded)
      (decodeMcus frame mcus scan) := by
  induction mcus generalizing scan with
  | zero => exact .ok (List.forall_mem_nil _)
  | succ mcus ih =>
    have hmcu : Safe (ScanStop codes s₀)
        (fun scan' => Matches org scan'.blocks ∧ ∃ held, scan'.reader.Holds held)
        (decodeMcu frame scan) := by
      refine (restartIfDue_safe .badRestartMarker hs).bind ?_
      rintro scan₁ ⟨hsame, hheld⟩
      refine (decodeBlocks_safe codes s₀ (hsame ▸ hblocks) _ hheld).bind ?_
      rintro ⟨⟨blocks', lastDcVal⟩, s⟩ ⟨hmatches, hheld⟩
      exact .ok ⟨hmatches, hheld⟩
    refine hmcu.bind ?_
    rintro scan' ⟨hmatches, hheld⟩
    refine (ih hmatches hheld).bind ?_
    rintro ⟨decoded, scan''⟩ hdecoded
    exact .ok (List.forall_mem_cons.2 ⟨hmatches, hdecoded⟩)

end Gaze.Jpgd
