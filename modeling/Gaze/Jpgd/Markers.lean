import Gaze.Jpgd.Codes
import Gaze.Jpgd.Reader

/-!
# Reading the markers

What is before a scan is read with `get_bits`, which takes the bytes of the file as they are, and
reads up to two bytes ahead of the bit buffer. `fix_in_buffer` puts back what has been read ahead,
and the data of the scan is read from there with `get_bits_no_markers`.

* `Reader.getBytes_faces`: the bytes that are read are those of the file.
* `readDhtTables_faces`: the tables of a segment are read, each into its place.
* `Reader.Faces.giveBack`: after any number of bytes, all that follows them is put back.
* `Reader.scan_eq`: so the numbers that are read after a header are those of the scan.
-/

namespace Gaze.Jpgd

/-! ## The code of `read_dht_marker` -/

namespace Reader

/-- The loops that read `n` bytes. -/
def getBytes : (n : ℕ) → Reader → {bytes : List UInt8 // bytes.length = n} × Reader
  | 0, s => (⟨[], rfl⟩, s)
  | n + 1, s =>
    let (b, s) := s.getBits 8
    let (bytes, s) := s.getBytes n
    (⟨UInt8.ofNat b :: bytes, congrArg (· + 1) bytes.2⟩, s)

end Reader

/-- `JPGD_MAX_HUFF_TABLES`. -/
def maxHuffTables : ℕ := 8

/-- `m_huff_num` and `m_huff_val`. -/
abbrev HuffTable := Fin maxHuffTables → Option HuffData

/-- The place of a table, by the first byte of it. -/
def huffIndex (index : ℕ) : ℕ := (index &&& 0x0F) + ((index &&& 0x10) >>> 4) * (maxHuffTables >>> 1)

/-- A round of the loop of `read_dht_marker`: the table, its place, and how much is left. -/
def readDhtTable (numLeft : ℕ) (s : Reader) :
    Except Stop ((Fin maxHuffTables × HuffData × ℕ) × Reader) :=
  let (index, s) := s.getBits 8
  let (huffNum, s) := s.getBytes 16
  let count := (huffNum.1.map UInt8.toNat).sum
  if hcount : count > 255 then .error .badDhtCounts
  else
    let (huffVal, s) := s.getBytes count
    let i := 1 + 16 + count
    if numLeft < i then .error .badDhtMarker
    else if index &&& 0x10 > 0x10 then .error .badDhtIndex
    else if hindex : huffIndex index ≥ maxHuffTables then .error .badDhtIndex
    else
      let data : HuffData := ⟨huffNum.1, huffVal.1, huffNum.2, huffVal.2,
        huffVal.2.trans_le (Nat.le_of_not_lt hcount)⟩
      .ok ((⟨huffIndex index, Nat.lt_of_not_le hindex⟩, data, numLeft - i), s)

/-- The loop of `read_dht_marker`: there are at most as many rounds as bytes. -/
def readDhtTables : ℕ → ℕ → HuffTable → Reader → Except Stop (HuffTable × Reader)
  | 0, _, tables, s => .ok (tables, s)
  | rounds + 1, numLeft, tables, s =>
    if numLeft = 0 then .ok (tables, s)
    else do
      let ((index, data, numLeft), s) ← readDhtTable numLeft s
      readDhtTables rounds numLeft (Function.update tables index (some data)) s

/-- `read_dht_marker`. -/
def readDhtMarker (tables : HuffTable) (s : Reader) : Except Stop (HuffTable × Reader) :=
  let (numLeft, s) := s.getBits 16
  if numLeft < 2 then .error .badDhtMarker
  else readDhtTables (numLeft - 2) (numLeft - 2) tables s

/-! ## The bytes of the file -/

variable {s : Reader} {input : Input} {bytes rest data tail held : List UInt8} {b : UInt8} {n : ℕ}

namespace Input

/-- The next two bytes, after which there are only pad characters if there are not as many. -/
theorem twoChars_pending (input : Input) :
    ∃ c1 c2 input' junk, input.twoChars = (Bits.toNat (bitsOf [c1, c2]), input') ∧
      c1 :: c2 :: input'.pending = input.pending ++ junk := by
  have hread : ∀ {c1 c2 f₁ f₂ s₁ s₂}, input.getChar = ((c1, f₁), s₁) →
      s₁.getChar = ((c2, f₂), s₂) → input.twoChars = (Bits.toNat (bitsOf [c1, c2]), s₂) := by
    intro c1 c2 f₁ f₂ s₁ s₂ h₁ h₂
    rw [twoChars, h₁]
    dsimp only
    rw [h₂, octets_eq]
    rfl
  cases h : input.pending with
  | nil =>
    obtain ⟨c1, s₁, hs₁, h₁⟩ := getChar_nil h
    obtain ⟨c2, s₂, hs₂, h₂⟩ := getChar_nil h₁
    exact ⟨c1, c2, s₂, [c1, c2], hread hs₁ hs₂, by rw [h₂]; rfl⟩
  | cons c1 rest =>
    obtain ⟨s₁, hs₁, h₁⟩ := getChar_cons h
    cases rest with
    | nil =>
      obtain ⟨c2, s₂, hs₂, h₂⟩ := getChar_nil h₁
      exact ⟨c1, c2, s₂, [c2], hread hs₁ hs₂, by rw [h₂]; rfl⟩
    | cons c2 rest =>
      obtain ⟨s₂, hs₂, h₂⟩ := getChar_cons h₁
      exact ⟨c1, c2, s₂, [], hread hs₁ hs₂, by rw [h₂, List.append_nil]⟩

end Input

namespace Reader

/-- The bytes are ahead: those in the buffer, and then those of the file. At the end of the file,
    there may be pad characters after them. -/
def Faces (s : Reader) (bytes : List UInt8) : Prop :=
  ∃ held junk, s.Holds (bitsOf held) ∧ held ++ s.input.pending = bytes ++ junk

/-- The bytes of the file are ahead at the start. -/
theorem start_faces (file : List UInt8) : (start file).Faces file := by
  let input : Input := ⟨[], file, false, false, fun h => absurd h Bool.false_ne_true⟩
  have hfile : input.prepInBuffer.pending = file := List.take_append_drop inBufSize file
  obtain ⟨c1, c2, input₁, junk₁, h₁, hpending₁⟩ := input.prepInBuffer.twoChars_pending
  obtain ⟨c3, c4, input₂, junk₂, h₂, hpending₂⟩ := input₁.twoChars_pending
  obtain ⟨i₁, s₁, i₂, s₂, hs₁, hs₂, hheld, rfl⟩ :=
    takeBits_twice (s := ⟨input.prepInBuffer, 0, 16⟩) writes_and_or h₁ (length_bitsOf _) h₂
      (length_bitsOf _)
  have hstart : start file = s₂ := by
    rw [start, getBits]
    dsimp only
    rw [hs₁, hs₂]
  rw [hstart]
  refine ⟨[c1, c2, c3, c4], junk₁ ++ junk₂, hheld, ?_⟩
  rw [← List.append_assoc, ← hfile, ← hpending₁]
  exact congrArg (c1 :: c2 :: ·) hpending₂

theorem toNat_byte (b : UInt8) : Bits.toNat (bitsOf [b]) = b.toNat := by
  rw [bitsOf, bitsOf_nil, List.append_nil, Bits.toNat_ofNat_of_lt b.toNat_lt]

/-- One byte or two are read. -/
theorem getBits_faces (bytes : List UInt8) (hlength : bytes.length ≤ 2)
    (h : s.Faces (bytes ++ rest)) :
    ∃ s', s.getBits (8 * bytes.length) = (Bits.toNat (bitsOf bytes), s') ∧ s'.Faces rest := by
  obtain ⟨held, junk, hheld, heq⟩ := h
  obtain ⟨c1, c2, input, junk', htwo, hpending⟩ := s.input.twoChars_pending
  have hle := hheld.le_length
  rw [length_bitsOf] at hle
  rw [List.append_assoc] at heq
  obtain ⟨r, rfl⟩ : bytes <+: held := List.prefix_of_prefix_length_le
    ⟨rest ++ junk, heq.symm⟩ (List.prefix_append _ _) (by omega)
  rw [List.append_assoc] at heq
  have hrest := List.append_cancel_left heq
  have htake : (bitsOf bytes).length = 8 * bytes.length := length_bitsOf bytes
  rw [bitsOf_append] at hheld
  obtain ⟨s', hs', hfilled⟩ := takeBits_eq writes_and_or hheld
    (htake.ge.trans (List.length_append ▸ Nat.le_add_right _ _)) htwo (length_bitsOf _)
  rw [List.take_left' htake] at hs'
  rw [List.drop_left' htake, ← bitsOf_append] at hfilled
  refine ⟨s', hs', ?_⟩
  rcases hfilled with ⟨hr, hsame⟩ | ⟨hr, rfl⟩
  · exact ⟨r, junk, hr, hsame ▸ hrest⟩
  · refine ⟨r ++ [c1, c2], junk ++ junk', hr, ?_⟩
    rw [← List.append_assoc rest, ← hrest, List.append_assoc, List.append_assoc, ← hpending]
    rfl

/-- The bytes are read one after the other. -/
theorem getBytes_faces (hlength : bytes.length = n) (h : s.Faces (bytes ++ rest)) :
    ∃ s', s.getBytes n = (⟨bytes, hlength⟩, s') ∧ s'.Faces rest := by
  subst hlength
  induction bytes generalizing s with
  | nil => exact ⟨s, rfl, h⟩
  | cons b bytes ih =>
    obtain ⟨s₁, hs₁, h₁⟩ := getBits_faces [b] (by decide : 1 ≤ 2) h
    obtain ⟨s₂, hs₂, h₂⟩ := ih h₁
    refine ⟨s₂, ?_, h₂⟩
    change s.getBytes (bytes.length + 1) = _
    rw [toNat_byte] at hs₁
    rw [getBytes, show s.getBits 8 = _ from hs₁]
    dsimp only
    rw [hs₂]
    exact congrArg (·, s₂) (Subtype.ext (congrArg (· :: bytes) UInt8.ofNat_toNat))

/-! ## What has been read ahead -/

/-- A byte of the bit buffer. -/
theorem Holds.byte_eq (before : List UInt8) {after : List UInt8}
    (h : s.Holds (bitsOf (before ++ b :: after))) :
    UInt8.ofNat (s.bitBuf >>> (24 - 8 * before.length)).toNat = b := by
  have hlength : (bitsOf (before ++ [b])).length = 8 * before.length + 8 := by
    rw [length_bitsOf, List.length_append, List.length_singleton]
    ring
  rw [← List.singleton_append, ← List.append_assoc, bitsOf_append] at h
  have hle := h.length_le
  rw [List.length_append] at hle
  have hshift := h.shiftRight (n := 8 * before.length + 8)
    (by rw [List.length_append, hlength]; exact Nat.le_add_right _ _)
  rw [show 32 - (8 * before.length + 8) = 24 - 8 * before.length by omega,
    List.take_left' hlength, bitsOf_append, Bits.toNat_append, length_bitsOf, toNat_byte] at hshift
  rw [hshift]
  refine UInt8.toNat_inj.1 ?_
  rw [UInt8.toNat_ofNat', List.length_singleton, Nat.mul_add_mod_of_lt b.toNat_lt]

/-- What is in the bit buffer is put back. -/
theorem Holds.giveBack (h : s.Holds (bitsOf held)) :
    s.giveBack.pending = held ++ s.input.pending := by
  have hle := h.le_length
  have hge := h.length_le
  have hleft := h.bitsLeft
  rw [length_bitsOf] at hle hge hleft
  -- The buffer has two bytes, three or four.
  rcases held with _ | ⟨b₁, _ | ⟨b₂, held⟩⟩
  · exact absurd hle (by decide)
  · rw [List.length_singleton] at hle
    omega
  · have hfirst : UInt8.ofNat (s.bitBuf >>> 24).toNat = b₁ := Holds.byte_eq [] h
    have hsecond : UInt8.ofNat (s.bitBuf >>> 16).toNat = b₂ := Holds.byte_eq [b₁] h
    rw [Reader.giveBack, hfirst, hsecond]
    rcases held with _ | ⟨b₃, _ | ⟨b₄, _ | ⟨b₅, held⟩⟩⟩
    · have hleft : s.bitsLeft = 0 := hleft
      rw [hleft, if_neg (by decide), if_neg (by decide)]
      rfl
    · have hthird : UInt8.ofNat (s.bitBuf >>> 8).toNat = b₃ := Holds.byte_eq [b₁, b₂] h
      have hleft : s.bitsLeft = 8 := hleft
      rw [hleft, if_pos (by decide), if_neg (by decide), hthird]
      rfl
    · have hthird : UInt8.ofNat (s.bitBuf >>> 8).toNat = b₃ := Holds.byte_eq [b₁, b₂] h
      have hfourth : UInt8.ofNat s.bitBuf.toNat = b₄ := Holds.byte_eq [b₁, b₂, b₃] h
      have hleft : s.bitsLeft = 16 := hleft
      rw [hleft, if_pos (by decide), if_pos rfl, hthird, hfourth]
      rfl
    · simp only [List.length_cons] at hge
      omega

/-- What is ahead is put back. -/
theorem Faces.giveBack (h : s.Faces bytes) : ∃ junk, s.giveBack.pending = bytes ++ junk := by
  obtain ⟨held, junk, hheld, heq⟩ := h
  exact ⟨junk, hheld.giveBack.trans heq⟩

/-- There are whole bytes in the bit buffer, as `fix_in_buffer` asserts. -/
theorem Faces.bitsLeft (h : s.Faces bytes) : s.bitsLeft % 8 = 0 := by
  obtain ⟨held, junk, hheld, -⟩ := h
  have hleft := hheld.bitsLeft
  rw [length_bitsOf] at hleft
  omega

theorem fixInBuffer_eq (h : s.bitsLeft % 8 = 0) :
    s.fixInBuffer = .ok (refill { s with input := s.giveBack }) := by
  rw [fixInBuffer, jpgdAssert_of h]
  rfl

/-- The data of a scan is ahead after the header, if a marker follows it. -/
theorem fixInBuffer_ahead {m : UInt8} (hm : m ≠ 0) (h : s.Faces (stuff data ++ 0xFF :: m :: rest)) :
    ∃ s' rest', s.fixInBuffer = .ok s' ∧ s'.Ahead (bitsOf data) (0xFF :: m :: rest') := by
  obtain ⟨junk, hjunk⟩ := h.giveBack
  rw [List.append_assoc] at hjunk
  exact ⟨_, rest ++ junk, fixInBuffer_eq h.bitsLeft, refill_ahead ⟨rfl, hm⟩ hjunk⟩

/-- From the start of the file on: the bytes of the header are read, then the numbers of the bits of
    the scan, and at the end of its data the input is at the marker that follows it. -/
theorem scan_eq (header rest : List UInt8) {m : UInt8} {words : List (List Bool)} {u : List Bool}
    (hm : m ≠ 0) (hwords : ∀ w ∈ words, w.length ≤ 16) (hdata : words.flatten ++ u = bitsOf data) :
    ∃ s s₁ s', (start (header ++ (stuff data ++ 0xFF :: m :: rest))).getBytes header.length =
        (⟨header, rfl⟩, s) ∧
      s.fixInBuffer = .ok s₁ ∧
      s₁.readAll (words.map List.length) = (words.map Bits.toNat, s') ∧
      (u.length < 16 → ∃ rest', s'.input.pending = 0xFF :: m :: rest') := by
  obtain ⟨s, hs, hfaces⟩ := getBytes_faces rfl (start_faces (header ++ (stuff data ++ _)))
  obtain ⟨s₁, rest', hs₁, hahead⟩ := fixInBuffer_ahead hm hfaces
  rw [← hdata] at hahead
  have htail : Closed (0xFF :: m :: rest') := ⟨rfl, hm⟩
  obtain ⟨s', hs', hahead'⟩ := readAll_ahead htail hwords hahead
  exact ⟨s, s₁, s', hs, hs₁, hs', fun hu => ⟨rest', hahead'.pending_eq hu⟩⟩

theorem sampleFile_scan_eq :
    ∃ s s₁ s', (start ([0xFF, 0xDA] ++ (stuff [0xFF, 0x64, 0x57] ++ [0xFF, 0xD9]))).getBytes 2 =
        (⟨[0xFF, 0xDA], rfl⟩, s) ∧
      s.fixInBuffer = .ok s₁ ∧ s₁.readAll [9, 8, 2] = ([510, 200, 2], s') ∧
      (5 < 16 → ∃ rest', s'.input.pending = 0xFF :: 0xD9 :: rest') := by
  have hwords : ∀ w ∈ [Bits.ofNat 9 510, Bits.ofNat 8 200, [true, false]], w.length ≤ 16 := by
    decide
  have hdata : [Bits.ofNat 9 510, Bits.ofNat 8 200, [true, false]].flatten ++
      [true, false, true, true, true] = bitsOf [0xFF, 0x64, 0x57] := by decide
  have hm : (0xD9 : UInt8) ≠ 0 := by decide
  exact scan_eq [0xFF, 0xDA] [] hm hwords hdata

end Reader

/-! ## The tables -/

/-- The bytes of tables, each after the byte for its place. -/
def dhtBytes : List (UInt8 × HuffData) → List UInt8
  | [] => []
  | (index, data) :: segment => index :: (data.huffNum ++ (data.huffVal ++ dhtBytes segment))

/-- The tables are put into their places, one after the other. -/
def HuffTable.putAll (tables : HuffTable) : List (UInt8 × HuffData) → HuffTable
  | [] => tables
  | (index, data) :: segment =>
    putAll (fun i => if i.1 = huffIndex index.toNat then some data else tables i) segment

/-- A table is read. -/
theorem readDhtTable_faces {index : UInt8} {data : HuffData} {numLeft : ℕ}
    (hindex : huffIndex index.toNat < maxHuffTables)
    (hleft : 1 + 16 + data.huffVal.length ≤ numLeft)
    (h : s.Faces (index :: (data.huffNum ++ (data.huffVal ++ rest)))) :
    ∃ s', readDhtTable numLeft s =
        .ok ((⟨huffIndex index.toNat, hindex⟩, data, numLeft - (1 + 16 + data.huffVal.length)),
          s') ∧ s'.Faces rest := by
  obtain ⟨s₁, hs₁, h₁⟩ := Reader.getBits_faces [index] (by decide : 1 ≤ 2) h
  obtain ⟨s₂, hs₂, h₂⟩ := Reader.getBytes_faces data.length_huffNum h₁
  obtain ⟨s₃, hs₃, h₃⟩ := Reader.getBytes_faces data.length_huffVal h₂
  have hcount := data.count_le
  have hplace : index.toNat &&& 0x10 ≤ 0x10 := Nat.and_le_right
  rw [Reader.toNat_byte] at hs₁
  refine ⟨s₃, ?_, h₃⟩
  rw [data.length_huffVal] at hleft hcount ⊢
  rw [readDhtTable, show s.getBits 8 = _ from hs₁]
  dsimp only
  rw [hs₂]
  dsimp only
  rw [dif_neg (Nat.not_lt.2 hcount), hs₃]
  dsimp only
  rw [if_neg (Nat.not_lt.2 hleft), if_neg (Nat.not_lt.2 hplace),
    dif_neg (Nat.not_le.2 hindex)]

/-- The tables are read, each into its place. -/
theorem readDhtTables_faces {segment : List (UInt8 × HuffData)} {rounds : ℕ}
    (hindex : ∀ t ∈ segment, huffIndex t.1.toNat < maxHuffTables)
    (hrounds : (dhtBytes segment).length ≤ rounds) (tables : HuffTable)
    (h : s.Faces (dhtBytes segment ++ rest)) :
    ∃ s', readDhtTables rounds (dhtBytes segment).length tables s =
        .ok (tables.putAll segment, s') ∧ s'.Faces rest := by
  induction segment generalizing rounds tables s with
  | nil =>
    refine ⟨s, ?_, h⟩
    cases rounds with
    | zero => rfl
    | succ rounds => rw [readDhtTables]; exact if_pos rfl
  | cons t segment ih =>
    obtain ⟨index, data⟩ := t
    have hplace := hindex _ List.mem_cons_self
    have hlength : (dhtBytes ((index, data) :: segment)).length =
        1 + 16 + data.huffVal.length + (dhtBytes segment).length := by
      rw [dhtBytes, List.length_cons, List.length_append, List.length_append, data.length_huffNum]
      ring
    obtain ⟨rounds, rfl⟩ := Nat.exists_eq_succ_of_ne_zero (show rounds ≠ 0 by omega)
    rw [dhtBytes, List.cons_append, List.append_assoc, List.append_assoc] at h
    obtain ⟨s₁, hs₁, h₁⟩ := readDhtTable_faces hplace (hlength ▸ Nat.le_add_right _ _) h
    rw [hlength] at hrounds hs₁ ⊢
    rw [Nat.add_sub_cancel_left] at hs₁
    obtain ⟨s₂, hs₂, h₂⟩ := ih (fun t ht => hindex t (List.mem_cons_of_mem _ ht))
      (show (dhtBytes segment).length ≤ rounds by omega)
      (fun i => if i.1 = huffIndex index.toNat then some data else tables i) h₁
    have hput : Function.update tables ⟨huffIndex index.toNat, hplace⟩ (some data) =
        fun i => if i.1 = huffIndex index.toNat then some data else tables i := by
      funext i
      rw [Function.update_apply]
      exact if_congr Fin.ext_iff rfl rfl
    refine ⟨s₂, ?_, h₂⟩
    rw [readDhtTables, if_neg (by omega), hs₁]
    change readDhtTables rounds _ (Function.update tables _ (some data)) s₁ = _
    rw [hput]
    exact hs₂

/-- The length of a segment, which is that of its own two bytes too. -/
def segmentLength (length : ℕ) : List UInt8 :=
  [UInt8.ofNat ((length + 2) / 256), UInt8.ofNat (length + 2)]

/-- The tables of a segment are read, each into its place, and the bytes after it are left. -/
theorem readDhtMarker_eq {segment : List (UInt8 × HuffData)}
    (hindex : ∀ t ∈ segment, huffIndex t.1.toNat < maxHuffTables)
    (hlength : (dhtBytes segment).length + 2 < 65536) (tables : HuffTable)
    (h : s.Faces (segmentLength (dhtBytes segment).length ++ (dhtBytes segment ++ rest))) :
    ∃ s', readDhtMarker tables s = .ok (tables.putAll segment, s') ∧ s'.Faces rest := by
  obtain ⟨s₁, hs₁, h₁⟩ := Reader.getBits_faces (segmentLength _) (by decide : 2 ≤ 2) h
  have hnum : Bits.toNat (bitsOf (segmentLength (dhtBytes segment).length)) =
      (dhtBytes segment).length + 2 := by
    rw [segmentLength, ← List.singleton_append, bitsOf_append, Bits.toNat_append, length_bitsOf,
      Reader.toNat_byte, Reader.toNat_byte, UInt8.toNat_ofNat', UInt8.toNat_ofNat',
      List.length_singleton]
    omega
  rw [hnum] at hs₁
  obtain ⟨s₂, hs₂, h₂⟩ := readDhtTables_faces hindex le_rfl tables h₁
  refine ⟨s₂, ?_, h₂⟩
  rw [readDhtMarker, show s.getBits 16 = _ from hs₁]
  dsimp only
  rw [if_neg (by omega), Nat.add_sub_cancel, hs₂]

/-- Two tables, for the class 0 and for the class 1, and a third one over the first. -/
def sampleSegment : List (UInt8 × HuffData) :=
  [(0x00, sampleHuffData), (0x10, sampleHuffData), (0x00, ⟨List.replicate 16 0, [], rfl, rfl,
    Nat.zero_le _⟩)]

theorem sampleSegment_readDhtMarker :
    ∃ s', readDhtMarker (fun _ => none) (Reader.start
        (segmentLength (dhtBytes sampleSegment).length ++
          (dhtBytes sampleSegment ++ [0xFF, 0xDA]))) =
      .ok (HuffTable.putAll (fun _ => none) sampleSegment, s') ∧ s'.Faces [0xFF, 0xDA] :=
  readDhtMarker_eq (by decide) (by decide) _ (Reader.start_faces _)

end Gaze.Jpgd
