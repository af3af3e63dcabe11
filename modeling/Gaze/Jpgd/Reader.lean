import Gaze.Bits
import Mathlib.Data.List.Induction

/-!
# Reading the bits of a scan

The coded data of a scan has a zero after each byte `0xFF`, so that no marker, which is this byte
and another one, is in it. `get_octet` leaves these zeros out and does not go past a marker;
`get_bits_no_markers` keeps between 16 and 32 bits in a buffer, and fills it with two bytes at a
time.

* `Input.getOctet_stuff`, `Input.getOctet_closed`: the bytes of the data are read one after the
  other, through the buffer of the file, and what follows them is left there.
* `Input.twoOctets_eq`: two bytes that are taken from the buffer at once are those of `get_octet`.
* `Reader.getBitsNoMarkers_ahead`: the bits that are read are those of the data, in order.
* `Reader.refill_ahead`: the bits of the data are ahead after the buffer is filled.
* `Reader.readAll_ahead`: so they are read over a whole run.

The decoding stops with an error, or its behaviour is undefined, or an assertion fails (`Stop`). The
assertions of the two functions that read bits, that there is a number of bits left, are part of
what `Reader.Holds` says of the bit buffer.
-/

namespace Gaze.Jpgd

/-! ## The end of the decoding -/

/-- What ends the decoding: an access outside of an array or the overflow of an `int`, after which
    nothing is promised; an assertion that fails, which aborts the process; or `stop_decoding`. -/
inductive Stop
  | undefined
  | overflow
  | aborted
  | badDhtMarker
  | badDhtCounts
  | badDhtIndex
  | decodeError
  | badRestartMarker
  deriving DecidableEq

/-- What is read or written must be in an array. -/
def inArray {α : Type} : Option α → Except Stop α
  | some a => .ok a
  | none => .error .undefined

@[simp] theorem inArray_bind {α β : Type} (a : α) (f : α → Except Stop β) :
    inArray (some a) >>= f = f a := rfl

/-- `JPGD_ASSERT`. -/
def jpgdAssert (p : Prop) [Decidable p] : Except Stop Unit :=
  if p then .ok () else .error .aborted

theorem jpgdAssert_of {p : Prop} [Decidable p] (h : p) : jpgdAssert p = .ok () := if_pos h

/-! ## The code of the input -/

/-- `JPGD_IN_BUF_SIZE`. -/
def inBufSize : ℕ := 8192

/-- The input of a `jpeg_decoder`, which is a string of bytes in memory: the bytes that are left in
    the buffer, and those that have not been read into it. -/
structure Input where
  inBuf : List UInt8
  stream : List UInt8
  eofFlag : Bool
  temFlag : Bool
  eof : eofFlag = true → stream = []

namespace Input

/-- `prep_in_buffer`. The loop has one round: a stream in memory gives as many bytes as there is
    room for, or sets the flag. -/
def prepInBuffer (s : Input) : Input :=
  if s.eofFlag then { s with inBuf := [] }
  else { s with
    inBuf := s.stream.take inBufSize
    stream := s.stream.drop inBufSize
    eofFlag := decide (s.stream.length < inBufSize)
    eof := fun h => List.drop_eq_nil_of_le (of_decide_eq_true h).le }

/-- `get_char`, with the flag for a pad character. -/
def getChar (s : Input) : (UInt8 × Bool) × Input :=
  let s := if s.inBuf = [] then s.prepInBuffer else s
  match s.inBuf with
  | [] => ((if s.temFlag then 0xD9 else 0xFF, true), { s with temFlag := !s.temFlag })
  | c :: inBuf => ((c, false), { s with inBuf })

/-- `stuff_char`. -/
def stuffChar (s : Input) (q : UInt8) : Input := { s with inBuf := q :: s.inBuf }

/-- `get_octet`. -/
def getOctet (s : Input) : UInt8 × Input :=
  match s.getChar with
  | ((c, paddingFlag), s) =>
    if c = 0xFF then
      if paddingFlag then (0xFF, s)
      else
        match s.getChar with
        | ((c, paddingFlag), s) =>
          if paddingFlag then (0xFF, s.stuffChar 0xFF)
          else if c = 0 then (0xFF, s)
          else (0xFF, (s.stuffChar c).stuffChar 0xFF)
    else (c, s)

/-- The next two bytes of `get_bits_no_markers`, as a number: those of the buffer, if it has two and
    none is `0xFF`. -/
def twoOctets (s : Input) : ℕ × Input :=
  let octets :=
    let (c1, s) := s.getOctet
    let (c2, s) := s.getOctet
    (c1.toNat <<< 8 ||| c2.toNat, s)
  match s.inBuf with
  | c1 :: c2 :: inBuf =>
    if c1 = 0xFF ∨ c2 = 0xFF then octets else (c1.toNat <<< 8 ||| c2.toNat, { s with inBuf })
  | _ => octets

/-- The next two bytes of `get_bits`, as a number. -/
def twoChars (s : Input) : ℕ × Input :=
  let ((c1, _), s) := s.getChar
  let ((c2, _), s) := s.getChar
  (c1.toNat <<< 8 ||| c2.toNat, s)

/-- What is left of the file. -/
def pending (s : Input) : List UInt8 := s.inBuf ++ s.stream

end Input

/-! ## The code of the bit buffer -/

/-- The input and the bit buffer. -/
structure Reader where
  input : Input
  bitBuf : BitVec 32
  bitsLeft : ℤ

namespace Reader

/-- `get_bits` and `get_bits_no_markers`: the bit buffer is filled with the two bytes that `octets`
    gives, which `put` writes into it. -/
def takeBits (put : BitVec 32 → BitVec 32 → BitVec 32) (octets : Input → ℕ × Input) (numBits : ℕ)
    (s : Reader) : ℕ × Reader :=
  if numBits = 0 then (0, s)
  else
    let i := (s.bitBuf >>> (32 - numBits)).toNat
    let bitsLeft := s.bitsLeft - numBits
    if bitsLeft ≤ 0 then
      let bitBuf := s.bitBuf <<< (numBits + bitsLeft).toNat
      let (octets, input) := octets s.input
      let bitBuf := put bitBuf (BitVec.ofNat 32 octets)
      (i, ⟨input, bitBuf <<< (-bitsLeft).toNat, bitsLeft + 16⟩)
    else (i, { s with bitBuf := s.bitBuf <<< numBits, bitsLeft })

/-- `get_bits`. -/
def getBits : ℕ → Reader → ℕ × Reader :=
  takeBits (fun bitBuf octets => bitBuf &&& 0xFFFF0000 ||| octets) Input.twoChars

/-- `get_bits_no_markers`. -/
def getBitsNoMarkers : ℕ → Reader → ℕ × Reader :=
  takeBits (fun bitBuf octets => bitBuf ||| octets) Input.twoOctets

/-- The end of `fix_in_buffer` and of `process_restart`, which fill the bit buffer again. -/
def refill (s : Reader) : Reader :=
  let (_, s) := getBitsNoMarkers 16 { s with bitsLeft := 16 }
  let (_, s) := s.getBitsNoMarkers 16
  s

/-- The bytes that `fix_in_buffer` puts back. -/
def giveBack (s : Reader) : Input :=
  let input := s.input
  let input := if s.bitsLeft = 16 then input.stuffChar (UInt8.ofNat s.bitBuf.toNat) else input
  let input :=
    if 8 ≤ s.bitsLeft then input.stuffChar (UInt8.ofNat (s.bitBuf >>> 8).toNat) else input
  (input.stuffChar (UInt8.ofNat (s.bitBuf >>> 16).toNat)).stuffChar
    (UInt8.ofNat (s.bitBuf >>> 24).toNat)

/-- `fix_in_buffer`. -/
def fixInBuffer (s : Reader) : Except Stop Reader := do
  -- `(m_bits_left & 7) == 0`
  jpgdAssert (s.bitsLeft % 8 = 0)
  return refill { s with input := s.giveBack }

/-- The end of `init`: the first bytes of the file are read. -/
def start (file : List UInt8) : Reader :=
  let input : Input := ⟨[], file, false, false, fun h => absurd h Bool.false_ne_true⟩
  let (_, s) := getBits 16 ⟨input.prepInBuffer, 0, 16⟩
  let (_, s) := s.getBits 16
  s

end Reader

/-! ## The data of a scan -/

/-- The data with a zero after each `0xFF`. -/
def stuff : List UInt8 → List UInt8
  | [] => []
  | b :: data => if b = 0xFF then 0xFF :: 0 :: stuff data else b :: stuff data

/-- The bytes are no more data: there is none left, or a marker. -/
def Closed : List UInt8 → Prop
  | [] => True
  | [b] => b = 0xFF
  | b :: m :: _ => b = 0xFF ∧ m ≠ 0

/-- The bits of bytes. -/
def bitsOf : List UInt8 → List Bool
  | [] => []
  | b :: data => Bits.ofNat 8 b.toNat ++ bitsOf data

variable {s : Input} {b : UInt8} {data tail rest : List UInt8}

@[simp] theorem stuff_nil : stuff [] = [] := rfl

theorem stuff_cons_of_ne (h : b ≠ 0xFF) : stuff (b :: data) = b :: stuff data := if_neg h

@[simp] theorem stuff_cons_ff (data : List UInt8) :
    stuff (0xFF :: data) = 0xFF :: 0 :: stuff data := if_pos rfl

@[simp] theorem bitsOf_nil : bitsOf [] = [] := rfl

@[simp] theorem length_bitsOf (data : List UInt8) : (bitsOf data).length = 8 * data.length := by
  induction data with
  | nil => rfl
  | cons b data ih =>
    rw [bitsOf, List.length_append, Bits.length_ofNat, ih, List.length_cons]
    ring

theorem bitsOf_append (data data' : List UInt8) :
    bitsOf (data ++ data') = bitsOf data ++ bitsOf data' := by
  induction data with
  | nil => rfl
  | cons b data ih => rw [List.cons_append, bitsOf, ih, bitsOf, List.append_assoc]

/-- Any bytes are data up to some point. -/
theorem exists_stuff (bytes : List UInt8) :
    ∃ data tail, bytes = stuff data ++ tail ∧ Closed tail := by
  induction bytes using List.twoStepInduction with
  | nil => exact ⟨[], [], rfl, trivial⟩
  | singleton b =>
    by_cases hb : b = 0xFF
    · exact ⟨[], [b], rfl, hb⟩
    · exact ⟨[b], [], by rw [stuff_cons_of_ne hb, stuff_nil, List.append_nil], trivial⟩
  | cons_cons b m bytes ih ih' =>
    by_cases hb : b = 0xFF
    · by_cases hm : m = 0
      · obtain ⟨data, tail, heq, htail⟩ := ih
        refine ⟨0xFF :: data, tail, ?_, htail⟩
        rw [hb, hm, heq, stuff_cons_ff]
        rfl
      · exact ⟨[], b :: m :: bytes, rfl, hb, hm⟩
    · obtain ⟨data, tail, heq, htail⟩ := ih' m
      exact ⟨b :: data, tail, by rw [stuff_cons_of_ne hb, heq]; rfl, htail⟩

namespace Input

/-! ## The bytes -/

/-- The buffer is filled again when it is empty: it has bytes as long as there is one left. -/
theorem exists_filled (s : Input) :
    ∃ s', (if s.inBuf = [] then s.prepInBuffer else s) = s' ∧ s'.pending = s.pending ∧
      (s'.inBuf = [] → s.pending = []) := by
  by_cases h : s.inBuf = []
  · rw [if_pos h, prepInBuffer]
    by_cases heof : s.eofFlag = true
    · rw [if_pos heof]
      refine ⟨_, rfl, by rw [pending, pending, h], fun _ => ?_⟩
      rw [pending, h, s.eof heof, List.nil_append]
    · rw [if_neg heof]
      refine ⟨_, rfl, ?_, fun htake => ?_⟩
      · rw [pending, List.take_append_drop, pending, h, List.nil_append]
      · rw [pending, h, List.nil_append]
        exact (List.take_eq_nil_iff.1 htake).resolve_left (by decide)
  · rw [if_neg h]
    exact ⟨s, rfl, rfl, fun hnil => absurd hnil h⟩

/-- The next byte of the file. -/
theorem getChar_cons (h : s.pending = b :: rest) :
    ∃ s', s.getChar = ((b, false), s') ∧ s'.pending = rest := by
  obtain ⟨s', hs', hpending, hempty⟩ := s.exists_filled
  rw [getChar, hs']
  cases hbuf : s'.inBuf with
  | nil => rw [hempty hbuf] at h; cases h
  | cons c inBuf =>
    rw [← hpending, pending, hbuf, List.cons_append] at h
    obtain ⟨rfl, rfl⟩ := List.cons.inj h
    exact ⟨_, rfl, rfl⟩

/-- At the end of the file, there are pad characters. -/
theorem getChar_nil (h : s.pending = []) :
    ∃ c s', s.getChar = ((c, true), s') ∧ s'.pending = [] := by
  obtain ⟨s', hs', hpending, -⟩ := s.exists_filled
  rw [getChar, hs']
  rw [h] at hpending
  obtain ⟨hbuf, hstream⟩ := List.append_eq_nil_iff.1 hpending
  rw [hbuf]
  exact ⟨_, _, rfl, hstream⟩

theorem pending_stuffChar (s : Input) (q : UInt8) :
    (s.stuffChar q).pending = q :: s.pending := rfl

/-- The data is read byte after byte, without the zeros. -/
theorem getOctet_stuff (h : s.pending = stuff (b :: data) ++ tail) :
    ∃ s', s.getOctet = (b, s') ∧ s'.pending = stuff data ++ tail := by
  by_cases hb : b = 0xFF
  · subst hb
    obtain ⟨s₁, hs₁, h₁⟩ := getChar_cons (h.trans (by rw [stuff_cons_ff, List.cons_append]))
    obtain ⟨s₂, hs₂, h₂⟩ := getChar_cons (h₁.trans (List.cons_append))
    refine ⟨s₂, ?_, h₂⟩
    simp only [getOctet, hs₁, hs₂]
    rfl
  · obtain ⟨s₁, hs₁, h₁⟩ :=
      getChar_cons (h.trans (by rw [stuff_cons_of_ne hb, List.cons_append]))
    refine ⟨s₁, ?_, h₁⟩
    simp only [getOctet, hs₁, if_neg hb]

/-- What follows the data is left there. -/
theorem getOctet_closed (h : s.pending = tail) (htail : Closed tail) :
    ∃ o s', s.getOctet = (o, s') ∧ s'.pending = tail := by
  match tail, htail with
  | [], _ =>
    obtain ⟨c, s₁, hs₁, h₁⟩ := getChar_nil h
    by_cases hc : c = 0xFF
    · exact ⟨0xFF, s₁, by simp only [getOctet, hs₁, if_pos hc, if_true], h₁⟩
    · exact ⟨c, s₁, by simp only [getOctet, hs₁, if_neg hc], h₁⟩
  | [b], hb =>
    obtain rfl : b = 0xFF := hb
    obtain ⟨s₁, hs₁, h₁⟩ := getChar_cons h
    obtain ⟨c, s₂, hs₂, h₂⟩ := getChar_nil h₁
    refine ⟨0xFF, s₂.stuffChar 0xFF, ?_, by rw [pending_stuffChar, h₂]⟩
    simp only [getOctet, hs₁, hs₂]
    rfl
  | b :: m :: rest, ⟨hb, hm⟩ =>
    subst hb
    obtain ⟨s₁, hs₁, h₁⟩ := getChar_cons h
    obtain ⟨s₂, hs₂, h₂⟩ := getChar_cons h₁
    refine ⟨0xFF, (s₂.stuffChar m).stuffChar 0xFF, ?_, by simp only [pending_stuffChar, h₂]⟩
    simp only [getOctet, hs₁, hs₂, if_neg hm]
    rfl

/-- A byte of the buffer that is not `0xFF` is read as it is. -/
theorem getOctet_inBuf {inBuf : List UInt8} (h : s.inBuf = b :: inBuf) (hb : b ≠ 0xFF) :
    s.getOctet = (b, { s with inBuf }) := by
  have hchar : s.getChar = ((b, false), { s with inBuf }) := by
    rw [getChar, if_neg (by rw [h]; exact List.cons_ne_nil _ _), h]
  simp only [getOctet, hchar, if_neg hb]

/-- The two bytes that are taken from the buffer at once are those of `get_octet`. -/
theorem twoOctets_eq (s : Input) :
    s.twoOctets = (s.getOctet.1.toNat <<< 8 ||| s.getOctet.2.getOctet.1.toNat,
      s.getOctet.2.getOctet.2) := by
  rw [twoOctets]
  dsimp only
  split
  · rename_i c1 c2 inBuf hbuf
    by_cases hff : c1 = 0xFF ∨ c2 = 0xFF
    · rw [if_pos hff]
    · obtain ⟨h₁, h₂⟩ := not_or.1 hff
      have hnext := getOctet_inBuf (s := { s with inBuf := c2 :: inBuf }) rfl h₂
      rw [if_neg hff, getOctet_inBuf hbuf h₁, hnext]
  · rfl

/-- Two bytes as a number. -/
theorem octets_eq (c1 c2 : UInt8) :
    c1.toNat <<< 8 ||| c2.toNat = Bits.toNat (Bits.ofNat 8 c1.toNat ++ Bits.ofNat 8 c2.toNat) := by
  have hc2 : c2.toNat < 2 ^ 8 := c2.toNat_lt
  rw [Bits.toNat_append, Bits.toNat_ofNat_of_lt c1.toNat_lt, Bits.toNat_ofNat_of_lt hc2,
    Bits.length_ofNat, ← Nat.shiftLeft_add_eq_or_of_lt hc2, Nat.shiftLeft_eq]

/-- The next 16 bits are those of the data, as long as there are some left. -/
theorem twoOctets_data (h : s.pending = stuff data ++ tail) (htail : Closed tail) :
    ∃ bits s' data', s.twoOctets = (Bits.toNat bits, s') ∧ bits.length = 16 ∧
      s'.pending = stuff data' ++ tail ∧
      (bitsOf data = bits ++ bitsOf data' ∨ data' = [] ∧ bitsOf data <+: bits) := by
  have hread : ∀ c1 c2 s₁ s₂, s.getOctet = (c1, s₁) → s₁.getOctet = (c2, s₂) →
      s.twoOctets = (Bits.toNat (Bits.ofNat 8 c1.toNat ++ Bits.ofNat 8 c2.toNat), s₂) := by
    intro c1 c2 s₁ s₂ h₁ h₂
    rw [twoOctets_eq, h₁, h₂, octets_eq]
  have hlength : ∀ m n, (Bits.ofNat 8 m ++ Bits.ofNat 8 n).length = 16 := fun m n => by
    rw [List.length_append, Bits.length_ofNat, Bits.length_ofNat]
  match data, h with
  | [], h =>
    obtain ⟨c1, s₁, hs₁, h₁⟩ := getOctet_closed h htail
    obtain ⟨c2, s₂, hs₂, h₂⟩ := getOctet_closed h₁ htail
    exact ⟨_, s₂, [], hread _ _ _ _ hs₁ hs₂, hlength _ _, h₂, Or.inr ⟨rfl, List.nil_prefix⟩⟩
  | [c1], h =>
    obtain ⟨s₁, hs₁, h₁⟩ := getOctet_stuff h
    obtain ⟨c2, s₂, hs₂, h₂⟩ := getOctet_closed h₁ htail
    refine ⟨_, s₂, [], hread _ _ _ _ hs₁ hs₂, hlength _ _, h₂, Or.inr ⟨rfl, ?_⟩⟩
    rw [bitsOf, bitsOf_nil, List.append_nil]
    exact List.prefix_append _ _
  | c1 :: c2 :: data, h =>
    obtain ⟨s₁, hs₁, h₁⟩ := getOctet_stuff h
    obtain ⟨s₂, hs₂, h₂⟩ := getOctet_stuff h₁
    refine ⟨_, s₂, data, hread _ _ _ _ hs₁ hs₂, hlength _ _, h₂, Or.inl ?_⟩
    rw [bitsOf, bitsOf, List.append_assoc]

/-- After the data, there is no more. -/
theorem data_eq_nil {bits : List Bool} (hbits : bits.length = 16)
    (h : bitsOf [] = bits ++ bitsOf data ∨ data = [] ∧ bitsOf [] <+: bits) : data = [] := by
  rcases h with heq | ⟨hnil, -⟩
  · rw [(List.append_eq_nil_iff.1 heq.symm).1] at hbits
    cases hbits
  · exact hnil

end Input

/-! ## The bits -/

namespace Reader

/-- The bits are those of the buffer. -/
structure Holds (s : Reader) (bits : List Bool) : Prop where
  bitsLeft : s.bitsLeft = bits.length - 16
  le_length : 16 ≤ bits.length
  length_le : bits.length ≤ 32
  bitBuf : s.bitBuf.toNat = Bits.toNat (bits ++ List.replicate (32 - bits.length) false)

/-- The bits are ahead, and then these bytes, which are no more data. -/
def Ahead (s : Reader) (bits : List Bool) (tail : List UInt8) : Prop :=
  ∃ held data, s.Holds held ∧ s.input.pending = stuff data ++ tail ∧
    (bits = held ++ bitsOf data ∨ data = [] ∧ bits <+: held)

variable {s : Reader} {bits w u : List Bool} {n : ℕ}

/-- A shift of a number of 32 bits. -/
theorem shiftLeft_word (h : bits.length = 32) (hn : n ≤ 32) :
    Bits.toNat bits <<< n % 2 ^ 32 = Bits.toNat (bits.drop n ++ List.replicate n false) := by
  rw [← h]
  exact Bits.toNat_shiftLeft (h ▸ hn)

theorem Holds.length_append (h : s.Holds bits) :
    (bits ++ List.replicate (32 - bits.length) false).length = 32 := by
  rw [List.length_append, List.length_replicate, Nat.add_sub_cancel' h.length_le]

/-- The first bits of the buffer. -/
theorem Holds.shiftRight (h : s.Holds bits) (hn : n ≤ bits.length) :
    (s.bitBuf >>> (32 - n)).toNat = Bits.toNat (bits.take n) := by
  have hshift := Bits.toNat_shiftRight (bits ++ List.replicate (32 - bits.length) false) n
  rw [h.length_append, List.take_append_of_le_length hn] at hshift
  rw [BitVec.toNat_ushiftRight, h.bitBuf, hshift]

/-- The new bits are written into a buffer that has none there. -/
def Writes (put : BitVec 32 → BitVec 32 → BitVec 32) : Prop :=
  ∀ bitBuf octets : BitVec 32, bitBuf.toNat % 2 ^ 16 = 0 → put bitBuf octets = bitBuf ||| octets

variable {put : BitVec 32 → BitVec 32 → BitVec 32} {octets : Input → ℕ × Input} {input : Input}

theorem writes_or : Writes fun bitBuf octets => bitBuf ||| octets := fun _ _ _ => rfl

theorem writes_and_or : Writes fun bitBuf octets => bitBuf &&& 0xFFFF0000 ||| octets := by
  intro bitBuf octets h
  have hmask : ∀ i < 32, (0xFFFF0000 : BitVec 32).getLsbD i = decide (16 ≤ i) := by decide
  refine congrArg (· ||| octets) (BitVec.eq_of_getLsbD_eq fun i hi => ?_)
  rw [BitVec.getLsbD_and, hmask i hi]
  by_cases hlow : 16 ≤ i
  · rw [decide_eq_true hlow, Bool.and_true]
  · have hbit := Nat.testBit_mod_two_pow bitBuf.toNat 16 i
    rw [h, Nat.zero_testBit, decide_eq_true (Nat.lt_of_not_le hlow), Bool.true_and] at hbit
    rw [decide_eq_false hlow, Bool.and_false, BitVec.getLsbD, ← hbit]

/-- The bits are taken from the buffer, as long as more than 16 are left. -/
theorem takeBits_of_lt (put : BitVec 32 → BitVec 32 → BitVec 32) (octets : Input → ℕ × Input)
    (h : s.Holds bits) (hn : n = 0 ∨ n + 16 < bits.length) :
    ∃ s', s.takeBits put octets n = (Bits.toNat (bits.take n), s') ∧ s'.Holds (bits.drop n) ∧
      s'.input = s.input := by
  by_cases hzero : n = 0
  · subst hzero
    exact ⟨s, by rw [takeBits, if_pos rfl]; rfl, h, rfl⟩
  · have hle := h.le_length
    have hge := h.length_le
    have hlt := hn.resolve_left hzero
    have hlength : (bits.drop n).length = bits.length - n := List.length_drop
    rw [takeBits, if_neg hzero]
    dsimp only
    rw [h.shiftRight (by omega), h.bitsLeft, if_neg (by omega)]
    refine ⟨_, rfl, ?_, rfl⟩
    constructor
    · dsimp only
      omega
    · omega
    · omega
    · rw [BitVec.toNat_shiftLeft, h.bitBuf, shiftLeft_word h.length_append (by omega),
        List.drop_append_of_le_length (by omega), List.append_assoc,
        List.replicate_append_replicate, hlength,
        show 32 - (bits.length - n) = 32 - bits.length + n by omega]

/-- The buffer is filled when at most 16 bits would be left. -/
theorem takeBits_of_le (hput : Writes put) (h : s.Holds bits) (hzero : n ≠ 0)
    (hn : n ≤ bits.length) (hfill : bits.length ≤ n + 16)
    (hoctets : octets s.input = (Bits.toNat u, input)) (hu : u.length = 16) :
    ∃ s', s.takeBits put octets n = (Bits.toNat (bits.take n), s') ∧ s'.Holds (bits.drop n ++ u) ∧
      s'.input = input := by
  have hle := h.le_length
  have hge := h.length_le
  -- What is left goes to the top, up to 16 bits, and the new bits are written after them.
  have hoctet : Bits.toNat u < 2 ^ 32 :=
    (Bits.toNat_lt u).trans (by rw [hu]; decide)
  have hshifted : (s.bitBuf <<< (n + (bits.length - 16 - n : ℤ)).toNat).toNat =
      Bits.toNat (bits.drop (bits.length - 16) ++ List.replicate u.length false) := by
    rw [show (n + (bits.length - 16 - n : ℤ)).toNat = bits.length - 16 by omega,
      BitVec.toNat_shiftLeft, h.bitBuf, shiftLeft_word h.length_append (by omega),
      List.drop_append_of_le_length (Nat.sub_le _ _), List.append_assoc,
      List.replicate_append_replicate,
      show 32 - bits.length + (bits.length - 16) = u.length by omega]
  have hlow : (s.bitBuf <<< (n + (bits.length - 16 - n : ℤ)).toNat).toNat % 2 ^ 16 = 0 := by
    rw [hshifted, Bits.toNat_append, Bits.toNat_replicate, List.length_replicate, hu, Nat.add_zero,
      Nat.mul_mod_left]
  have htop : (put (s.bitBuf <<< (n + (bits.length - 16 - n : ℤ)).toNat)
      (BitVec.ofNat 32 (Bits.toNat u))).toNat =
        Bits.toNat (bits.drop (bits.length - 16) ++ u) := by
    rw [hput _ _ hlow, BitVec.toNat_or, hshifted, BitVec.toNat_ofNat, Nat.mod_eq_of_lt hoctet,
      Bits.toNat_or]
  have hfull : (bits.drop (bits.length - 16) ++ u).length = 32 := by
    rw [List.length_append, List.length_drop]
    omega
  have hlength : (bits.drop n ++ u).length = bits.length - n + 16 := by
    rw [List.length_append, List.length_drop, hu]
  have hshift : (-(bits.length - 16 - n : ℤ)).toNat = n - (bits.length - 16) := by omega
  rw [takeBits, if_neg hzero]
  dsimp only
  rw [h.shiftRight hn, h.bitsLeft, hoctets, if_pos (by omega)]
  refine ⟨_, rfl, ?_, rfl⟩
  constructor
  · rw [hlength]
    push_cast [hn]
    ring
  · omega
  · omega
  · rw [BitVec.toNat_shiftLeft, htop, hshift, shiftLeft_word hfull (by omega), hlength,
      List.drop_append_of_le_length (by rw [List.length_drop]; omega), List.drop_drop,
      show bits.length - 16 + (n - (bits.length - 16)) = n by omega,
      show 32 - (bits.length - n + 16) = n - (bits.length - 16) by omega]

/-- One way or the other. -/
theorem takeBits_eq (hput : Writes put) (h : s.Holds bits) (hn : n ≤ bits.length)
    (hoctets : octets s.input = (Bits.toNat u, input)) (hu : u.length = 16) :
    ∃ s', s.takeBits put octets n = (Bits.toNat (bits.take n), s') ∧
      (s'.Holds (bits.drop n) ∧ s'.input = s.input ∨
        s'.Holds (bits.drop n ++ u) ∧ s'.input = input) := by
  by_cases hleft : n = 0 ∨ n + 16 < bits.length
  · obtain ⟨s', hs', hheld⟩ := takeBits_of_lt put octets h hleft
    exact ⟨s', hs', Or.inl hheld⟩
  · obtain ⟨hzero, hfill⟩ := not_or.1 hleft
    obtain ⟨s', hs', hheld⟩ :=
      takeBits_of_le hput h hzero hn (Nat.le_of_not_lt hfill) hoctets hu
    exact ⟨s', hs', Or.inr hheld⟩

/-- Taken twice, 16 bits are replaced by the next 32 ones, whatever the buffer holds. -/
theorem takeBits_twice {u₁ u₂ : List Bool} {input₁ input₂ : Input} (hput : Writes put)
    (h₁ : octets s.input = (Bits.toNat u₁, input₁)) (hu₁ : u₁.length = 16)
    (h₂ : octets input₁ = (Bits.toNat u₂, input₂)) (hu₂ : u₂.length = 16) :
    ∃ i₁ s₁ i₂ s₂, takeBits put octets 16 { s with bitsLeft := 16 } = (i₁, s₁) ∧
      takeBits put octets 16 s₁ = (i₂, s₂) ∧ s₂.Holds (u₁ ++ u₂) ∧ s₂.input = input₂ := by
  have hheld : Holds { s with bitsLeft := 16 } (Bits.ofNat 32 s.bitBuf.toNat) := by
    constructor
    · rw [Bits.length_ofNat]
      rfl
    · rw [Bits.length_ofNat]
      decide
    · rw [Bits.length_ofNat]
    · rw [Bits.length_ofNat, Nat.sub_self, List.replicate_zero, List.append_nil,
        Bits.toNat_ofNat_of_lt s.bitBuf.isLt]
  obtain ⟨s₁, hs₁, hheld₁, rfl⟩ := takeBits_of_le hput hheld (n := 16) (by decide)
    (by rw [Bits.length_ofNat]; decide) (by rw [Bits.length_ofNat]) h₁ hu₁
  have hdrop : ((Bits.ofNat 32 s.bitBuf.toNat).drop 16 ++ u₁).drop 16 = u₁ :=
    List.drop_left' (by rw [List.length_drop, Bits.length_ofNat])
  have hlength : ((Bits.ofNat 32 s.bitBuf.toNat).drop 16 ++ u₁).length = 32 := by
    rw [List.length_append, List.length_drop, Bits.length_ofNat, hu₁]
  obtain ⟨s₂, hs₂, hheld₂, rfl⟩ := takeBits_of_le hput hheld₁ (n := 16) (by decide)
    (by omega) (by omega) h₂ hu₂
  rw [hdrop] at hheld₂
  exact ⟨_, s₁, _, s₂, hs₁, hs₂, hheld₂, rfl⟩

/-- Bits may be taken from any buffer, as long as it has as many. -/
theorem Holds.getBitsNoMarkers (h : s.Holds bits) (hn : (n : ℤ) ≤ s.bitsLeft + 16) :
    ∃ i s' bits', s.getBitsNoMarkers n = (i, s') ∧ i < 2 ^ n ∧ s'.Holds bits' := by
  have hlength : n ≤ bits.length := by
    rw [h.bitsLeft] at hn
    omega
  have htake : (bits.take n).length = n := List.length_take_of_le hlength
  obtain ⟨data, tail, hpending, htail⟩ := exists_stuff s.input.pending
  obtain ⟨next, input, -, hoctets, hnext, -⟩ := Input.twoOctets_data hpending htail
  obtain ⟨s', hs', hfilled⟩ := takeBits_eq writes_or h hlength hoctets hnext
  have hlt := Bits.toNat_lt (bits.take n)
  rw [htake] at hlt
  rcases hfilled with ⟨hheld, -⟩ | ⟨hheld, -⟩
  · exact ⟨_, s', _, hs', hlt, hheld⟩
  · exact ⟨_, s', _, hs', hlt, hheld⟩

/-- At least 16 bits may be taken. -/
theorem Holds.le_bitsLeft (h : s.Holds bits) : (16 : ℤ) ≤ s.bitsLeft + 16 := by
  have hle := h.le_length
  rw [h.bitsLeft]
  omega

/-- The number of bits that may be taken. -/
theorem Ahead.length_le (h : s.Ahead bits tail) : (16 : ℤ) ≤ s.bitsLeft + 16 := by
  obtain ⟨held, data, hheld, -⟩ := h
  exact hheld.le_bitsLeft

/-- The first ones of the bits that are ahead are in the buffer. -/
theorem Holds.isPrefix (h : s.Holds bits) (hw : (w.length : ℤ) ≤ s.bitsLeft + 16)
    (hbits : w ++ u = bits ++ bitsOf data ∨ data = [] ∧ w ++ u <+: bits) : w <+: bits := by
  rw [h.bitsLeft] at hw
  rcases hbits with hbits | ⟨-, hbits⟩
  · exact List.prefix_of_prefix_length_le ⟨u, hbits⟩ (List.prefix_append _ _) (by omega)
  · exact (List.prefix_append w u).trans hbits

/-- The bits that may be taken are the first ones of the buffer. -/
theorem Ahead.exists_word (h : s.Ahead (w ++ u) tail) (hw : (w.length : ℤ) ≤ s.bitsLeft + 16) :
    ∃ v, v.length = 32 ∧ s.bitBuf.toNat = Bits.toNat v ∧ w <+: v := by
  obtain ⟨held, data, hheld, -, hbits⟩ := h
  have hstarts := hheld.isPrefix hw hbits
  exact ⟨_, hheld.length_append, hheld.bitBuf, hstarts.trans (List.prefix_append _ _)⟩

/-- The bits that are read are those that are ahead. -/
theorem getBitsNoMarkers_ahead (htail : Closed tail) (h : s.Ahead (w ++ u) tail)
    (hw : (w.length : ℤ) ≤ s.bitsLeft + 16) :
    ∃ s', s.getBitsNoMarkers w.length = (Bits.toNat w, s') ∧ s'.Ahead u tail := by
  obtain ⟨held, data, hheld, hpending, hbits⟩ := h
  have hstarts := hheld.isPrefix hw hbits
  obtain ⟨next, input, data', hoctets, hnext, hinput, hdata⟩ :=
    Input.twoOctets_data hpending htail
  obtain ⟨s', hs', hfilled⟩ := takeBits_eq writes_or hheld hstarts.length_le hoctets hnext
  obtain ⟨r, rfl⟩ := hstarts
  rw [List.take_left] at hs'
  rw [List.drop_left] at hfilled
  refine ⟨s', hs', ?_⟩
  rcases hbits with hbits | ⟨rfl, hbits⟩
  · rw [List.append_assoc] at hbits
    obtain rfl := List.append_cancel_left hbits
    rcases hfilled with ⟨hr, hsame⟩ | ⟨hr, rfl⟩
    · exact ⟨r, data, hr, hsame ▸ hpending, Or.inl rfl⟩
    · refine ⟨r ++ next, data', hr, hinput, hdata.imp (fun heq => ?_) fun ⟨hnil, hnext⟩ => ?_⟩
      · rw [heq, List.append_assoc]
      · exact ⟨hnil, (List.prefix_append_right_inj r).2 hnext⟩
  · -- The last bits are in the buffer.
    have hr' : u <+: r := (List.prefix_append_right_inj w).1 hbits
    rcases hfilled with ⟨hr, hsame⟩ | ⟨hr, rfl⟩
    · exact ⟨r, [], hr, hsame ▸ hpending, Or.inr ⟨rfl, hr'⟩⟩
    · exact ⟨r ++ next, data', hr, hinput,
        Or.inr ⟨Input.data_eq_nil hnext hdata, hr'.trans (List.prefix_append _ _)⟩⟩

/-- At the end of the data, the input is at what follows it. -/
theorem Ahead.pending_eq (h : s.Ahead bits tail) (hbits : bits.length < 16) :
    s.input.pending = tail := by
  obtain ⟨held, data, hheld, hpending, heq | ⟨rfl, -⟩⟩ := h
  · have hle := hheld.le_length
    rw [heq, List.length_append] at hbits
    omega
  · exact hpending

/-- The bit buffer is filled with the first bits of the data, whatever it holds. -/
theorem refill_ahead (htail : Closed tail) (h : s.input.pending = stuff data ++ tail) :
    s.refill.Ahead (bitsOf data) tail := by
  obtain ⟨u₁, input₁, data₁, hoctets₁, hu₁, hinput₁, hdata₁⟩ := Input.twoOctets_data h htail
  obtain ⟨u₂, input₂, data₂, hoctets₂, hu₂, hinput₂, hdata₂⟩ :=
    Input.twoOctets_data hinput₁ htail
  obtain ⟨i₁, s₁, i₂, s₂, hs₁, hs₂, hheld, rfl⟩ :=
    takeBits_twice writes_or hoctets₁ hu₁ hoctets₂ hu₂
  have hrefill : s.refill = s₂ := by
    rw [refill, getBitsNoMarkers]
    dsimp only
    rw [hs₁, hs₂]
  rw [hrefill]
  refine ⟨u₁ ++ u₂, data₂, hheld, hinput₂, ?_⟩
  rcases hdata₁ with heq₁ | ⟨rfl, hstarts₁⟩
  · refine hdata₂.imp (fun heq₂ => ?_) fun ⟨hnil, hstarts₂⟩ => ⟨hnil, ?_⟩
    · rw [heq₁, heq₂, List.append_assoc]
    · rw [heq₁]
      exact (List.prefix_append_right_inj u₁).2 hstarts₂
  · exact Or.inr ⟨Input.data_eq_nil hu₂ hdata₂, hstarts₁.trans (List.prefix_append _ _)⟩

/-- The bit buffer holds bits after it is filled, whatever the bytes are. -/
theorem refill_holds (s : Reader) : ∃ held, s.refill.Holds held := by
  obtain ⟨data, tail, hpending, htail⟩ := exists_stuff s.input.pending
  obtain ⟨held, -, hheld, -⟩ := refill_ahead htail hpending
  exact ⟨held, hheld⟩

/-- A run of reads, of these numbers of bits. -/
def readAll : List ℕ → Reader → List ℕ × Reader
  | [], s => ([], s)
  | n :: sizes, s =>
    let (i, s) := s.getBitsNoMarkers n
    let (is, s) := s.readAll sizes
    (i :: is, s)

/-- The numbers that are read are those of the bits ahead, in order. -/
theorem readAll_ahead {words : List (List Bool)} (htail : Closed tail)
    (hwords : ∀ w ∈ words, w.length ≤ 16) (h : s.Ahead (words.flatten ++ u) tail) :
    ∃ s', s.readAll (words.map List.length) = (words.map Bits.toNat, s') ∧ s'.Ahead u tail := by
  induction words generalizing s with
  | nil => exact ⟨s, rfl, h⟩
  | cons w words ih =>
    rw [List.flatten_cons, List.append_assoc] at h
    have hw : (w.length : ℤ) ≤ s.bitsLeft + 16 :=
      (Int.ofNat_le.2 (hwords w List.mem_cons_self)).trans h.length_le
    obtain ⟨s₁, hs₁, h₁⟩ := getBitsNoMarkers_ahead htail h hw
    obtain ⟨s₂, hs₂, h₂⟩ := ih (fun v hv => hwords v (List.mem_cons_of_mem w hv)) h₁
    refine ⟨s₂, ?_, h₂⟩
    rw [List.map_cons, readAll, hs₁]
    dsimp only
    rw [hs₂, List.map_cons]

end Reader

end Gaze.Jpgd
