import Gaze.Jpgd.Reader
import Gaze.Jpgd.Tables

/-!
# Decoding symbols

`huff_decode` looks the next eight bits up, and goes on in the tree, bit after bit, if they are not
the beginning of a code that is long enough.

* `walk_eq`: the loop in the tree ends at the first word that is no node.
* `huffDecode_total`: so the function never reads outside of the tables, whatever the bits are.
* `huffDecode_ahead`: it decodes the symbol whose code is ahead, and takes its bits.
* `huffDecodeExtra_ahead`: so does the one that also gives the extra bits of the symbol, which takes
  both at once when it can.
* `huffDecodeExtra_total`: that one has an assertion, which fails for bits that are no code, and for
  a symbol that has two codes. Else it does not leave the tables either.
* `HuffData.Covers`: the assertion holds for all bits.
-/

namespace Gaze.Jpgd

open PrefixCodes

/-! ## The code of `huff_decode` -/

/-- The loop of `huff_decode`: the bit of number `ofs` is the next one. It gives the symbol, and
    what is left of the bits. -/
def walk (tables : HuffTables) (bitBuf : BitVec 32) : ℕ → ℤ → Option (ℤ × ℕ)
  | 0, _ => none
  | ofs + 1, symbol => do
    let symbol ← readAt tables.tree (-(symbol + (bitBuf >>> ofs &&& 1).toNat))
    if symbol < 0 then walk tables bitBuf ofs symbol else return (symbol, ofs)

/-- `huff_decode`. -/
def huffDecode (tables : HuffTables) (s : Reader) : Option (ℕ × Reader) := do
  let symbol ← readAt tables.lookUp (s.bitBuf >>> 24).toNat
  if symbol < 0 then do
    let (symbol, ofs) ← walk tables s.bitBuf 24 symbol
    let (_, s) := s.getBitsNoMarkers (8 + (24 - ofs))
    return (symbol.toNat, s)
  else do
    let codeSize ← readAt tables.codeSize symbol
    let (_, s) := s.getBitsNoMarkers codeSize
    return (symbol.toNat, s)

/-- The branch of `huff_decode` for an entry of `look_up2` that is a symbol. -/
def takeEntry (entry : ℕ) (s : Reader) : (ℕ × ℕ) × Reader :=
  if entry &&& 0x8000 ≠ 0 then
    let (_, s) := s.getBitsNoMarkers (entry >>> 8 &&& 31)
    ((entry &&& 0xFF, entry >>> 16), s)
  else
    let codeSize := entry >>> 8 &&& 31
    let numExtraBits := entry &&& 0xF
    let bits := codeSize + numExtraBits
    if bits ≤ s.bitsLeft + 16 then
      let (i, s) := s.getBitsNoMarkers bits
      ((entry &&& 0xFF, i &&& ((1 <<< numExtraBits) - 1)), s)
    else
      let (_, s) := s.getBitsNoMarkers codeSize
      let (i, s) := s.getBitsNoMarkers numExtraBits
      ((entry &&& 0xFF, i), s)

/-- The number of bits that are fetched, which an entry of `look_up2` has, is that of the code of
    its symbol, with the extra bits if they are in the entry. -/
def checkEntry (tables : HuffTables) (entry : ℕ) : Except Stop Unit := do
  let codeSize ← inArray (readAt tables.codeSize (entry &&& 255 : ℕ))
  jpgdAssert (entry >>> 8 &&& 31 = codeSize + if entry &&& 0x8000 ≠ 0 then entry &&& 15 else 0)

/-- `huff_decode`, with the extra bits. -/
def huffDecodeExtra (tables : HuffTables) (s : Reader) : Except Stop ((ℕ × ℕ) × Reader) := do
  let symbol ← inArray (readAt tables.lookUp2 (s.bitBuf >>> 24).toNat)
  if symbol < 0 then do
    let (symbol, ofs) ← inArray (walk tables s.bitBuf 24 symbol)
    let (_, s) := s.getBitsNoMarkers (8 + (24 - ofs))
    let (extraBits, s) := s.getBitsNoMarkers (symbol.toNat &&& 0xF)
    return ((symbol.toNat, extraBits), s)
  else do
    checkEntry tables symbol.toNat
    return takeEntry symbol.toNat s

variable {codes : List (Word × UInt8)} {nodes : List Word} {c : Word × UInt8} {q v w : Word}
  {sizes : Fin 256 → ℕ} {tables : HuffTables} {data : HuffData} {bitBuf : BitVec 32} {s : Reader}
  {tail : List UInt8} {held u : List Bool} {k m : ℕ}

/-! ## The loop in the tree -/

/-- The bit buffer, as a string of 32 bits. -/
theorem shiftRight_toNat (hv : v.length = 32) (hbuf : bitBuf.toNat = Bits.toNat v) (m : ℕ) :
    (bitBuf >>> (32 - m)).toNat = Bits.toNat (v.take m) := by
  rw [BitVec.toNat_ushiftRight, hbuf, ← hv, Bits.toNat_shiftRight]

/-- The next bit of the buffer. -/
theorem exists_bit (hv : v.length = 32) (hbuf : bitBuf.toNat = Bits.toNat v) (hm : m < 32) :
    ∃ b : Bool, v.take (m + 1) = v.take m ++ [b] ∧
      (bitBuf >>> (31 - m) &&& 1).toNat = b.toNat := by
  have hlt : m < v.length := hv ▸ hm
  refine ⟨v[m], (List.take_append_getElem hlt).symm, ?_⟩
  have hbit : Bits.toNat [v[m]] = v[m].toNat := by rw [Bits.toNat]; simp
  have hshift := shiftRight_toNat hv hbuf (m + 1)
  rw [Nat.add_comm m 1, Nat.sub_add_eq, Nat.add_comm 1 m, ← List.take_append_getElem hlt,
    Bits.toNat_append, hbit, List.length_singleton, Nat.pow_one] at hshift
  have hone : (1 : BitVec 32).toNat = 1 := rfl
  rw [BitVec.toNat_and, hone, hshift, Nat.and_one_is_mod]
  cases v[m] <;> simp

/-- A node goes on in a code. -/
theorem length_lt_of_mem (h : Nodes 8 codes w 8 nodes) (hcodes : ∀ c ∈ codes, c.1.length ≤ 16)
    (hq : q ∈ nodes) : q.length < 16 := by
  obtain ⟨c, hc, -, hlt⟩ := (h.mem_iff_isInner.1 hq).2
  exact hlt.trans_le (hcodes c hc)

theorem value_nonneg (hq : q ∉ nodes) (codes : List (Word × UInt8)) :
    0 ≤ value (entry nodes codes q) := by
  rw [entry_of_not_mem hq]
  cases codeOf codes q with
  | none => exact le_refl 0
  | some c => exact Int.natCast_nonneg _

/-- A round of the loop is at the entry of the next bit. -/
theorem walk_succ (hfull : nodes.length ≤ 256) (hv : v.length = 32)
    (hbuf : bitBuf.toNat = Bits.toNat v) (hk : nodes[k]? = some (v.take m)) (hm : m < 32) :
    walk (layout nodes codes sizes) bitBuf (32 - m) (-(2 * k + 1)) =
      if value (entry nodes codes (v.take (m + 1))) < 0 then
        walk (layout nodes codes sizes) bitBuf (32 - (m + 1))
          (value (entry nodes codes (v.take (m + 1))))
      else some (value (entry nodes codes (v.take (m + 1))), 32 - (m + 1)) := by
  have hklt : k < nodes.length := (List.getElem?_eq_some_iff.1 hk).1
  obtain ⟨b, htake, hbit⟩ := exists_bit hv hbuf hm
  have hslot := slot_lt (show k < 256 by omega) b
  have hindex : (-(-(2 * k + 1) + (b.toNat : ℤ)) : ℤ) = (slot k b : ℕ) := by
    rw [slot]
    cases b <;> simp
  have htree : (layout nodes codes sizes).tree ⟨_, hslot⟩ =
      value (entry nodes codes (v.take (m + 1))) := by
    simp only [layout, entryAt, wordAt_slot hk, ← htake]
    rfl
  rw [show 32 - m = 31 - m + 1 by omega, walk, hbit, hindex, readAt_eq hslot, htree,
    show 31 - m = 32 - (m + 1) by omega]
  rfl

/-- From a node on, the loop goes to the first word of the bits that is no node. -/
theorem walk_eq (sizes : Fin 256 → ℕ) (h : Nodes 8 codes w 8 nodes)
    (hcodes : ∀ c ∈ codes, c.1.length ≤ 16)
    (hfull : nodes.length ≤ 256) (hv : v.length = 32) (hbuf : bitBuf.toNat = Bits.toNat v)
    (hk : nodes[k]? = some (v.take m)) (hm : m ≤ 32) :
    ∃ n, n < 16 ∧ v.take n ∈ nodes ∧ v.take (n + 1) ∉ nodes ∧
      walk (layout nodes codes sizes) bitBuf (32 - m) (-(2 * k + 1)) =
        some (value (entry nodes codes (v.take (n + 1))), 32 - (n + 1)) := by
  have hmem : v.take m ∈ nodes := List.mem_of_getElem? hk
  have hlt : m < 16 := by
    have hlength := length_lt_of_mem h hcodes hmem
    rwa [List.length_take_of_le (by omega)] at hlength
  -- The words of the nodes have less than 16 bits: these are the rounds that are left.
  induction hleft : 15 - m generalizing m k with
  | zero =>
    have hnext : v.take (m + 1) ∉ nodes := by
      intro hnext
      have hlength := length_lt_of_mem h hcodes hnext
      rw [List.length_take_of_le (by omega)] at hlength
      omega
    refine ⟨m, hlt, hmem, hnext, ?_⟩
    rw [walk_succ hfull hv hbuf hk (by omega), if_neg (Int.not_lt.2 (value_nonneg hnext codes))]
  | succ l ih =>
    rw [walk_succ hfull hv hbuf hk (by omega)]
    by_cases hnext : v.take (m + 1) ∈ nodes
    · obtain ⟨k', hk'⟩ := List.mem_iff_getElem?.1 hnext
      rw [entry_of_getElem? h.nodup hk', value, if_pos (by omega)]
      exact ih hk' (by omega) hnext (by omega) (by omega)
    · refine ⟨m, hlt, hmem, hnext, ?_⟩
      rw [if_neg (Int.not_lt.2 (value_nonneg hnext codes))]

/-! ## The symbols of the codes -/

/-- The entry of a code is its symbol, whatever follows it. -/
theorem entry_of_code (h : Nodes 8 codes w 8 nodes) (hfree : PrefixFree codes) (hc : c ∈ codes)
    (hcq : c.1 <+: q) : entry nodes codes q = .leaf c := by
  have hq : q ∉ nodes := fun hq => hfree.not_isInner hc hcq (h.mem_iff_isInner.1 hq).2
  rw [entry_of_not_mem hq, hfree.codeOf_eq hc hcq]
  rfl

theorem ofNat_toNat_take (hv : v.length = 32) :
    Bits.ofNat 8 (Bits.toNat (v.take 8)) = v.take 8 := by
  have hword := Bits.ofNat_toNat (v.take 8)
  rwa [List.length_take_of_le (by omega)] at hword

/-- The next eight bits are those of an entry. -/
theorem readAt_root (array : Fin 256 → ℤ) (f : ℕ → Entry UInt8 → ℤ)
    (harray : ∀ j : Fin 256, array j = f j (entry nodes codes (Bits.ofNat 8 j)))
    (hv : v.length = 32) (hbuf : bitBuf.toNat = Bits.toNat v) :
    readAt array (bitBuf >>> 24).toNat =
      some (f (Bits.toNat (v.take 8)) (entry nodes codes (v.take 8))) := by
  have hlength : (v.take 8).length = 8 := List.length_take_of_le (by omega)
  have hlt : Bits.toNat (v.take 8) < 256 := by
    have hlt := Bits.toNat_lt (v.take 8)
    rwa [hlength] at hlt
  rw [shiftRight_toNat hv hbuf 8, readAt_eq hlt, harray, ofNat_toNat_take hv]

/-- The loop finds a long code. -/
theorem walk_code (sizes : Fin 256 → ℕ) (h : Nodes 8 codes w 8 nodes) (hfree : PrefixFree codes)
    (hcodes : ∀ c ∈ codes, c.1.length ≤ 16) (hfull : nodes.length ≤ 256) (hv : v.length = 32)
    (hbuf : bitBuf.toNat = Bits.toNat v) (hc : c ∈ codes) (hcv : c.1 <+: v)
    (hlong : 8 < c.1.length) :
    ∃ k : ℕ, entry nodes codes (v.take 8) = .node k ∧
      walk (layout nodes codes sizes) bitBuf 24 (-(2 * k + 1)) =
        some ((c.2.toNat : ℤ), 32 - c.1.length) := by
  -- The beginnings of the code are nodes.
  have hinner : ∀ m, 8 ≤ m → m < c.1.length → v.take m ∈ nodes := by
    intro m hm hlt
    have hlength : (v.take m).length = m := List.length_take_of_le (by have := hcv.length_le; omega)
    refine h.mem_iff_isInner.2 ⟨hlength.symm ▸ hm, c, hc, ?_, hlength.symm ▸ hlt⟩
    exact List.prefix_of_prefix_length_le (List.take_prefix m v) hcv (hlength.symm ▸ hlt.le)
  obtain ⟨k, hk⟩ := List.mem_iff_getElem?.1 (hinner 8 (Nat.le_refl 8) hlong)
  obtain ⟨n, hn, hnode, hnext, hwalk⟩ := walk_eq sizes h hcodes hfull hv hbuf hk (by decide)
  have hlength : c.1.length = n + 1 := by
    have hnode' := h.mem_iff_isInner.1 hnode
    rw [List.length_take] at hnode'
    have hlt : n < c.1.length := by
      by_contra hle
      refine hfree.not_isInner hc ?_ hnode'.2
      exact (List.prefix_take_iff).2 ⟨hcv, Nat.le_of_not_lt hle⟩
    have hge : ¬ n + 1 < c.1.length := fun hlt => hnext (hinner (n + 1) (by omega) hlt)
    omega
  have hcode : c.1 <+: v.take (n + 1) := List.prefix_take_iff.2 ⟨hcv, hlength.le⟩
  refine ⟨k, entry_of_getElem? h.nodup hk codes, ?_⟩
  rw [hlength, ← show 32 - 8 = 24 from rfl, hwalk, entry_of_code h hfree hc hcode]
  rfl

/-- The size of a symbol is that of its code, if no other code has the same symbol. -/
theorem codeSizes_of_mem (hsymbols : (codes.map Prod.snd).Nodup) (hc : c ∈ codes) :
    codeSizes codes c.2.toFin = c.1.length := by
  induction codes using List.reverseRecOn with
  | nil => exact absurd hc List.not_mem_nil
  | append_singleton codes d ih =>
    rw [List.map_append, List.map_singleton] at hsymbols
    obtain ⟨hcodes, -, hlast⟩ := List.nodup_append.1 hsymbols
    rw [codeSizes_concat]
    rcases List.mem_append.1 hc with hc | hd
    · have hne : c.2.toFin ≠ d.2.toFin := fun heq =>
        hlast _ (List.mem_map_of_mem hc) _ (List.mem_singleton_self _) (UInt8.toFin_inj.1 heq)
      rw [Function.update_of_ne hne, ih hcodes hc]
    · obtain rfl := List.mem_singleton.1 hd
      rw [Function.update_self]

/-- What there is to know of the tables of a file. -/
theorem makeHuffTable_some (hfits : data.Fits) (htables : makeHuffTable data = some tables) :
    ∃ nodes, Nodes 8 data.codes [] 8 nodes ∧ nodes.length ≤ 256 ∧
      tables = layout nodes data.codes (codeSizes data.codes) := by
  rw [makeHuffTable_eq hfits] at htables
  by_cases hfull : (nodesOf 8 data.codes).length ≤ 256
  · rw [if_pos hfull] at htables
    exact ⟨_, nodes_nodesOf 8 data.codes [], hfull, (Option.some.inj htables).symm⟩
  · rw [if_neg hfull] at htables
    cases htables

/-- The symbol whose code is ahead is decoded. -/
theorem huffDecode_ahead (hfits : data.Fits) (hsymbols : data.huffVal.Nodup)
    (htables : makeHuffTable data = some tables) (hc : c ∈ data.codes) (htail : Closed tail)
    (hs : s.Ahead (c.1 ++ u) tail) :
    ∃ s', huffDecode tables s = some (c.2.toNat, s') ∧ s'.Ahead u tail := by
  obtain ⟨nodes, h, hfull, rfl⟩ := makeHuffTable_some hfits htables
  have hfree := HuffData.prefixFree hfits
  have hmax : (c.1.length : ℤ) ≤ s.bitsLeft + 16 :=
    (Int.ofNat_le.2 (HuffData.length_le hc)).trans hs.length_le
  obtain ⟨v, hv, hbuf, hcv⟩ := hs.exists_word hmax
  obtain ⟨s', hs', hahead⟩ := Reader.getBitsNoMarkers_ahead htail hs hmax
  have hroot := readAt_root (layout nodes data.codes (codeSizes data.codes)).lookUp
    (fun _ => value) (fun _ => rfl) hv hbuf
  refine ⟨s', ?_, hahead⟩
  rw [huffDecode, hroot]
  simp only [Option.bind_eq_bind, Option.bind_some]
  by_cases hlong : 8 < c.1.length
  · obtain ⟨k, hk, hwalk⟩ := walk_code (codeSizes data.codes) h hfree (fun c => HuffData.length_le)
      hfull hv hbuf hc hcv hlong
    rw [hk, value, if_pos (by omega), hwalk]
    simp only [Option.bind_some]
    rw [show 8 + (24 - (32 - c.1.length)) = c.1.length by have := HuffData.length_le hc; omega, hs',
      Int.toNat_natCast]
    rfl
  · have hcode : c.1 <+: v.take 8 := List.prefix_take_iff.2 ⟨hcv, Nat.le_of_not_lt hlong⟩
    have hsize : codeSizes data.codes ⟨c.2.toNat, c.2.toNat_lt⟩ = c.1.length :=
      codeSizes_of_mem (data.map_snd_codes ▸ hsymbols) hc
    rw [entry_of_code h hfree hc hcode, value, if_neg (by omega), readAt_eq c.2.toNat_lt]
    simp only [Option.bind_some, layout]
    rw [hsize, hs', Int.toNat_natCast]
    rfl

/-- A run of symbols. -/
def huffDecodeAll (tables : HuffTables) : ℕ → Reader → Option (List ℕ × Reader)
  | 0, s => some ([], s)
  | k + 1, s => do
    let (symbol, s) ← huffDecode tables s
    let (symbols, s) ← huffDecodeAll tables k s
    return (symbol :: symbols, s)

/-- The symbols whose codes are ahead are decoded. -/
theorem huffDecodeAll_ahead {cs : List (Word × UInt8)} (hfits : data.Fits)
    (hsymbols : data.huffVal.Nodup) (htables : makeHuffTable data = some tables)
    (hcs : ∀ c ∈ cs, c ∈ data.codes) (htail : Closed tail)
    (hs : s.Ahead ((cs.map Prod.fst).flatten ++ u) tail) :
    ∃ s', huffDecodeAll tables cs.length s = some (cs.map fun c => c.2.toNat, s') ∧
      s'.Ahead u tail := by
  induction cs generalizing s with
  | nil => exact ⟨s, rfl, hs⟩
  | cons c cs ih =>
    obtain ⟨hc, hcs⟩ := List.forall_mem_cons.1 hcs
    rw [List.map_cons, List.flatten_cons, List.append_assoc] at hs
    obtain ⟨s₁, hs₁, h₁⟩ := huffDecode_ahead hfits hsymbols htables hc htail hs
    obtain ⟨s₂, hs₂, h₂⟩ := ih hcs h₁
    refine ⟨s₂, ?_, h₂⟩
    rw [List.length_cons, huffDecodeAll, hs₁]
    simp only [Option.bind_eq_bind, Option.bind_some]
    rw [hs₂]
    rfl

/-- The symbols of a scan are decoded, from its start on, and at the end of its data the input is at
    what follows it. -/
theorem huffDecodeAll_scan (cs : List (Word × UInt8)) (bytes : List UInt8) (hfits : data.Fits)
    (hsymbols : data.huffVal.Nodup) (htables : makeHuffTable data = some tables)
    (hcs : ∀ c ∈ cs, c ∈ data.codes) (htail : Closed tail)
    (hpending : s.input.pending = stuff bytes ++ tail)
    (hbits : bitsOf bytes = (cs.map Prod.fst).flatten ++ u) :
    ∃ s', huffDecodeAll tables cs.length s.refill = some (cs.map fun c => c.2.toNat, s') ∧
      (u.length < 16 → s'.input.pending = tail) := by
  have hahead := Reader.refill_ahead htail hpending
  rw [hbits] at hahead
  obtain ⟨s', hs', h'⟩ := huffDecodeAll_ahead hfits hsymbols htables hcs htail hahead
  exact ⟨s', hs', h'.pending_eq⟩

/-- The codes of the symbols 8, 1 and 0, in two bytes. -/
def sampleScan : Reader := ⟨⟨stuff [0xFF, 0x4F], [], true, false, fun _ => rfl⟩, 0, 16⟩

theorem sampleScan_huffDecodeAll :
    ∃ s', huffDecodeAll sampleTables 3 sampleScan.refill = some ([8, 1, 0], s') ∧
      (4 < 16 → s'.input.pending = []) :=
  huffDecodeAll_scan (u := [true, true, true, true])
    [(List.replicate 8 true ++ [false], 8), ([true, false], 1), ([false], 0)] [0xFF, 0x4F]
    (by decide) (by decide) sampleTables_eq (by decide) trivial rfl (by decide)

/-! ## The extra bits -/

/-- The fields of an entry of `look_up2`. -/
theorem fields_eq (entry : ℕ) :
    (entry &&& 0x8000 ≠ 0 ↔ entry / 2 ^ 15 % 2 = 1) ∧ entry >>> 8 &&& 31 = entry / 2 ^ 8 % 2 ^ 5 ∧
      entry >>> 16 = entry / 2 ^ 16 ∧ entry &&& 0xFF = entry % 2 ^ 8 ∧
      entry &&& 0xF = entry % 2 ^ 4 := by
  refine ⟨?_, ?_, Nat.shiftRight_eq_div_pow .., Nat.and_two_pow_sub_one_eq_mod entry 8,
    Nat.and_two_pow_sub_one_eq_mod entry 4⟩
  · rw [show (0x8000 : ℕ) = 2 ^ 15 from rfl, Nat.and_two_pow, Nat.testBit_eq_decide_div_mod_eq]
    simp
  · rw [Nat.shiftRight_eq_div_pow]
    exact Nat.and_two_pow_sub_one_eq_mod _ 5

/-- An entry with the extra bits. -/
theorem fields_with {i total : ℕ} (hi : i < 256) (htotal : total < 32) (extraBits : ℕ) {entry : ℕ}
    (h : entry = i ||| 0x8000 ||| (extraBits <<< 16) ||| (total <<< 8)) :
    entry &&& 0x8000 ≠ 0 ∧ entry >>> 8 &&& 31 = total ∧ entry >>> 16 = extraBits ∧
      entry &&& 0xFF = i ∧ entry &&& 0xF = i &&& 15 := by
  have hsum : entry = 2 ^ 16 * extraBits + (2 ^ 15 * 1 + (2 ^ 8 * total + i)) := by
    rw [h, Nat.two_pow_add_eq_or_of_lt (show 2 ^ 15 * 1 + (2 ^ 8 * total + i) < 2 ^ 16 by omega),
      Nat.two_pow_add_eq_or_of_lt (show 2 ^ 8 * total + i < 2 ^ 15 by omega),
      Nat.two_pow_add_eq_or_of_lt (show i < 2 ^ 8 by omega), Nat.shiftLeft_eq, Nat.shiftLeft_eq,
      Nat.mul_comm extraBits, Nat.mul_comm total, show (0x8000 : ℕ) = 2 ^ 15 * 1 from rfl]
    ac_rfl
  have hmod : i &&& 15 = i % 2 ^ 4 := Nat.and_two_pow_sub_one_eq_mod _ 4
  obtain ⟨hflag, hsize, hextra, hsymbol, hnum⟩ := fields_eq entry
  rw [hflag, hsize, hextra, hsymbol, hnum, hmod]
  omega

/-- An entry without them. -/
theorem fields_without {i size : ℕ} (hi : i < 256) (hsize : size < 32) {entry : ℕ}
    (h : entry = i ||| (size <<< 8)) :
    ¬entry &&& 0x8000 ≠ 0 ∧ entry >>> 8 &&& 31 = size ∧ entry &&& 0xFF = i ∧
      entry &&& 0xF = i &&& 15 := by
  have hsum : entry = 2 ^ 8 * size + i := by
    rw [h, Nat.two_pow_add_eq_or_of_lt (show i < 2 ^ 8 by omega), Nat.shiftLeft_eq,
      Nat.mul_comm size, Nat.or_comm]
  have hmod : i &&& 15 = i % 2 ^ 4 := Nat.and_two_pow_sub_one_eq_mod _ 4
  obtain ⟨hflag, hshift, -, hsymbol, hnum⟩ := fields_eq entry
  rw [hflag, hshift, hsymbol, hnum, hmod]
  omega

/-- An entry with the extra bits is taken at once. -/
theorem takeEntry_packed {i total : ℕ} (hi : i < 256) (htotal : total < 32) (extraBits : ℕ)
    (s : Reader) :
    takeEntry (i ||| 0x8000 ||| (extraBits <<< 16) ||| (total <<< 8)) s =
      ((i, extraBits), (s.getBitsNoMarkers total).2) := by
  obtain ⟨hflag, hsize, hfetch, hsymbol, -⟩ := fields_with hi htotal extraBits rfl
  rw [takeEntry, if_pos hflag, hsize, hfetch, hsymbol]

/-- An entry without them: they are taken with the code, if the buffer has them all. -/
theorem takeEntry_plain {i size : ℕ} (hi : i < 256) (hsize : size < 32) (s : Reader) :
    takeEntry (i ||| (size <<< 8)) s =
      if ((size + (i &&& 15) : ℕ) : ℤ) ≤ s.bitsLeft + 16 then
        ((i, (s.getBitsNoMarkers (size + (i &&& 15))).1 &&& ((1 <<< (i &&& 15)) - 1)),
          (s.getBitsNoMarkers (size + (i &&& 15))).2)
      else
        ((i, ((s.getBitsNoMarkers size).2.getBitsNoMarkers (i &&& 15)).1),
          ((s.getBitsNoMarkers size).2.getBitsNoMarkers (i &&& 15)).2) := by
  obtain ⟨hflag, hshift, hsymbol, hnum⟩ := fields_without hi hsize rfl
  rw [takeEntry, if_neg hflag]
  dsimp only
  rw [hshift, hnum, hsymbol]

/-- What is asserted of an entry: the size that it has is that of the last code of its symbol. -/
theorem checkEntry_eq {size i : ℕ} (hsize : size ≤ 16) (hi : i < 256) (code : ℕ)
    (tables : HuffTables) :
    checkEntry tables (lookUp2Entry size i code) = jpgdAssert (size = tables.codeSize ⟨i, hi⟩) := by
  have hfields : lookUp2Entry size i code &&& 255 = i ∧ lookUp2Entry size i code >>> 8 &&& 31 =
      size + if lookUp2Entry size i code &&& 0x8000 ≠ 0 then
        lookUp2Entry size i code &&& 15 else 0 := by
    rw [lookUp2Entry]
    dsimp only
    by_cases hextra : i &&& 15 ≠ 0 ∧ size + (i &&& 15) ≤ 8
    · rw [if_pos hextra]
      have htotal : size + (i &&& 15) < 32 := by omega
      obtain ⟨hflag, hshift, -, hsymbol, hnum⟩ := fields_with hi htotal
        (((1 <<< (i &&& 15)) - 1) &&& (code >>> (8 - (size + (i &&& 15))))) rfl
      exact ⟨hsymbol, by rw [if_pos hflag, hshift, hnum]⟩
    · rw [if_neg hextra]
      have hlt : size < 32 := by omega
      obtain ⟨hflag, hshift, hsymbol, -⟩ := fields_without hi hlt rfl
      exact ⟨hsymbol, by rw [if_neg hflag, hshift, Nat.add_zero]⟩
  rw [checkEntry, hfields.1, hfields.2, readAt_eq hi]
  simp only [inArray, bind, Except.bind, Nat.add_right_cancel_iff]

/-- The last bits of a number. -/
theorem and_mask (a e : List Bool) :
    Bits.toNat (a ++ e) &&& ((1 <<< e.length) - 1) = Bits.toNat e := by
  rw [Nat.shiftLeft_eq, Nat.one_mul, Nat.and_two_pow_sub_one_eq_mod, Bits.toNat_append,
    Nat.mul_comm, Nat.mul_add_mod, Nat.mod_eq_of_lt (Bits.toNat_lt e)]

/-- The symbol and its extra bits are in the entry. -/
theorem takeEntry_with {e : List Bool} (hv : v.length = 32) (hbuf : s.bitBuf.toNat = Bits.toNat v)
    (hlength : c.1.length + e.length ≤ 8) (htail : Closed tail)
    (hs : s.Ahead (c.1 ++ (e ++ u)) tail) :
    ∃ s', takeEntry (c.2.toNat ||| 0x8000 ||| ((((1 <<< e.length) - 1) &&&
        (Bits.toNat (v.take 8) >>> (8 - (c.1.length + e.length)))) <<< 16) |||
          ((c.1.length + e.length) <<< 8)) s = ((c.2.toNat, Bits.toNat e), s') ∧
      s'.Ahead u tail := by
  have hi : c.2.toNat < 256 := c.2.toNat_lt
  rw [← List.append_assoc] at hs
  have hmax : ((c.1 ++ e).length : ℤ) ≤ s.bitsLeft + 16 := by
    have hle := hs.length_le
    rw [List.length_append]
    push_cast
    omega
  obtain ⟨v', hv', hbuf', hstarts⟩ := hs.exists_word hmax
  obtain rfl : v' = v := Bits.toNat_inj (hv'.trans hv.symm) (hbuf'.symm.trans hbuf)
  obtain ⟨s', hs', hahead⟩ := Reader.getBitsNoMarkers_ahead htail hs hmax
  have hextra : ((1 <<< e.length) - 1) &&&
      (Bits.toNat (v'.take 8) >>> (8 - (c.1.length + e.length))) = Bits.toNat e := by
    have hshift := Bits.toNat_shiftRight (v'.take 8) (c.1 ++ e).length
    rw [List.length_take_of_le (by omega), List.take_take, List.length_append,
      Nat.min_eq_left hlength, ← List.length_append, ← List.prefix_iff_eq_take.1 hstarts,
      List.length_append] at hshift
    rw [hshift, Nat.and_comm, and_mask]
  refine ⟨s', ?_, hahead⟩
  rw [hextra, takeEntry_packed hi (by omega), ← List.length_append, hs']

/-- The symbol is in the entry, and its extra bits are taken with its code, or after it. -/
theorem takeEntry_without {e : List Bool} (hshort : c.1.length ≤ 8)
    (he : e.length = c.2.toNat &&& 15) (htail : Closed tail)
    (hs : s.Ahead (c.1 ++ (e ++ u)) tail) :
    ∃ s', takeEntry (c.2.toNat ||| (c.1.length <<< 8)) s = ((c.2.toNat, Bits.toNat e), s') ∧
      s'.Ahead u tail := by
  rw [takeEntry_plain c.2.toNat_lt (by omega), ← he]
  have hand : e.length ≤ 15 := he ▸ Nat.and_le_right
  have hle := hs.length_le
  by_cases hboth : ((c.1.length + e.length : ℕ) : ℤ) ≤ s.bitsLeft + 16
  · rw [← List.append_assoc] at hs
    rw [← List.length_append] at hboth
    obtain ⟨s', hs', hahead⟩ := Reader.getBitsNoMarkers_ahead htail hs hboth
    rw [List.length_append] at hboth hs'
    refine ⟨s', ?_, hahead⟩
    rw [if_pos hboth, hs', and_mask]
  · obtain ⟨s₁, hs₁, h₁⟩ := Reader.getBitsNoMarkers_ahead htail hs (by omega)
    have hle₁ := h₁.length_le
    obtain ⟨s₂, hs₂, h₂⟩ := Reader.getBitsNoMarkers_ahead htail h₁ (by omega)
    refine ⟨s₂, ?_, h₂⟩
    rw [if_neg hboth, hs₁, hs₂]

/-- The entry of a short code gives the symbol and its extra bits. -/
theorem takeEntry_ahead {e : List Bool} (hv : v.length = 32) (hbuf : s.bitBuf.toNat = Bits.toNat v)
    (hshort : c.1.length ≤ 8) (he : e.length = c.2.toNat &&& 15) (htail : Closed tail)
    (hs : s.Ahead (c.1 ++ (e ++ u)) tail) :
    ∃ s', takeEntry (lookUp2Entry c.1.length c.2.toNat (Bits.toNat (v.take 8))) s =
      ((c.2.toNat, Bits.toNat e), s') ∧ s'.Ahead u tail := by
  rw [lookUp2Entry, ← he]
  dsimp only
  split_ifs with hextra
  · exact takeEntry_with hv hbuf hextra.2 htail hs
  · exact takeEntry_without hshort he htail hs

/-- The symbol whose code is ahead is decoded, with the extra bits that follow its code. -/
theorem huffDecodeExtra_ahead {e : List Bool} (hfits : data.Fits) (hsymbols : data.huffVal.Nodup)
    (htables : makeHuffTable data = some tables) (hc : c ∈ data.codes)
    (he : e.length = c.2.toNat &&& 15) (htail : Closed tail)
    (hs : s.Ahead (c.1 ++ (e ++ u)) tail) :
    ∃ s', huffDecodeExtra tables s = .ok ((c.2.toNat, Bits.toNat e), s') ∧ s'.Ahead u tail := by
  obtain ⟨nodes, h, hfull, rfl⟩ := makeHuffTable_some hfits htables
  have hfree := HuffData.prefixFree hfits
  have hmax : (c.1.length : ℤ) ≤ s.bitsLeft + 16 :=
    (Int.ofNat_le.2 (HuffData.length_le hc)).trans hs.length_le
  obtain ⟨v, hv, hbuf, hcv⟩ := hs.exists_word hmax
  have hroot := readAt_root (layout nodes data.codes (codeSizes data.codes)).lookUp2
    value2 (fun _ => rfl) hv hbuf
  rw [huffDecodeExtra, hroot, inArray_bind]
  by_cases hlong : 8 < c.1.length
  · obtain ⟨k, hk, hwalk⟩ := walk_code (codeSizes data.codes) h hfree (fun c => HuffData.length_le)
      hfull hv hbuf hc hcv hlong
    obtain ⟨s₁, hs₁, h₁⟩ := Reader.getBitsNoMarkers_ahead htail hs hmax
    have hextra : (e.length : ℤ) ≤ s₁.bitsLeft + 16 := by
      have hle := h₁.length_le
      have hand : c.2.toNat &&& 15 ≤ 15 := Nat.and_le_right
      omega
    obtain ⟨s₂, hs₂, h₂⟩ := Reader.getBitsNoMarkers_ahead htail h₁ hextra
    refine ⟨s₂, ?_, h₂⟩
    rw [hk, value2, if_pos (by omega), hwalk, inArray_bind]
    dsimp only
    rw [show 8 + (24 - (32 - c.1.length)) = c.1.length by have := HuffData.length_le hc; omega, hs₁,
      Int.toNat_natCast]
    dsimp only
    rw [← he, hs₂]
    rfl
  · have hcode : c.1 <+: v.take 8 := List.prefix_take_iff.2 ⟨hcv, Nat.le_of_not_lt hlong⟩
    obtain ⟨s', hs', hahead⟩ := takeEntry_ahead hv hbuf (Nat.le_of_not_lt hlong) he htail hs
    have hsize : c.1.length = (layout nodes data.codes (codeSizes data.codes)).codeSize
        ⟨c.2.toNat, c.2.toNat_lt⟩ :=
      (codeSizes_of_mem (data.map_snd_codes ▸ hsymbols) hc).symm
    refine ⟨s', ?_, hahead⟩
    rw [entry_of_code h hfree hc hcode, value2, if_neg (by omega), Int.toNat_natCast,
      checkEntry_eq (HuffData.length_le hc) c.2.toNat_lt, jpgdAssert_of hsize, hs']
    rfl

/-! ## Any bits -/

theorem value_lt {e : Entry UInt8} : value e < 256 := by
  cases e with
  | free => decide
  | node k => simp only [value]; omega
  | leaf c => exact Int.ofNat_lt.2 c.2.toNat_lt

theorem codeSizes_le (hcodes : ∀ c ∈ codes, c.1.length ≤ 16) (i : Fin 256) :
    codeSizes codes i ≤ 16 := by
  induction codes using List.reverseRecOn with
  | nil => exact Nat.zero_le _
  | append_singleton codes c ih =>
    rw [codeSizes_concat, Function.update_apply]
    split_ifs
    · exact hcodes c (List.mem_append_right _ (List.mem_singleton_self c))
    · exact ih fun d hd => hcodes d (List.mem_append_left _ hd)

/-- The loop ends inside of the tree, whatever the bits are. -/
theorem exists_walk (h : Nodes 8 codes w 8 nodes) (hcodes : ∀ c ∈ codes, c.1.length ≤ 16)
    (hfull : nodes.length ≤ 256) (hv : v.length = 32) (hbuf : bitBuf.toNat = Bits.toNat v)
    (hmem : v.take 8 ∈ nodes) (sizes : Fin 256 → ℕ) :
    ∃ (k i n : ℕ), entry nodes codes (v.take 8) = .node k ∧ i < 256 ∧ 8 ≤ n ∧ n ≤ 16 ∧
      walk (layout nodes codes sizes) bitBuf 24 (-(2 * k + 1)) = some ((i : ℤ), 32 - n) := by
  obtain ⟨k, hk⟩ := List.mem_iff_getElem?.1 hmem
  obtain ⟨n, hn, hnode, hnext, hwalk⟩ := walk_eq sizes h hcodes hfull hv hbuf hk (by decide)
  have hle : 8 ≤ n := (h.mem_iff_isInner.1 hnode).1.trans (List.length_take_le n v)
  obtain ⟨i, hi⟩ := Int.eq_ofNat_of_zero_le (value_nonneg hnext codes)
  refine ⟨k, i, n + 1, entry_of_getElem? h.nodup hk codes, ?_, by omega, hn, hi ▸ hwalk⟩
  exact Int.ofNat_lt.1 (hi ▸ value_lt)

/-- The function reads inside of the tables, whatever the bits are. -/
theorem huffDecode_total (hfits : data.Fits) (htables : makeHuffTable data = some tables)
    (hs : s.Holds held) :
    ∃ i s' held', huffDecode tables s = some (i, s') ∧ i < 256 ∧ s'.Holds held' := by
  obtain ⟨nodes, h, hfull, rfl⟩ := makeHuffTable_some hfits htables
  have hcodes : ∀ c ∈ data.codes, c.1.length ≤ 16 := fun c => HuffData.length_le
  have hroot := readAt_root (layout nodes data.codes (codeSizes data.codes)).lookUp
    (fun _ => value) (fun _ => rfl) hs.length_append hs.bitBuf
  have hle := hs.le_bitsLeft
  rw [huffDecode, hroot]
  simp only [Option.bind_eq_bind, Option.bind_some]
  by_cases hmem : (held ++ List.replicate (32 - held.length) false).take 8 ∈ nodes
  · obtain ⟨k, i, n, hk, hi, hle', hn, hwalk⟩ :=
      exists_walk h hcodes hfull hs.length_append hs.bitBuf hmem (codeSizes data.codes)
    obtain ⟨_, s', held', hs', -, hheld⟩ := hs.getBitsNoMarkers (n := n) (by omega)
    rw [hk, value, if_pos (by omega), hwalk]
    simp only [Option.bind_some]
    rw [show 8 + (24 - (32 - n)) = n by omega, hs', Int.toNat_natCast]
    exact ⟨i, s', held', rfl, hi, hheld⟩
  · obtain ⟨i, hi⟩ := Int.eq_ofNat_of_zero_le (value_nonneg hmem data.codes)
    have hlt : i < 256 := Int.ofNat_lt.1 (hi ▸ value_lt)
    have hsize := codeSizes_le hcodes ⟨i, hlt⟩
    obtain ⟨_, s', held', hs', -, hheld⟩ :=
      hs.getBitsNoMarkers (n := codeSizes data.codes ⟨i, hlt⟩) (by omega)
    rw [hi, if_neg (by omega), readAt_eq hlt]
    simp only [Option.bind_some, layout]
    rw [hs', Int.toNat_natCast]
    exact ⟨i, s', held', rfl, hlt, hheld⟩

/-- So does a run of it. -/
theorem huffDecodeAll_total (hfits : data.Fits) (htables : makeHuffTable data = some tables)
    (k : ℕ) (hs : s.Holds held) :
    ∃ symbols s', huffDecodeAll tables k s = some (symbols, s') ∧ symbols.length = k ∧
      ∀ i ∈ symbols, i < 256 := by
  induction k generalizing s held with
  | zero => exact ⟨[], s, rfl, rfl, List.forall_mem_nil _⟩
  | succ k ih =>
    obtain ⟨i, s₁, held₁, hs₁, hi, hheld⟩ := huffDecode_total hfits htables hs
    obtain ⟨symbols, s₂, hs₂, hlength, hsymbols⟩ := ih hheld
    refine ⟨i :: symbols, s₂, ?_, congrArg (· + 1) hlength, List.forall_mem_cons.2 ⟨hi, hsymbols⟩⟩
    rw [huffDecodeAll, hs₁]
    simp only [Option.bind_eq_bind, Option.bind_some]
    rw [hs₂]
    rfl

/-- Whatever the file is, any number of symbols is decoded inside of the tables. -/
theorem huffDecodeAll_inside (hfits : data.Fits) (htables : makeHuffTable data = some tables)
    (k : ℕ) (s : Reader) :
    ∃ symbols s', huffDecodeAll tables k s.refill = some (symbols, s') ∧ symbols.length = k ∧
      ∀ i ∈ symbols, i < 256 := by
  obtain ⟨held, hheld⟩ := s.refill_holds
  exact huffDecodeAll_total hfits htables k hheld

theorem sampleScan_huffDecodeAll_inside :
    ∃ symbols s', huffDecodeAll sampleTables 40 sampleScan.refill = some (symbols, s') ∧
      symbols.length = 40 ∧ ∀ i ∈ symbols, i < 256 :=
  huffDecodeAll_inside sampleHuffData_fits sampleTables_eq 40 sampleScan

/-- An entry for a short code, or none. -/
theorem takeEntry_total {size i : ℕ} (hsize : size ≤ 8) (hi : i < 256) (code : ℕ)
    (hs : s.Holds held) :
    ∃ extraBits s' held', takeEntry (lookUp2Entry size i code) s = ((i, extraBits), s') ∧
      extraBits < 2 ^ (i &&& 15) ∧ s'.Holds held' := by
  have hle := hs.le_bitsLeft
  have hmod : i &&& 15 = i % 2 ^ 4 := Nat.and_two_pow_sub_one_eq_mod _ 4
  have hmask : ∀ n x : ℕ, ((1 <<< n) - 1) &&& x < 2 ^ n := by
    intro n x
    rw [Nat.shiftLeft_eq, Nat.one_mul]
    exact Nat.lt_of_le_of_lt Nat.and_le_left (Nat.sub_lt (Nat.two_pow_pos n) one_pos)
  rw [lookUp2Entry]
  dsimp only
  split_ifs with hextra
  · obtain ⟨_, s', held', hs', -, hheld⟩ :=
      hs.getBitsNoMarkers (n := size + (i &&& 15)) (by omega)
    rw [takeEntry_packed hi (by omega), hs']
    exact ⟨_, s', held', rfl, hmask _ _, hheld⟩
  · rw [takeEntry_plain hi (by omega)]
    by_cases hboth : ((size + (i &&& 15) : ℕ) : ℤ) ≤ s.bitsLeft + 16
    · obtain ⟨j, s', held', hs', -, hheld⟩ := hs.getBitsNoMarkers hboth
      rw [if_pos hboth, hs']
      exact ⟨_, s', held', rfl, Nat.and_comm _ j ▸ hmask _ j, hheld⟩
    · obtain ⟨_, s₁, held₁, hs₁, -, hheld₁⟩ := hs.getBitsNoMarkers (n := size) (by omega)
      have hle₁ := hheld₁.le_bitsLeft
      obtain ⟨j, s₂, held₂, hs₂, hj, hheld₂⟩ :=
        hheld₁.getBitsNoMarkers (n := i &&& 15) (by omega)
      rw [if_neg hboth, hs₁, hs₂]
      exact ⟨j, s₂, held₂, rfl, hj, hheld₂⟩

/-- An entry is taken if the size that it has is that of the last code of its symbol. -/
theorem checkEntry_total {size i : ℕ} (hsize : size ≤ 8) (hi : i < 256) (code : ℕ)
    (tables : HuffTables) (hs : s.Holds held) :
    (∃ extraBits s' held', (do
        checkEntry tables (lookUp2Entry size i code)
        return takeEntry (lookUp2Entry size i code) s) = .ok ((i, extraBits), s') ∧
      extraBits < 2 ^ (i &&& 15) ∧ s'.Holds held') ∨
      (do
        checkEntry tables (lookUp2Entry size i code)
        return takeEntry (lookUp2Entry size i code) s) = .error .aborted ∧
      size ≠ tables.codeSize ⟨i, hi⟩ := by
  rw [checkEntry_eq (by omega) hi]
  by_cases hsame : size = tables.codeSize ⟨i, hi⟩
  · obtain ⟨extraBits, s', held', hs', hextra, hheld⟩ := takeEntry_total hsize hi code hs
    rw [jpgdAssert_of hsame, hs']
    exact .inl ⟨extraBits, s', held', rfl, hextra, hheld⟩
  · rw [jpgdAssert, if_neg hsame]
    exact .inr ⟨rfl, hsame⟩

/-- The assertion of `huff_decode` holds whatever the bits are: the symbols are distinct, and any
    eight bits are those of a code or go on in one, unless the symbol 0 has no code. -/
def HuffData.Covers (data : HuffData) : Prop :=
  data.huffVal.Nodup ∧ (0 ∈ data.huffVal → ∀ j : Fin 256, ∃ c ∈ data.codes,
    c.1 <+: Bits.ofNat 8 j ∨ Bits.ofNat 8 j <+: c.1)

instance (data : HuffData) : Decidable data.Covers := inferInstanceAs (Decidable (_ ∧ _))

theorem codeSizes_of_not_mem {i : UInt8} (h : i ∉ codes.map Prod.snd) :
    codeSizes codes i.toFin = 0 := by
  induction codes using List.reverseRecOn with
  | nil => rfl
  | append_singleton codes d ih =>
    rw [List.map_append, List.mem_append, not_or] at h
    have hne : i.toFin ≠ d.2.toFin := fun heq =>
      h.2 (List.mem_singleton.2 (UInt8.toFin_inj.1 heq))
    rw [codeSizes_concat, Function.update_of_ne hne, ih h.1]

/-- Where eight bits are no code and do not go on in one, the symbol 0 has none. -/
theorem HuffData.Covers.codeSizes_zero (h : data.Covers) (hnodes : Nodes 8 data.codes w 8 nodes)
    (hv : v.length = 32) (hmem : v.take 8 ∉ nodes) (hcode : codeOf data.codes (v.take 8) = none) :
    0 = codeSizes data.codes 0 := by
  refine (codeSizes_of_not_mem (i := 0) fun hzero => ?_).symm
  have hlength : (v.take 8).length = 8 := List.length_take_of_le (by omega)
  have hlt : Bits.toNat (v.take 8) < 256 := by
    have hlt := Bits.toNat_lt (v.take 8)
    rwa [hlength] at hlt
  obtain ⟨c, hc, hstarts⟩ := h.2 (data.map_snd_codes ▸ hzero) ⟨_, hlt⟩
  rw [ofNat_toNat_take hv] at hstarts
  have hnone : ¬ c.1 <+: v.take 8 := fun hstarts => by
    rw [codeOf, List.find?_eq_none] at hcode
    exact hcode c hc (List.isPrefixOf_iff_prefix.2 hstarts)
  have hinner := hstarts.resolve_left hnone
  -- The code is longer, so there is a node for its first eight bits.
  have hlong : (v.take 8).length < c.1.length := by
    refine lt_of_le_of_ne hinner.length_le fun heq => hnone ?_
    exact (hinner.eq_of_length heq).symm ▸ List.prefix_rfl
  exact hmem (hnodes.mem_iff_isInner.2 ⟨hlength.ge, c, hc, hinner, hlong⟩)

/-- So does the function with the extra bits, which are not more than the symbol says, unless its
    assertion fails. -/
theorem huffDecodeExtra_total (hfits : data.Fits) (htables : makeHuffTable data = some tables)
    (hs : s.Holds held) :
    (∃ i extraBits s' held', huffDecodeExtra tables s = .ok ((i, extraBits), s') ∧ i < 256 ∧
      extraBits < 2 ^ (i &&& 15) ∧ s'.Holds held') ∨
      huffDecodeExtra tables s = .error .aborted ∧ ¬data.Covers := by
  obtain ⟨nodes, h, hfull, rfl⟩ := makeHuffTable_some hfits htables
  have hcodes : ∀ c ∈ data.codes, c.1.length ≤ 16 := fun c => HuffData.length_le
  have hroot := readAt_root (layout nodes data.codes (codeSizes data.codes)).lookUp2
    value2 (fun _ => rfl) hs.length_append hs.bitBuf
  have hle := hs.le_bitsLeft
  rw [huffDecodeExtra, hroot, inArray_bind]
  by_cases hmem : (held ++ List.replicate (32 - held.length) false).take 8 ∈ nodes
  · obtain ⟨k, i, n, hk, hi, hle', hn, hwalk⟩ :=
      exists_walk h hcodes hfull hs.length_append hs.bitBuf hmem (codeSizes data.codes)
    obtain ⟨_, s₁, held₁, hs₁, -, hheld₁⟩ := hs.getBitsNoMarkers (n := n) (by omega)
    have hle₁ := hheld₁.le_bitsLeft
    have hand : i &&& 15 ≤ 15 := Nat.and_le_right
    obtain ⟨j, s₂, held₂, hs₂, hj, hheld₂⟩ := hheld₁.getBitsNoMarkers (n := i &&& 15) (by omega)
    rw [hk, value2, if_pos (by omega), hwalk, inArray_bind]
    dsimp only
    rw [show 8 + (24 - (32 - n)) = n by omega, hs₁, Int.toNat_natCast]
    dsimp only
    rw [hs₂]
    exact .inl ⟨i, j, s₂, held₂, rfl, hi, hj, hheld₂⟩
  · rw [entry_of_not_mem hmem]
    cases hcode : codeOf data.codes ((held ++ List.replicate (32 - held.length) false).take 8) with
    | none =>
      -- There is no code: the entry is that of the symbol zero, with a code of no bits.
      have hzero : (lookUp2Entry 0 0 0 : ℤ) = 0 := rfl
      rw [Option.elim_none, value2, ← hzero, if_neg (by decide), Int.toNat_natCast]
      rcases checkEntry_total (Nat.zero_le 8) (show 0 < 256 by decide) 0
        (layout nodes data.codes (codeSizes data.codes)) hs with
        ⟨j, s', held', hs', hj, hheld⟩ | ⟨hs', hne⟩
      · exact .inl ⟨0, j, s', held', hs', by decide, hj, hheld⟩
      · exact .inr ⟨hs', fun hcovers => hne (hcovers.codeSizes_zero h hs.length_append hmem hcode)⟩
    | some c =>
      obtain ⟨hc, hstarts⟩ := mem_of_codeOf hcode
      have hshort : c.1.length ≤ 8 := hstarts.length_le.trans (List.length_take_le 8 _)
      rw [Option.elim_some, value2, if_neg (by omega), Int.toNat_natCast]
      rcases checkEntry_total hshort c.2.toNat_lt (Bits.toNat
        ((held ++ List.replicate (32 - held.length) false).take 8))
        (layout nodes data.codes (codeSizes data.codes)) hs with
        ⟨j, s', held', hs', hj, hheld⟩ | ⟨hs', hne⟩
      · exact .inl ⟨c.2.toNat, j, s', held', hs', c.2.toNat_lt, hj, hheld⟩
      · exact .inr ⟨hs', fun hcovers =>
          hne (codeSizes_of_mem (data.map_snd_codes ▸ hcovers.1) hc).symm⟩

example : sampleHuffData.Covers := by decide +kernel

end Gaze.Jpgd
