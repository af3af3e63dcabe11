import Gaze.Jpgd.Blocks

/-!
# The coding of coefficients

The coefficients of a block are coded one after the other, after the number of zeros before each.
A symbol is this number and the size of the coefficient, and is followed by the bits of the
coefficient.

* `huffExtend_bitsOfSize`: a coefficient is found again from its bits.
* `AcBits`, `DcBits`: the bits are a coding of the coefficients.
* `overlay`: what the block is once some more coefficients are written.
* `acLoop_ahead`, `decodeBlock_ahead`: a block whose coding is ahead is decoded.
-/

namespace Gaze.Jpgd

open PrefixCodes

/-! ## The bits of a coefficient -/

/-- The coefficient has this number of bits. -/
def HasSize (size : ℕ) (z : ℤ) : Prop :=
  z.natAbs < 2 ^ size ∧ (size ≠ 0 → 2 ^ (size - 1) ≤ z.natAbs)

/-- The bits of a coefficient: those of its opposite, inverted, if it is negative. -/
def bitsOfSize (size : ℕ) (z : ℤ) : List Bool :=
  Bits.ofNat size (if 0 ≤ z then z else z + 2 ^ size - 1).toNat

variable {data dcData acData : HuffData} {comp : Component} {c : Word × UInt8} {p : Block}
  {s : Reader} {tail : List UInt8} {z : ℤ} {zs : List ℤ} {bits u : List Bool}
  {j k r rounds size : ℕ}

theorem length_bitsOfSize (size : ℕ) (z : ℤ) : (bitsOfSize size z).length = size :=
  Bits.length_ofNat ..

/-- The number of the bits of a coefficient. -/
theorem toNat_bitsOfSize (hz : HasSize size z) :
    (Bits.toNat (bitsOfSize size z) : ℤ) = if 0 ≤ z then z else z + 2 ^ size - 1 := by
  have habs : (z.natAbs : ℤ) < 2 ^ size := by exact_mod_cast hz.1
  rw [bitsOfSize, Bits.toNat_ofNat_of_lt]
  · split_ifs <;> omega
  · have hlt : (if 0 ≤ z then z else z + 2 ^ size - 1) < 2 ^ size := by split_ifs <;> omega
    have hpow : (2 : ℤ) ^ size = ((2 ^ size : ℕ) : ℤ) := by push_cast; rfl
    split_ifs at hlt ⊢ <;> omega

/-- A coefficient is found again from its bits. -/
theorem huffExtend_bitsOfSize (hsize : size < 16) (hz : HasSize size z) :
    huffExtend (Bits.toNat (bitsOfSize size z)) size = z := by
  have hmod : size &&& 15 = size :=
    (Nat.and_two_pow_sub_one_eq_mod size 4).trans (Nat.mod_eq_of_lt hsize)
  rw [huffExtend, hmod, toNat_bitsOfSize hz, sExtendTest_eq size hsize, sExtendOffset_eq size hsize]
  by_cases hzero : size = 0
  · subst hzero
    have hlt := hz.1
    simp only [if_true]
    split_ifs <;> omega
  · have hle : (2 : ℤ) ^ (size - 1) ≤ z.natAbs := by exact_mod_cast hz.2 hzero
    have habs : (z.natAbs : ℤ) < 2 ^ size := by exact_mod_cast hz.1
    have hdouble : (2 : ℤ) ^ size = 2 * 2 ^ (size - 1) := by
      rw [← pow_succ', Nat.sub_add_cancel (Nat.pos_of_ne_zero hzero)]
    rw [if_neg hzero, if_neg hzero]
    split_ifs <;> omega

/-! ## The coding of a block -/

/-- A coding of the coefficients that are left of a block. -/
inductive AcBits (data : HuffData) : List ℤ → List Bool → Prop
  | full : AcBits data [] []
  | rest {zs : List ℤ} {c : Word × UInt8} (hzs : ∀ z ∈ zs, z = 0) (hne : zs ≠ [])
      (hc : c ∈ data.codes) (hsymbol : c.2.toNat = 0) : AcBits data zs c.1
  | sixteen {zs : List ℤ} {bits : List Bool} {c : Word × UInt8} (hc : c ∈ data.codes)
      (hsymbol : c.2.toNat = 16 * 15) (h : AcBits data zs bits) :
      AcBits data (List.replicate 16 0 ++ zs) (c.1 ++ bits)
  | coeff {z : ℤ} {zs : List ℤ} {bits : List Bool} {c : Word × UInt8} {r size : ℕ}
      (hsize : size < 16) (hne : size ≠ 0) (hz : HasSize size z) (hc : c ∈ data.codes)
      (hsymbol : c.2.toNat = 16 * r + size) (h : AcBits data zs bits) :
      AcBits data (List.replicate r 0 ++ z :: zs) (c.1 ++ (bitsOfSize size z ++ bits))

/-- A coding of the difference to the block before. -/
def DcBits (data : HuffData) (diff : ℤ) (bits : List Bool) : Prop :=
  ∃ c ∈ data.codes, c.2.toNat < 16 ∧ HasSize c.2.toNat diff ∧
    bits = c.1 ++ bitsOfSize c.2.toNat diff

/-- A coefficient as it is written in the block. -/
def dequantize (comp : Component) (k : ℕ) (z : ℤ) : BitVec 16 :=
  BitVec.ofInt 16 (z * ((readAt comp.quant k).getD 0).toInt)

/-- The block of coefficients. -/
def blockOf (comp : Component) (zs : List ℤ) : Block :=
  fun i => dequantize comp (gZag.idxOf i) (zs.getD (gZag.idxOf i) 0)

theorem dequantize_zero (comp : Component) (k : ℕ) : dequantize comp k 0 = 0 := by
  rw [dequantize, Int.zero_mul]
  rfl

theorem atZag_blockOf (comp : Component) (hzs : zs.length = 64) (j : ℕ) :
    atZag (blockOf comp zs) j = dequantize comp j (zs.getD j 0) := by
  rw [atZag]
  cases hj : gZag[j]? with
  | none =>
    have hle : 64 ≤ j := List.getElem?_eq_none_iff.1 hj
    rw [List.getD_eq_default _ _ (hzs ▸ hle), dequantize_zero]
    rfl
  | some i =>
    obtain ⟨hlt, rfl⟩ := List.getElem?_eq_some_iff.1 hj
    rw [Option.elim_some, blockOf, nodup_gZag.idxOf_getElem]

/-- The run and the size of a symbol. -/
theorem symbol_eq {symbol : ℕ} (hsize : size < 16) (h : symbol = 16 * r + size) :
    symbol >>> 4 = r ∧ symbol &&& 15 = size := by
  rw [Nat.shiftRight_eq_div_pow, show symbol &&& 15 = symbol % 2 ^ 4 from
    Nat.and_two_pow_sub_one_eq_mod symbol 4]
  omega

/-- A round for a coefficient. -/
theorem acRound_coeff (comp : Component) (hsize : size < 16) (hne : size ≠ 0)
    (hz : HasSize size z) (hk : k + r < 64) (p : Block) :
    ∃ p', acRound comp 0 k p (16 * r + size) (Bits.toNat (bitsOfSize size z)) =
        .ok (true, k + r + 1, p') ∧
      ∀ j, atZag p' j = if j = k + r then dequantize comp (k + r) z else atZag p j := by
  obtain ⟨hrun, hmod⟩ := symbol_eq hsize (rfl : 16 * r + size = _)
  have hcoeff : z.natAbs ≤ 2 ^ 15 :=
    hz.1.le.trans (Nat.pow_le_pow_right two_pos (Nat.le_of_lt_succ hsize))
  have hskip : skipRun 0 r k p = .ok (k + r, p) := by
    rw [skipRun]
    split_ifs with hr hmax
    · omega
    · rfl
    · rw [not_not.1 hr, Nat.add_zero]
  obtain ⟨p', hp', hat⟩ := writeZag_eq hk p (dequantize comp (k + r) z)
  refine ⟨p', ?_, hat⟩
  rw [dequantize, readAt_eq hk, Option.getD_some] at hp'
  rw [acRound]
  dsimp only
  rw [hrun, hmod, if_pos hne, hskip, huffExtend_bitsOfSize hsize hz]
  dsimp only [bind, Except.bind]
  rw [jpgdAssert_of hk, readAt_eq hk]
  dsimp only [inArray]
  rw [mulInt_eq hcoeff]
  dsimp only
  rw [hp']
  rfl

/-- A round of the loop. -/
theorem acLoop_succ {prev i extraBits k' : ℕ} {more : Bool} {p' : Block} {s' : Reader}
    (hk : k < 64) (hdecode : huffDecodeExtra comp.acTab s = .ok ((i, extraBits), s'))
    (hround : acRound comp prev k p i extraBits = .ok (more, k', p')) (rounds : ℕ) :
    acLoop comp prev (rounds + 1) k p s =
      if more then acLoop comp prev rounds k' p' s' else .ok ((k', p'), s') := by
  rw [acLoop, if_pos hk, hdecode]
  simp only [bind, Except.bind]
  rw [hround]
  rfl

theorem acLoop_full (hk : ¬ k < 64) (comp : Component) (prev rounds : ℕ) (p : Block)
    (s : Reader) : acLoop comp prev rounds k p s = .ok ((k, p), s) := by
  cases rounds with
  | zero => rfl
  | succ rounds => rw [acLoop, if_neg hk]

/-- Coefficients after zeros. -/
theorem getD_append_replicate (n j : ℕ) (zs : List ℤ) :
    (List.replicate n 0 ++ zs).getD j 0 = if j < n then 0 else zs.getD (j - n) 0 := by
  split_ifs with hj
  · rw [List.getD_append _ _ _ _ (by rwa [List.length_replicate]), List.getD_replicate]
    exact hj
  · rw [List.getD_append_right _ _ _ _ (by rw [List.length_replicate]; omega),
      List.length_replicate]

/-- What is at the number `j`, once the coefficients from `k` on are written over those of `p`. -/
def overlay (comp : Component) (p : Block) (k : ℕ) (zs : List ℤ) (j : ℕ) : BitVec 16 :=
  if k ≤ j then dequantize comp j (zs.getD (j - k) 0) else atZag p j

/-- Zeros change nothing, where there are zeros. -/
theorem overlay_zeros (hp : ∀ j, k ≤ j → atZag p j = 0) (hzs : ∀ z ∈ zs, z = 0) (j : ℕ) :
    atZag p j = overlay comp p k zs j := by
  rw [overlay]
  split_ifs with hj
  · have hzero : zs.getD (j - k) 0 = 0 := by
      by_cases hlt : j - k < zs.length
      · rw [List.getD_eq_getElem _ _ hlt]
        exact hzs _ (List.getElem_mem hlt)
      · exact List.getD_eq_default _ _ (Nat.le_of_not_lt hlt)
    rw [hp j hj, hzero, dequantize_zero]
  · rfl

/-- A run of zeros is skipped. -/
theorem overlay_replicate (hp : ∀ j, k ≤ j → atZag p j = 0) (n j : ℕ) :
    overlay comp p (k + n) zs j = overlay comp p k (List.replicate n 0 ++ zs) j := by
  rw [overlay, overlay, getD_append_replicate]
  by_cases hnext : k + n ≤ j
  · rw [if_pos hnext, if_pos (by omega), if_neg (by omega), Nat.sub_sub]
  · rw [if_neg hnext]
    split_ifs with hj hlt
    · rw [hp j hj, dequantize_zero]
    · omega
    · rfl

/-- A coefficient is written. -/
theorem overlay_cons {p' : Block}
    (hat : ∀ j, atZag p' j = if j = k then dequantize comp k z else atZag p j) (j : ℕ) :
    overlay comp p' (k + 1) zs j = overlay comp p k (z :: zs) j := by
  rw [overlay, overlay, hat]
  by_cases hnext : k + 1 ≤ j
  · rw [if_pos hnext, if_pos (by omega), show j - k = j - (k + 1) + 1 by omega,
      List.getD_cons_succ]
  · rw [if_neg hnext]
    by_cases heq : j = k
    · rw [if_pos heq, if_pos heq.ge, heq, Nat.sub_self, List.getD_cons_zero]
    · rw [if_neg heq, if_neg (by omega)]

/-- The coefficients whose coding is ahead are decoded. -/
theorem acLoop_ahead (hfits : data.Fits) (hsymbols : data.huffVal.Nodup)
    (htables : makeHuffTable data = some comp.acTab)
    (htail : Closed tail) (h : AcBits data zs bits) (hs : s.Ahead (bits ++ u) tail)
    (hk : k + zs.length = 64) (hrounds : zs.length ≤ rounds) (hp : ∀ j, k ≤ j → atZag p j = 0) :
    ∃ k' p' s', acLoop comp 0 rounds k p s = .ok ((k', p'), s') ∧ s'.Ahead u tail ∧
      ∀ j, atZag p' j = overlay comp p k zs j := by
  induction h generalizing rounds k p s with
  | full =>
    exact ⟨k, p, s, acLoop_full (by simp at hk; omega) comp 0 rounds p s, hs,
      overlay_zeros hp (List.forall_mem_nil _)⟩
  | @rest zs c hzs hne hc hsymbol =>
    have hpos := List.length_pos_of_ne_nil hne
    obtain ⟨rounds, rfl⟩ := Nat.exists_eq_succ_of_ne_zero (show rounds ≠ 0 by omega)
    obtain ⟨s', hs', hahead⟩ := huffDecodeExtra_ahead (e := []) hfits hsymbols htables hc
      (by rw [hsymbol]; rfl) htail hs
    have hround : acRound comp 0 k p c.2.toNat (Bits.toNat []) = .ok (false, k, p) := by
      rw [hsymbol]
      rfl
    exact ⟨k, p, s', acLoop_succ (by omega) hs' hround rounds, hahead, overlay_zeros hp hzs⟩
  | @sixteen zs bits c hc hsymbol h ih =>
    rw [List.length_append, List.length_replicate] at hk hrounds
    obtain ⟨rounds, rfl⟩ := Nat.exists_eq_succ_of_ne_zero (show rounds ≠ 0 by omega)
    rw [List.append_assoc] at hs
    obtain ⟨s₁, hs₁, h₁⟩ := huffDecodeExtra_ahead (e := []) hfits hsymbols htables hc
      (by rw [hsymbol]; rfl) htail hs
    have hround : acRound comp 0 k p c.2.toNat (Bits.toNat []) = .ok (true, k + 16, p) := by
      rw [hsymbol, acRound]
      dsimp only
      rw [if_neg (by decide), if_pos (by decide), if_neg (by omega),
        show clearRun 0 16 k p = .ok p from if_neg (Nat.not_lt_zero k)]
      dsimp only [bind, Except.bind]
      rw [assertZag_eq (by omega) (hp (k + 15) (Nat.le_add_right k 15))]
      rfl
    obtain ⟨k', p', s', hloop, hahead, hat⟩ :=
      ih (k := k + 16) h₁ (by omega) (show zs.length ≤ rounds by omega)
        fun j hj => hp j (by omega)
    exact ⟨k', p', s', (acLoop_succ (by omega) hs₁ hround rounds).trans hloop, hahead,
      fun j => (hat j).trans (overlay_replicate hp 16 j)⟩
  | @coeff z zs bits c r size hsize hne hz hc hsymbol h ih =>
    rw [List.length_append, List.length_replicate, List.length_cons] at hk hrounds
    obtain ⟨rounds, rfl⟩ := Nat.exists_eq_succ_of_ne_zero (show rounds ≠ 0 by omega)
    rw [List.append_assoc, List.append_assoc] at hs
    have hlength : (bitsOfSize size z).length = c.2.toNat &&& 15 := by
      rw [length_bitsOfSize, (symbol_eq hsize hsymbol).2]
    obtain ⟨s₁, hs₁, h₁⟩ := huffDecodeExtra_ahead hfits hsymbols htables hc hlength htail hs
    obtain ⟨p₁, hround, hat₁⟩ := acRound_coeff comp hsize hne hz (show k + r < 64 by omega) p
    rw [← hsymbol] at hround
    obtain ⟨k', p', s', hloop, hahead, hat⟩ := ih (k := k + r + 1) h₁ (by omega)
      (show zs.length ≤ rounds by omega) fun j hj => by
        rw [hat₁, if_neg (by omega)]
        exact hp j (by omega)
    refine ⟨k', p', s', (acLoop_succ (by omega) hs₁ hround rounds).trans hloop, hahead,
      fun j => ?_⟩
    rw [hat, overlay_cons hat₁, overlay_replicate hp]

/-- A number of 32 bits. -/
theorem toInt_ofInt_of_natAbs_le {dc : ℤ} (hdc : dc.natAbs ≤ 2 ^ 15) :
    (BitVec.ofInt 32 dc).toInt = dc := by
  rw [BitVec.toInt_ofInt]
  exact Int.bmod_eq_of_le (by omega) (by omega)

/-- The first coefficient is written. -/
theorem mulInt_dc (comp : Component) (pred : ℤ) {dc : ℤ} (hdc : dc.natAbs ≤ 2 ^ 15) :
    ∃ c, mulInt (BitVec.ofInt 32 (dc - pred) + BitVec.ofInt 32 pred).toInt
      (comp.quant 0).toInt = .ok c ∧ BitVec.ofInt 16 c = dequantize comp 0 dc := by
  have hzero : readAt comp.quant ((0 : ℕ) : ℤ) = some (comp.quant 0) := readAt_eq (by decide)
  refine ⟨dc * (comp.quant 0).toInt, ?_, ?_⟩
  · rw [← BitVec.ofInt_add, Int.sub_add_cancel, toInt_ofInt_of_natAbs_le hdc, mulInt_eq hdc]
  · rw [dequantize, hzero, Option.getD_some]

/-- No symbol has two codes. -/
def Component.Codes.Distinct (codes : comp.Codes) : Prop :=
  codes.dcData.huffVal.Nodup ∧ codes.acData.huffVal.Nodup

/-- A block whose coding is ahead is decoded, whatever the block before has been. -/
theorem decodeBlock_ahead {dc pred : ℤ} {ac : List ℤ} {dcBits acBits : List Bool}
    {p : Block} {prev : ℕ} (codes : comp.Codes) (hcodes : codes.Distinct)
    (hbound : dc.natAbs ≤ 2 ^ 15)
    (hdc : DcBits codes.dcData (dc - pred) dcBits) (hac : AcBits codes.acData ac acBits)
    (hlength : ac.length = 63) (htail : Closed tail)
    (hs : s.Ahead (dcBits ++ (acBits ++ u)) tail) (hp : Below prev p) :
    ∃ k s', decodeBlock comp (BitVec.ofInt 32 pred) p prev s =
        .ok ((blockOf comp (dc :: ac), k, BitVec.ofInt 32 dc), s') ∧ s'.Ahead u tail := by
  obtain ⟨c, hc, hlt, hsize, rfl⟩ := hdc
  have hmod : c.2.toNat &&& 15 = c.2.toNat :=
    (Nat.and_two_pow_sub_one_eq_mod c.2.toNat 4).trans (Nat.mod_eq_of_lt hlt)
  have hfirst : gZag[0]? = some 0 := rfl
  rw [List.append_assoc] at hs
  obtain ⟨s₁, hs₁, h₁⟩ := huffDecodeExtra_ahead codes.dcFits hcodes.1 codes.dcTab hc
    (by rw [length_bitsOfSize, hmod]) htail hs
  obtain ⟨product, hproduct, hwritten⟩ := mulInt_dc comp pred hbound
  obtain ⟨k, p', s', hloop, hahead, hat⟩ := acLoop_ahead (k := 1)
    (p := Function.update (fun _ => 0) 0 (dequantize comp 0 dc)) codes.acFits hcodes.2
    codes.acTab htail hac h₁ (by omega) hlength.le
    fun j hj => by rw [atZag_update hfirst, if_neg (by omega), atZag_zero]
  have hblock : p' = blockOf comp (dc :: ac) := by
    refine ext_atZag fun j => ?_
    rw [hat, overlay, atZag_blockOf comp (by rw [List.length_cons, hlength])]
    split_ifs with hj
    · obtain ⟨j, rfl⟩ := Nat.exists_eq_add_of_le' hj
      rw [Nat.add_sub_cancel, List.getD_cons_succ]
    · obtain rfl : j = 0 := by omega
      rw [atZag_update hfirst, if_pos rfl, List.getD_cons_zero]
  refine ⟨k, s', ?_, hahead⟩
  rw [decodeBlock_stale comp _ hp.le hp.zero, decodeBlock, hs₁]
  dsimp only [bind, Except.bind]
  rw [huffExtend_bitsOfSize hlt hsize, hproduct]
  dsimp only
  rw [hwritten, hloop]
  dsimp only
  rw [clearRest, if_neg (Nat.not_lt_zero k), ← BitVec.ofInt_add, Int.sub_add_cancel, hblock]
  rfl

end Gaze.Jpgd
