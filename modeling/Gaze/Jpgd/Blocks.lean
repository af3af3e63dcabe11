import Gaze.Jpgd.Decoding
import Gaze.Jpgd.Markers

/-!
# Decoding the coefficients of a block

A block is decoded over the one before at its place. A coefficient that is 0 is not coded, and
`decode_next_row` writes a zero only where the block before may have another one: it keeps the
number of the coefficients that may be set (`m_mcu_block_max_zag`).

* `atZag`: the coefficients in the order in which they are coded.
* `decodeBlock_stale`: the result is that over a block of zeros, whatever the block before has been.
* `decodeBlock_safe`: whatever the bits are, nothing is read or written outside of the arrays, and
  the coefficients are set before the new number. The assertions of `decode_next_row` hold, too:
  what stops the decoding is an error, the assertion of `huff_decode`, or the overflow of the first
  product.
-/

namespace Gaze.Jpgd

/-! ## The code of `decode_next_row`, for a block -/

/-- The 64 coefficients of a block, each a `jpgd_block_t`. -/
abbrev Block := Fin 64 → BitVec 16

/-- `g_ZAG`. -/
def gZag : List (Fin 64) :=
  [0, 1, 8, 16, 9, 2, 3, 10, 17, 24, 32, 25, 18, 11, 4, 5, 12, 19, 26, 33, 40, 48, 41, 34, 27, 20,
    13, 6, 7, 14, 21, 28, 35, 42, 49, 56, 57, 50, 43, 36, 29, 22, 15, 23, 30, 37, 44, 51, 58, 59,
    52, 45, 38, 31, 39, 46, 53, 60, 61, 54, 47, 55, 62, 63]

/-- `s_extend_test` and `s_extend_offset`. -/
def sExtendTest : List ℤ :=
  [0, 0x0001, 0x0002, 0x0004, 0x0008, 0x0010, 0x0020, 0x0040, 0x0080, 0x0100, 0x0200, 0x0400,
    0x0800, 0x1000, 0x2000, 0x4000]

def sExtendOffset : List ℤ :=
  0 :: (List.range' 1 15).map fun n => (-1) * 2 ^ n + 1

/-- `JPGD_HUFF_EXTEND`. -/
def huffExtend (x s : ℕ) : ℤ :=
  if x < sExtendTest.getD (s &&& 15) 0 then x + sExtendOffset.getD (s &&& 15) 0 else x

/-- `p[g_ZAG[k]] = x`. -/
def writeZag (p : Block) (k : ℕ) (x : BitVec 16) : Except Stop Block := do
  let j ← inArray gZag[k]?
  return Function.update p j x

/-- The loops that write `n` zeros from `kt` on. -/
def clearZag : ℕ → ℕ → Block → Except Stop Block
  | 0, _, p => .ok p
  | n + 1, kt, p => do
    let p ← writeZag p kt 0
    clearZag n (kt + 1) p

/-- `JPGD_ASSERT(p[g_ZAG[k]] == 0)`. -/
def assertZag (p : Block) (k : ℕ) : Except Stop Unit := do
  let j ← inArray gZag[k]?
  jpgdAssert (p j = 0)

/-- A product of `int`s. -/
def mulInt (c q : ℤ) : Except Stop ℤ :=
  if -2 ^ 31 ≤ c * q ∧ c * q < 2 ^ 31 then .ok (c * q) else .error .overflow

/-- What a component is decoded with. -/
structure Component where
  dcTab : HuffTables
  acTab : HuffTables
  quant : Fin 64 → BitVec 16

/-- The coefficients that are skipped, `n` of them from `k` on: those that may be set are cleared.
    (The assertion for 16 of them, that their numbers are at most 63, is part of `writeZag`.) -/
def clearRun (prevNumSet n k : ℕ) (p : Block) : Except Stop Block :=
  if k < prevNumSet then clearZag (min n (prevNumSet - k)) k p else .ok p

/-- A run of `r` zeros before a coefficient. -/
def skipRun (prevNumSet r k : ℕ) (p : Block) : Except Stop (ℕ × Block) :=
  if r ≠ 0 then
    if k + r > 63 then .error .decodeError
    else do
      let p ← clearRun prevNumSet r k p
      return (k + r, p)
  else .ok (k, p)

/-- What a symbol is decoded to, from `k` on: whether there is more to come, and from where on. -/
def acRound (comp : Component) (prevNumSet k : ℕ) (p : Block) (symbol extraBits : ℕ) :
    Except Stop (Bool × ℕ × Block) :=
  let r := symbol >>> 4
  let size := symbol &&& 15
  if size ≠ 0 then do
    let (k, p) ← skipRun prevNumSet r k p
    jpgdAssert (k < 64)
    let q ← inArray (readAt comp.quant k)
    let c ← mulInt (huffExtend extraBits size) q.toInt
    let p ← writeZag p k (BitVec.ofInt 16 c)
    return (true, k + 1, p)
  else if r = 15 then
    if k + 16 > 64 then .error .decodeError
    else do
      let p ← clearRun prevNumSet 16 k p
      assertZag p (k + 15)
      return (true, k + 15 + 1, p)
  else return (false, k, p)

/-- The loop over the coefficients of a block, from `k` on: there are at most as many rounds as
    coefficients. -/
def acLoop (comp : Component) (prevNumSet : ℕ) :
    ℕ → ℕ → Block → Reader → Except Stop ((ℕ × Block) × Reader)
  | 0, k, p, s => .ok ((k, p), s)
  | rounds + 1, k, p, s =>
    if k < 64 then do
      let ((symbol, extraBits), s) ← huffDecodeExtra comp.acTab s
      let (more, k, p) ← acRound comp prevNumSet k p symbol extraBits
      if more then acLoop comp prevNumSet rounds k p s else return ((k, p), s)
    else .ok ((k, p), s)

/-- The coefficients after the last one: those that may be set are cleared. -/
def clearRest (prevNumSet k : ℕ) (p : Block) : Except Stop Block :=
  if k < prevNumSet then clearZag (prevNumSet - k) k p else .ok p

/-- A block, written over another one, no coefficient of which is set from `prevNumSet` on. -/
def decodeBlock (comp : Component) (lastDcVal : BitVec 32) (p : Block) (prevNumSet : ℕ)
    (s : Reader) : Except Stop ((Block × ℕ × BitVec 32) × Reader) := do
  let ((size, extraBits), s) ← huffDecodeExtra comp.dcTab s
  let dc := BitVec.ofInt 32 (huffExtend extraBits size) + lastDcVal
  let c ← mulInt dc.toInt (comp.quant 0).toInt
  let p := Function.update p 0 (BitVec.ofInt 16 c)
  let ((k, p), s) ← acLoop comp prevNumSet 63 1 p s
  let p ← clearRest prevNumSet k p
  return ((p, k, dc), s)

/-! ## Coefficients in the order of the loop -/

/-- The coefficient of number `k`. -/
def atZag (p : Block) (k : ℕ) : BitVec 16 := gZag[k]?.elim 0 p

theorem nodup_gZag : gZag.Nodup := by decide

theorem mem_gZag (i : Fin 64) : i ∈ gZag := by decide +revert

variable {comp : Component} {p p₀ p' : Block} {x : BitVec 16} {s : Reader} {j k n prev : ℕ}

theorem atZag_zero (j : ℕ) : atZag (fun _ => 0) j = 0 := by
  rw [atZag]
  cases gZag[j]? <;> rfl

/-- The coefficients determine the block. -/
theorem ext_atZag (h : ∀ j, atZag p j = atZag p' j) : p = p' := by
  funext i
  obtain ⟨j, hj⟩ := List.mem_iff_getElem?.1 (mem_gZag i)
  have heq := h j
  rwa [atZag, atZag, hj] at heq

theorem getElem?_gZag (hk : k < 64) : ∃ i, gZag[k]? = some i :=
  ⟨_, List.getElem?_eq_getElem (show k < gZag.length from hk)⟩

theorem atZag_update {i : Fin 64} (hi : gZag[k]? = some i) (p : Block) (x : BitVec 16) (j : ℕ) :
    atZag (Function.update p i x) j = if j = k then x else atZag p j := by
  rw [atZag]
  cases hj : gZag[j]? with
  | none =>
    have hne : j ≠ k := fun heq => by rw [heq, hi] at hj; cases hj
    rw [if_neg hne, atZag, hj]
    rfl
  | some i' =>
    by_cases heq : j = k
    · rw [heq, hi] at hj
      rw [if_pos heq, ← Option.some.inj hj]
      exact Function.update_self ..
    · have hne : i' ≠ i := fun hii => heq
        ((List.getElem?_inj (List.getElem?_eq_some_iff.1 hj).1 nodup_gZag).1
          (hj.trans (hii ▸ hi.symm)))
      rw [if_neg heq, atZag, hj]
      exact Function.update_of_ne hne ..

/-- What is asserted of the coefficient of number `k`. -/
theorem assertZag_eq (hk : k < 64) (h : atZag p k = 0) : assertZag p k = .ok () := by
  obtain ⟨i, hi⟩ := getElem?_gZag hk
  rw [atZag, hi] at h
  rw [assertZag, hi, inArray_bind]
  exact jpgdAssert_of h

theorem writeZag_eq (hk : k < 64) (p : Block) (x : BitVec 16) :
    ∃ p', writeZag p k x = .ok p' ∧ ∀ j, atZag p' j = if j = k then x else atZag p j := by
  obtain ⟨i, hi⟩ := getElem?_gZag hk
  refine ⟨Function.update p i x, ?_, atZag_update hi p x⟩
  rw [writeZag, hi]
  rfl

theorem clearZag_eq (h : k + n ≤ 64) (p : Block) :
    ∃ p', clearZag n k p = .ok p' ∧
      ∀ j, atZag p' j = if k ≤ j ∧ j < k + n then 0 else atZag p j := by
  induction n generalizing k p with
  | zero => exact ⟨p, rfl, fun j => (if_neg (by omega)).symm⟩
  | succ n ih =>
    obtain ⟨p₁, hp₁, h₁⟩ := writeZag_eq (show k < 64 by omega) p 0
    obtain ⟨p₂, hp₂, h₂⟩ := ih (show k + 1 + n ≤ 64 by omega) p₁
    refine ⟨p₂, ?_, fun j => ?_⟩
    · rw [clearZag, hp₁]
      exact hp₂
    · rw [h₂, h₁]
      split_ifs <;> first | rfl | omega

/-! ## The coefficients of the block before -/

/-- Two results agree: both are errors, and the same, or they are values that are related. -/
inductive Agree {α β : Type} (R : α → β → Prop) : Except Stop α → Except Stop β → Prop
  | error (e : Stop) : Agree R (.error e) (.error e)
  | ok {a : α} {b : β} (h : R a b) : Agree R (.ok a) (.ok b)

theorem Agree.bind {α β α' β' : Type} {R : α → β → Prop} {R' : α' → β' → Prop}
    {a : Except Stop α} {b : Except Stop β} {f : α → Except Stop α'} {g : β → Except Stop β'}
    (h : Agree R a b) (hfg : ∀ x y, R x y → Agree R' (f x) (g y)) :
    Agree R' (a >>= f) (b >>= g) := by
  cases h with
  | error e => exact .error e
  | ok h => exact hfg _ _ h

theorem Agree.refl {α : Type} (a : Except Stop α) : Agree Eq a a := by
  cases a with
  | error e => exact .error e
  | ok a => exact .ok rfl

theorem Agree.eq {α : Type} {a b : Except Stop α} (h : Agree Eq a b) : a = b := by
  cases h with
  | error e => rfl
  | ok h => exact congrArg _ h

/-- A block that is decoded over another one, and over zeros: they are the same before `k`, and what
    is left of the block before is not decoded yet. -/
structure Stale (prev k : ℕ) (p p₀ : Block) : Prop where
  le : k ≤ 64
  before : ∀ j < k, atZag p j = atZag p₀ j
  zero : ∀ j, k ≤ j → atZag p₀ j = 0
  after : ∀ j, k ≤ j → prev ≤ j → atZag p j = 0

/-- They are the same where the block before has been cleared, too. -/
theorem Stale.agree (h : Stale prev k p p₀) (hj : j < k ∨ prev ≤ j) : atZag p j = atZag p₀ j := by
  by_cases hjk : j < k
  · exact h.before j hjk
  · rw [h.zero j (by omega), h.after j (by omega) (by omega)]

theorem Stale.write (h : Stale prev k p p₀) (hk : k < 64) (x : BitVec 16) :
    Agree (Stale prev (k + 1)) (writeZag p k x) (writeZag p₀ k x) := by
  obtain ⟨p', hp', hat⟩ := writeZag_eq hk p x
  obtain ⟨p₀', hp₀', hat₀⟩ := writeZag_eq hk p₀ x
  rw [hp', hp₀']
  refine .ok ⟨hk, ?_, ?_, ?_⟩
  · intro j hj
    rw [hat, hat₀]
    split_ifs with heq
    · rfl
    · exact h.before j (by omega)
  · intro j hj
    rw [hat₀, if_neg (by omega)]
    exact h.zero j (by omega)
  · intro j hj hprev
    rw [hat, if_neg (by omega)]
    exact h.after j (by omega) hprev

/-- Clearing what is skipped keeps it so, where nothing is to be cleared among zeros. -/
theorem Stale.clearRun (h : Stale prev k p p₀) (hn : k + n ≤ 64) :
    Agree (fun p p₀ => Stale prev (k + n) p p₀ ∧ ∀ j, k ≤ j → j < k + n → atZag p j = 0)
      (clearRun prev n k p) (clearRun 0 n k p₀) := by
  rw [Jpgd.clearRun, Jpgd.clearRun, if_neg (Nat.not_lt_zero k)]
  have hclear : ∃ p', (if k < prev then clearZag (min n (prev - k)) k p else .ok p) = .ok p' ∧
      ∀ j, atZag p' j = if k ≤ j ∧ j < min (k + n) prev then 0 else atZag p j := by
    by_cases hk : k < prev
    · obtain ⟨p', hp', hat⟩ := clearZag_eq (show k + min n (prev - k) ≤ 64 by omega) p
      refine ⟨p', by rw [if_pos hk, hp'], fun j => ?_⟩
      rw [hat]
      exact if_congr (by omega) rfl rfl
    · exact ⟨p, if_neg hk, fun j => (if_neg (by omega)).symm⟩
  obtain ⟨p', hp', hat⟩ := hclear
  have hsame : ∀ j < k + n, atZag p' j = atZag p₀ j := by
    intro j hj
    rw [hat]
    split_ifs with hmid
    · exact (h.zero j hmid.1).symm
    · exact h.agree (by omega)
  rw [hp']
  refine .ok ⟨⟨hn, hsame, ?_, ?_⟩, ?_⟩
  · intro j hj
    exact h.zero j (by omega)
  · intro j hj hprev
    rw [hat, if_neg (by omega)]
    exact h.after j (by omega) hprev
  · intro j hkj hj
    rw [hsame j hj, h.zero j hkj]

theorem Stale.skipRun (h : Stale prev k p p₀) (hk : k < 64) (r : ℕ) :
    Agree (fun a b => a.1 = b.1 ∧ a.1 < 64 ∧ Stale prev a.1 a.2 b.2)
      (skipRun prev r k p) (skipRun 0 r k p₀) := by
  rw [Jpgd.skipRun, Jpgd.skipRun]
  by_cases hr : r ≠ 0
  · rw [if_pos hr, if_pos hr]
    by_cases hmax : k + r > 63
    · rw [if_pos hmax, if_pos hmax]
      exact .error _
    · rw [if_neg hmax, if_neg hmax]
      exact (h.clearRun (show k + r ≤ 64 by omega)).bind fun p p₀ h =>
        .ok ⟨rfl, by dsimp only; omega, h.1⟩
  · rw [if_neg hr, if_neg hr]
    exact .ok ⟨rfl, hk, h⟩

/-- A symbol does the same over zeros. -/
theorem acRound_stale (comp : Component) (h : Stale prev k p p₀) (hk : k < 64)
    (symbol extraBits : ℕ) :
    Agree (fun a b => a.1 = b.1 ∧ a.2.1 = b.2.1 ∧ Stale prev a.2.1 a.2.2 b.2.2)
      (acRound comp prev k p symbol extraBits) (acRound comp 0 k p₀ symbol extraBits) := by
  rw [acRound, acRound]
  dsimp only
  by_cases hsize : symbol &&& 15 ≠ 0
  · rw [if_pos hsize, if_pos hsize]
    refine (h.skipRun hk _).bind ?_
    rintro ⟨k, p⟩ ⟨k', p₀⟩ ⟨rfl, hk, h⟩
    refine (Agree.refl _).bind ?_
    rintro _ _ -
    refine (Agree.refl _).bind ?_
    rintro q _ rfl
    refine (Agree.refl _).bind ?_
    rintro c _ rfl
    exact (h.write hk _).bind fun p p₀ h => .ok ⟨rfl, rfl, h⟩
  · rw [if_neg hsize, if_neg hsize]
    by_cases hrun : symbol >>> 4 = 15
    · rw [if_pos hrun, if_pos hrun]
      by_cases hmax : k + 16 > 64
      · rw [if_pos hmax, if_pos hmax]
        exact .error _
      · rw [if_neg hmax, if_neg hmax]
        refine (h.clearRun (Nat.le_of_not_lt hmax)).bind ?_
        rintro p p₀ ⟨h, hzero⟩
        -- What has been skipped is zero in both, so that both assertions hold.
        rw [assertZag_eq (by omega) (hzero (k + 15) (by omega) (by omega)),
          assertZag_eq (by omega) ((h.before (k + 15) (by omega)).symm.trans
            (hzero (k + 15) (by omega) (by omega)))]
        exact .ok ⟨rfl, rfl, h⟩
    · rw [if_neg hrun, if_neg hrun]
      exact .ok ⟨rfl, rfl, h⟩

/-- The loop does the same over zeros. -/
theorem acLoop_stale (comp : Component) (rounds : ℕ) (h : Stale prev k p p₀) (s : Reader) :
    Agree (fun a b => a.1.1 = b.1.1 ∧ a.2 = b.2 ∧ Stale prev a.1.1 a.1.2 b.1.2)
      (acLoop comp prev rounds k p s) (acLoop comp 0 rounds k p₀ s) := by
  induction rounds generalizing k p p₀ s with
  | zero => exact .ok ⟨rfl, rfl, h⟩
  | succ rounds ih =>
    rw [acLoop, acLoop]
    by_cases hk : k < 64
    · rw [if_pos hk, if_pos hk]
      refine Agree.bind (Agree.refl _) ?_
      rintro ⟨⟨symbol, extraBits⟩, s⟩ _ rfl
      refine Agree.bind (acRound_stale comp h hk symbol extraBits) ?_
      rintro ⟨more, k, p⟩ ⟨more', k', p₀⟩ ⟨rfl, rfl, h⟩
      cases more with
      | false => exact .ok ⟨rfl, rfl, h⟩
      | true => exact ih h s
    · rw [if_neg hk, if_neg hk]
      exact .ok ⟨rfl, rfl, h⟩

/-- Over zeros, nothing is left to clear after the loop. -/
theorem Stale.clearRest (h : Stale prev k p p₀) (hprev : prev ≤ 64) :
    clearRest prev k p = .ok p₀ := by
  rw [Jpgd.clearRest]
  by_cases hk : k < prev
  · obtain ⟨p', hp', hat⟩ := clearZag_eq (show k + (prev - k) ≤ 64 by omega) p
    rw [if_pos hk, hp']
    refine congrArg _ (ext_atZag fun j => ?_)
    rw [hat]
    split_ifs with hmid
    · exact (h.zero j hmid.1).symm
    · exact h.agree (by omega)
  · rw [if_neg hk]
    exact congrArg _ (ext_atZag fun j => h.agree (by omega))

/-- What is decoded does not depend on the block before, as long as its coefficients are not set
    from `prev` on. -/
theorem decodeBlock_stale (comp : Component) (lastDcVal : BitVec 32) (hprev : prev ≤ 64)
    (h : ∀ j, prev ≤ j → atZag p j = 0) (s : Reader) :
    decodeBlock comp lastDcVal p prev s = decodeBlock comp lastDcVal (fun _ => 0) 0 s := by
  have hfirst : gZag[0]? = some 0 := rfl
  refine Agree.eq ?_
  rw [decodeBlock, decodeBlock]
  refine (Agree.refl _).bind ?_
  rintro ⟨⟨size, extraBits⟩, s⟩ _ rfl
  refine (Agree.refl _).bind ?_
  rintro c _ rfl
  dsimp only
  refine (acLoop_stale comp 63 ⟨by decide, ?_, ?_, ?_⟩ s).bind ?_
  · intro j hj
    obtain rfl : j = 0 := by omega
    rw [atZag_update hfirst, atZag_update hfirst, if_pos rfl, if_pos rfl]
  · intro j hj
    rw [atZag_update hfirst, if_neg (by omega), atZag_zero]
  · intro j hj hle
    rw [atZag_update hfirst, if_neg (by omega)]
    exact h j hle
  · rintro ⟨⟨k, p⟩, s⟩ ⟨⟨k', p₀⟩, s'⟩ ⟨rfl, rfl, h⟩
    dsimp only at h ⊢
    rw [h.clearRest hprev, clearRest, if_neg (Nat.not_lt_zero k)]
    exact .ok rfl

/-! ## Any bits -/

/-- The result is a value with some property, or the decoding is stopped in some way. -/
inductive Safe {α : Type} (E : Stop → Prop) (Q : α → Prop) : Except Stop α → Prop
  | stopped {e : Stop} (h : E e) : Safe E Q (.error e)
  | ok {a : α} (h : Q a) : Safe E Q (.ok a)

variable {E E' : Stop → Prop}

theorem Safe.bind {α β : Type} {Q : α → Prop} {Q' : β → Prop} {a : Except Stop α}
    {f : α → Except Stop β} (h : Safe E Q a) (hf : ∀ x, Q x → Safe E Q' (f x)) :
    Safe E Q' (a >>= f) := by
  cases h with
  | stopped h => exact .stopped h
  | ok h => exact hf _ h

/-- More ways to be stopped are allowed. -/
theorem Safe.mono {α : Type} {Q : α → Prop} {a : Except Stop α} (h : Safe E Q a)
    (hE : ∀ e, E e → E' e) : Safe E' Q a := by
  cases h with
  | stopped h => exact .stopped (hE _ h)
  | ok h => exact .ok h

/-- A value that is safe has the property. -/
theorem Safe.of_ok {α : Type} {Q : α → Prop} {a : α} (h : Safe E Q (.ok a)) : Q a := by
  cases h with
  | ok h => exact h

/-- So is what stops it. -/
theorem Safe.of_error {α : Type} {Q : α → Prop} {e : Stop} (h : Safe E Q (.error e)) : E e := by
  cases h with
  | stopped h => exact h

/-- The codes that the tables of a component are made of, for which there is room. -/
structure Component.Codes (comp : Component) where
  dcData : HuffData
  acData : HuffData
  dcFits : dcData.Fits
  acFits : acData.Fits
  dcTab : makeHuffTable dcData = some comp.dcTab
  acTab : makeHuffTable acData = some comp.acTab

/-- The assertion of `huff_decode` holds whatever the bits are. -/
def Component.Codes.Covers (codes : comp.Codes) : Prop :=
  codes.dcData.Covers ∧ codes.acData.Covers

/-- What may stop the decoding of a block. -/
inductive BlockStop (codes : comp.Codes) : Stop → Prop
  | decodeError : BlockStop codes .decodeError
  | aborted (h : ¬codes.Covers) : BlockStop codes .aborted
  | overflow (h : comp.quant 0 ≠ 0 ∧ comp.quant 0 ≠ 1) : BlockStop codes .overflow

theorem huffDecodeExtra_safe {data : HuffData} {tables : HuffTables} {held : List Bool}
    (hfits : data.Fits) (htables : makeHuffTable data = some tables)
    (hE : ¬data.Covers → E .aborted) (hs : s.Holds held) :
    Safe E (fun a => a.1.2 < 2 ^ (a.1.1 &&& 15) ∧ ∃ held, a.2.Holds held)
      (huffDecodeExtra tables s) := by
  rcases huffDecodeExtra_total hfits htables hs with
    ⟨i, extraBits, s', held', hs', -, hextra, hheld⟩ | ⟨hs', hcovers⟩
  · rw [hs']
    exact .ok ⟨hextra, held', hheld⟩
  · rw [hs']
    exact .stopped (hE hcovers)

theorem sExtendTest_eq : ∀ size < 16,
    sExtendTest.getD size 0 = if size = 0 then 0 else 2 ^ (size - 1) := by
  decide

theorem sExtendOffset_eq : ∀ size < 16,
    sExtendOffset.getD size 0 = if size = 0 then 0 else 1 - 2 ^ size := by
  decide

/-- A coefficient has at most 15 bits. -/
theorem natAbs_huffExtend_le {x : ℕ} (size : ℕ) (h : x < 2 ^ (size &&& 15)) :
    (huffExtend x size).natAbs ≤ 2 ^ 15 := by
  have hsize : size &&& 15 < 16 := Nat.and_lt_two_pow size (show 15 < 2 ^ 4 by decide)
  have hpow : 2 ^ (size &&& 15) ≤ 2 ^ 15 := Nat.pow_le_pow_right two_pos (by omega)
  rw [huffExtend, sExtendTest_eq _ hsize, sExtendOffset_eq _ hsize]
  have hcast : (2 : ℤ) ^ (size &&& 15) = ((2 ^ (size &&& 15) : ℕ) : ℤ) := by push_cast; rfl
  rw [hcast]
  split_ifs <;> omega

theorem natAbs_toInt_le (q : BitVec 16) : q.toInt.natAbs ≤ 2 ^ 15 := by
  have hle := BitVec.le_toInt q
  have hlt := BitVec.toInt_lt (x := q)
  omega

/-- A product of numbers of 16 bits does not overflow. -/
theorem mulInt_eq {c : ℤ} (hc : c.natAbs ≤ 2 ^ 15) (q : BitVec 16) :
    mulInt c q.toInt = .ok (c * q.toInt) := by
  have hle : (c * q.toInt).natAbs ≤ 2 ^ 15 * 2 ^ 15 := by
    rw [Int.natAbs_mul]
    exact Nat.mul_le_mul hc (natAbs_toInt_le q)
  exact if_pos (by omega)

/-- The first product overflows only if there is something to multiply. -/
theorem mulInt_safe (codes : comp.Codes) (dc : BitVec 32) :
    Safe (BlockStop codes) (fun _ => True) (mulInt dc.toInt (comp.quant 0).toInt) := by
  rw [mulInt]
  split_ifs with hfits
  · exact .ok trivial
  · have hle := BitVec.le_toInt dc
    have hlt := BitVec.toInt_lt (x := dc)
    refine .stopped (.overflow ⟨fun hzero => hfits ?_, fun hone => hfits ?_⟩)
    · have htoInt : (0 : BitVec 16).toInt = 0 := rfl
      rw [hzero, htoInt, Int.mul_zero]
      decide
    · have htoInt : (1 : BitVec 16).toInt = 1 := rfl
      rw [hone, htoInt, Int.mul_one]
      omega

/-- The coefficients are set before `k` only. -/
structure Below (k : ℕ) (p : Block) : Prop where
  pos : 1 ≤ k
  le : k ≤ 64
  zero : ∀ j, k ≤ j → atZag p j = 0

theorem Below.mono (hp : Below k p) (hk : k ≤ n) (hn : n ≤ 64) : Below n p :=
  ⟨hp.pos.trans hk, hn, fun j hj => hp.zero j (hk.trans hj)⟩

theorem writeZag_safe (hp : Below k p) (hk : k < 64) (x : BitVec 16) :
    Safe E (Below (k + 1)) (writeZag p k x) := by
  obtain ⟨p', hp', hat⟩ := writeZag_eq hk p x
  rw [hp']
  refine .ok ⟨Nat.le_add_left 1 k, hk, fun j hj => ?_⟩
  rw [hat, if_neg (by omega)]
  exact hp.zero j (by omega)

theorem skipRun_safe (codes : comp.Codes) (hp : Below k p) (hk : k < 64) (r : ℕ) :
    Safe (BlockStop codes) (fun a => a.1 < 64 ∧ Below a.1 a.2) (skipRun 0 r k p) := by
  rw [skipRun]
  split_ifs with hr hmax
  · exact .stopped .decodeError
  · exact .ok ⟨by dsimp only; omega, hp.mono (Nat.le_add_right k r) (by dsimp only; omega)⟩
  · exact .ok ⟨hk, hp⟩

/-- The assertions hold, and the product does not overflow. -/
theorem acRound_safe (codes : comp.Codes) (hp : Below k p) (hk : k < 64) (symbol extraBits : ℕ)
    (hextra : extraBits < 2 ^ (symbol &&& 15)) :
    Safe (BlockStop codes) (fun a => Below a.2.1 a.2.2)
      (acRound comp 0 k p symbol extraBits) := by
  rw [acRound]
  dsimp only
  by_cases hsize : symbol &&& 15 ≠ 0
  · rw [if_pos hsize]
    refine (skipRun_safe codes hp hk _).bind ?_
    rintro ⟨k, p⟩ ⟨hk, hp⟩
    have hmod : symbol &&& 15 &&& 15 = symbol &&& 15 := by rw [Nat.and_assoc, Nat.and_self]
    have hcoeff := natAbs_huffExtend_le (symbol &&& 15) (hmod.symm ▸ hextra)
    dsimp only at hk hp ⊢
    rw [jpgdAssert_of hk, readAt_eq hk, inArray_bind, mulInt_eq hcoeff]
    exact (writeZag_safe hp hk _).bind fun p hp => .ok hp
  · rw [if_neg hsize]
    split_ifs with hrun hmax
    · exact .stopped .decodeError
    · have hcleared : clearRun 0 16 k p = .ok p := if_neg (Nat.not_lt_zero k)
      rw [hcleared]
      dsimp only [bind, Except.bind]
      rw [assertZag_eq (by omega) (hp.zero (k + 15) (Nat.le_add_right k 15))]
      exact .ok (hp.mono (Nat.le_add_right k 16) (Nat.le_of_not_lt hmax))
    · exact .ok hp

theorem acLoop_safe (codes : comp.Codes) (rounds : ℕ) {held : List Bool} (hs : s.Holds held)
    (hp : Below k p) :
    Safe (BlockStop codes) (fun a => Below a.1.1 a.1.2 ∧ ∃ held, a.2.Holds held)
      (acLoop comp 0 rounds k p s) := by
  induction rounds generalizing k p s held with
  | zero => exact .ok ⟨hp, held, hs⟩
  | succ rounds ih =>
    rw [acLoop]
    by_cases hk : k < 64
    · rw [if_pos hk]
      refine (huffDecodeExtra_safe codes.acFits codes.acTab
        (fun h => .aborted fun hcovers => h hcovers.2) hs).bind ?_
      rintro ⟨⟨symbol, extraBits⟩, s⟩ ⟨hextra, held, hs⟩
      refine (acRound_safe codes hp hk symbol extraBits hextra).bind ?_
      rintro ⟨more, k, p⟩ hp
      cases more with
      | false => exact .ok ⟨hp, held, hs⟩
      | true => exact ih hs hp
    · rw [if_neg hk]
      exact .ok ⟨hp, held, hs⟩

/-- A block is decoded inside of the arrays, whatever the bits are, and its coefficients are set
    before the number that is given for the next time. -/
theorem decodeBlock_safe (codes : comp.Codes) (lastDcVal : BitVec 32) {held : List Bool}
    (hs : s.Holds held) (hp : Below prev p) :
    Safe (BlockStop codes) (fun a => Below a.1.2.1 a.1.1 ∧ ∃ held, a.2.Holds held)
      (decodeBlock comp lastDcVal p prev s) := by
  have hfirst : gZag[0]? = some 0 := rfl
  rw [decodeBlock_stale comp lastDcVal hp.le hp.zero, decodeBlock]
  refine (huffDecodeExtra_safe codes.dcFits codes.dcTab
    (fun h => .aborted fun hcovers => h hcovers.1) hs).bind ?_
  rintro ⟨⟨size, extraBits⟩, s⟩ ⟨-, held, hs⟩
  refine (mulInt_safe codes _).bind ?_
  rintro c -
  dsimp only
  refine (acLoop_safe codes 63 hs ⟨Nat.le_refl 1, by decide, fun j hj => ?_⟩).bind ?_
  · rw [atZag_update hfirst, if_neg (by omega), atZag_zero]
  · rintro ⟨⟨k, p⟩, s⟩ ⟨hp, hheld⟩
    dsimp only at hp hheld ⊢
    rw [clearRest, if_neg (Nat.not_lt_zero k)]
    exact .ok ⟨hp, hheld⟩

end Gaze.Jpgd
