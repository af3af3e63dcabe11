import Gaze.Jpgd.Codes
import Mathlib.Data.Nat.Bitwise
import Mathlib.Data.Set.Card
import Mathlib.Logic.Function.Basic

/-!
# The tables of the Huffman decoder

`make_huff_table` writes a symbol for each string of eight bits that begins with its code
(`lookUp`), with the bits that follow if they are in the string too (`lookUp2`). For the longer
codes there is a tree, whose nodes are pairs of entries of an array of 512, from the first one on.

* `layout`: the tables of a tree.
* `makeHuffTable_eq`: if there is room for the codes, these are the tables of their tree, as long
  as it has at most 256 nodes; else the function writes outside of the array.
-/

namespace Gaze.Jpgd

open PrefixCodes

/-! ## The code of `make_huff_table` -/

/-- The `huff_tables`. -/
structure HuffTables where
  lookUp : Fin 256 → ℤ
  lookUp2 : Fin 256 → ℤ
  codeSize : Fin 256 → ℕ
  tree : Fin 512 → ℤ

variable {n : ℕ} {β : Type}

/-- `array[i]`: nothing is promised outside of the array. -/
def readAt (array : Fin n → β) (i : ℤ) : Option β :=
  if h : 0 ≤ i ∧ i < n then some (array ⟨i.toNat, by omega⟩) else none

/-- `array[i] = x`. -/
def writeAt (array : Fin n → β) (i : ℤ) (x : β) : Option (Fin n → β) :=
  if h : 0 ≤ i ∧ i < n then some (Function.update array ⟨i.toNat, by omega⟩ x) else none

/-- The entry of `look_up2` for a code of `codeSize` bits at `code`: the symbol, the number of bits
    to fetch, and the extra bits, where the eight bits of `code` have them all. -/
def lookUp2Entry (codeSize i code : ℕ) : ℕ :=
  let numExtraBits := i &&& 15
  let totalCodesize := codeSize + numExtraBits
  if numExtraBits ≠ 0 ∧ totalCodesize ≤ 8 then
    let extraBits := ((1 <<< numExtraBits) - 1) &&& (code >>> (8 - totalCodesize))
    i ||| 0x8000 ||| (extraBits <<< 16) ||| (totalCodesize <<< 8)
  else i ||| (codeSize <<< 8)

/-- The loop for a code of at most eight bits, with `l` entries left from `code` on. -/
def fill (codeSize : ℕ) (i : UInt8) : ℕ → ℕ → HuffTables → Option HuffTables
  | 0, _, tables => some tables
  | l + 1, code, tables => do
    let lookUp ← writeAt tables.lookUp code i.toNat
    let lookUp2 ← writeAt tables.lookUp2 code (lookUp2Entry codeSize i.toNat code)
    fill codeSize i l (code + 1) { tables with lookUp, lookUp2 }

/-- The tables, and the first entry of the tree that is free. -/
structure Builder where
  tables : HuffTables
  nextfreeentry : ℤ

/-- The entry of the next bit, which is bit 15 of the code. -/
def branch (code : ℕ) (currententry : ℤ) : ℤ :=
  if code &&& 0x8000 = 0 then currententry - 1 else currententry

/-- The loop for a longer code, with `l` rounds left, and what follows it. (The bits of the code
    that are shifted out to the left are never read.) -/
def descend (i : UInt8) : ℕ → ℕ → ℤ → Builder → Option Builder
  | 0, code, currententry, b => do
    let tree ← writeAt b.tables.tree (-branch code currententry - 1) i.toNat
    return { b with tables := { b.tables with tree } }
  | l + 1, code, currententry, b => do
    let currententry := branch code currententry
    let entry ← readAt b.tables.tree (-currententry - 1)
    if entry = 0 then do
      let tree ← writeAt b.tables.tree (-currententry - 1) b.nextfreeentry
      descend i l (code <<< 1) b.nextfreeentry
        ⟨{ b.tables with tree }, b.nextfreeentry - 2⟩
    else descend i l (code <<< 1) entry b

/-- The branch for a longer code. -/
def addLong (codeSize : ℕ) (i : UInt8) (code : ℕ) (b : Builder) : Option Builder := do
  let subtree := (code >>> (codeSize - 8)) &&& 0xFF
  let currententry ← readAt b.tables.lookUp subtree
  let code := code <<< (16 - (codeSize - 8))
  if currententry = 0 then do
    let lookUp ← writeAt b.tables.lookUp subtree b.nextfreeentry
    let lookUp2 ← writeAt b.tables.lookUp2 subtree b.nextfreeentry
    descend i (codeSize - 9) code b.nextfreeentry
      ⟨{ b.tables with lookUp, lookUp2 }, b.nextfreeentry - 2⟩
  else descend i (codeSize - 9) code currententry b

/-- A round of the loop over the codes. -/
def addCode (b : Builder) : (ℕ × ℕ) × UInt8 → Option Builder
  | ((code, codeSize), i) => do
    let tables := { b.tables with codeSize := Function.update b.tables.codeSize i.toFin codeSize }
    if codeSize ≤ 8 then do
      let tables ← fill codeSize i (1 <<< (8 - codeSize)) (code <<< (8 - codeSize)) tables
      return { b with tables }
    else addLong codeSize i code { b with tables }

/-- `make_huff_table`. -/
def makeHuffTable (data : HuffData) : Option HuffTables := do
  let b ← data.entries.foldlM addCode
    ⟨⟨fun _ => 0, fun _ => 0, fun _ => 0, fun _ => 0⟩, -1⟩
  return b.tables

/-! ## The tables of a tree -/

/-- The value of an entry, in `look_up` or in the tree. -/
def value : Entry UInt8 → ℤ
  | .free => 0
  | .node k => -(2 * k + 1)
  | .leaf c => c.2.toNat

/-- The value of the entry of `code` in `look_up2`. -/
def value2 (code : ℕ) : Entry UInt8 → ℤ
  | .free => 0
  | .node k => -(2 * k + 1)
  | .leaf c => lookUp2Entry c.1.length c.2.toNat code

/-- The size of the last code of each symbol. -/
def codeSizes (codes : List (Word × UInt8)) : Fin 256 → ℕ :=
  codes.foldl (fun sizes c => Function.update sizes c.2.toFin c.1.length) fun _ => 0

/-- The tables of a tree. -/
def layout (nodes : List Word) (codes : List (Word × UInt8)) (codeSize : Fin 256 → ℕ) :
    HuffTables where
  lookUp j := value (entry nodes codes (Bits.ofNat 8 j))
  lookUp2 j := value2 j (entry nodes codes (Bits.ofNat 8 j))
  codeSize := codeSize
  tree j := value (entryAt nodes codes j)

/-- The tables of a tree, with the first entry after those of its nodes. -/
def builder (nodes : List Word) (codes : List (Word × UInt8)) (codeSize : Fin 256 → ℕ) :
    Builder :=
  ⟨layout nodes codes codeSize, -(2 * nodes.length + 1)⟩

variable {array : Fin n → β} {x : β} {i : UInt8} {j k l m code size : ℕ}
  {codes : List (Word × UInt8)} {nodes : List Word} {c : Word × UInt8} {q u w : Word}
  {sizes : Fin 256 → ℕ} {tables : HuffTables}

/-! ## The arrays -/

theorem readAt_eq (h : j < n) : readAt array j = some (array ⟨j, h⟩) :=
  dif_pos ⟨Int.natCast_nonneg j, Int.ofNat_lt.2 h⟩

theorem writeAt_eq (h : j < n) : writeAt array j x = some (Function.update array ⟨j, h⟩ x) :=
  dif_pos ⟨Int.natCast_nonneg j, Int.ofNat_lt.2 h⟩

theorem readAt_eq_none (h : n ≤ j) : readAt array j = none :=
  dif_neg fun hlt => absurd (Int.ofNat_lt.1 hlt.2) (Nat.not_lt_of_le h)

theorem writeAt_eq_none (h : n ≤ j) : writeAt array j x = none :=
  dif_neg fun hlt => absurd (Int.ofNat_lt.1 hlt.2) (Nat.not_lt_of_le h)

/-- The entry of the next bit is in the array. -/
theorem branch_eq (code k : ℕ) :
    -branch code (-(2 * k + 1)) - 1 = (slot k (code.testBit 15) : ℕ) := by
  have hbit : code &&& 0x8000 = 0 ↔ code.testBit 15 = false := by
    rw [show (0x8000 : ℕ) = 2 ^ 15 from rfl, Nat.and_two_pow]
    cases code.testBit 15 <;> simp
  rw [branch, slot]
  cases h : code.testBit 15 with
  | false =>
    rw [if_pos (hbit.2 h)]
    simp
  | true =>
    rw [if_neg (by simp [hbit, h])]
    simp

/-! ## The short codes -/

/-- The first of the entries is written before the others. -/
theorem update_before (f : Fin 256 → ℤ) (g : ℕ → ℤ) (hlt : code < 256) (l : ℕ) :
    (fun j : Fin 256 => if code + 1 ≤ j.val ∧ j.val < code + 1 + l then g j
      else Function.update f ⟨code, hlt⟩ (g code) j) =
    fun j : Fin 256 => if code ≤ j.val ∧ j.val < code + (l + 1) then g j else f j := by
  funext j
  rw [Function.update_apply]
  by_cases hj : j = ⟨code, hlt⟩
  · have hval : j.val = code := congrArg Fin.val hj
    rw [if_neg (by omega), if_pos hj, if_pos (by omega), hval]
  · have hval : j.val ≠ code := fun h => hj (Fin.ext h)
    rw [if_neg hj]
    exact if_congr (by omega) rfl rfl

/-- The loop writes `l` entries. -/
theorem fill_eq (size : ℕ) (i : UInt8) (h : code + l ≤ 256) (tables : HuffTables) :
    fill size i l code tables = some { tables with
      lookUp := fun j => if code ≤ j.val ∧ j.val < code + l then i.toNat else tables.lookUp j
      lookUp2 := fun j =>
        if code ≤ j.val ∧ j.val < code + l then lookUp2Entry size i.toNat j else tables.lookUp2 j }
      := by
  induction l generalizing code tables with
  | zero =>
    have hnone : ∀ j : ℕ, ¬ (code ≤ j ∧ j < code + 0) := fun j => by omega
    simp only [fill, if_neg (hnone _)]
  | succ l ih =>
    have hlt : code < 256 := by omega
    rw [fill, writeAt_eq hlt, writeAt_eq hlt]
    simp only [Option.bind_eq_bind, Option.bind_some]
    rw [ih (by omega), ← update_before tables.lookUp (fun _ => i.toNat) hlt l,
      ← update_before tables.lookUp2 (fun j => lookUp2Entry size i.toNat j) hlt l]

/-- The strings of eight bits that begin with a code are the numbers of these entries. -/
theorem isPrefix_ofNat_iff (hsize : size ≤ 8) (hcode : code < 2 ^ size) (j : Fin 256) :
    Bits.ofNat size code <+: Bits.ofNat 8 j ↔
      code <<< (8 - size) ≤ j.val ∧ j.val < code <<< (8 - size) + 1 <<< (8 - size) := by
  rw [Bits.isPrefix_iff, Bits.length_ofNat, Bits.length_ofNat, Bits.toNat_ofNat_of_lt hcode,
    Bits.toNat_ofNat_of_lt j.isLt, Nat.shiftLeft_eq, Nat.shiftLeft_eq, Nat.one_mul, ← Nat.succ_mul,
    Nat.div_eq_iff (Nat.two_pow_pos _), and_iff_right hsize, Nat.succ_mul]
  have hpos := Nat.two_pow_pos (8 - size)
  omega

/-- A new code is at the strings that begin with it. -/
theorem entry_concat_eq (h : Nodes 8 codes c.1 m nodes) (hm : m ≤ max 8 c.1.length)
    (hfree : PrefixFree (codes ++ [c])) (u : Word) :
    entry nodes (codes ++ [c]) u = if c.1 <+: u then .leaf c else entry nodes codes u := by
  by_cases hu : c.1 <+: u
  · rw [if_pos hu]
    exact entry_concat_code_self hfree (h.not_mem_of_isPrefix hm hfree hu) hu
  · rw [if_neg hu]
    exact entry_concat_code hu nodes codes

theorem addCode_short (h : Nodes 8 codes w 8 nodes) (hsize : size ≤ 8) (hcode : code < 2 ^ size)
    (hfree : PrefixFree (codes ++ [(Bits.ofNat size code, i)])) :
    addCode (builder nodes codes sizes) ((code, size), i) =
      some (builder nodes (codes ++ [(Bits.ofNat size code, i)])
        (Function.update sizes i.toFin size)) := by
  have hend : code <<< (8 - size) + 1 <<< (8 - size) ≤ 256 := by
    have hpow : 256 = 2 ^ size * 2 ^ (8 - size) := by
      rw [← Nat.pow_add, Nat.add_sub_cancel' hsize]
    rw [Nat.shiftLeft_eq, Nat.shiftLeft_eq, ← Nat.add_mul, hpow]
    exact Nat.mul_le_mul_right _ hcode
  have hentry := entry_concat_eq (h.toward _) (Nat.le_max_left 8 _) hfree
  have htree : ∀ j,
      entryAt nodes (codes ++ [(Bits.ofNat size code, i)]) j = entryAt nodes codes j := by
    intro j
    rw [(h.toward _).entryAt_concat_code (Nat.le_max_left 8 _) hfree, if_neg]
    intro hj
    have hlt := h.length_of_wordAt hj
    rw [Bits.length_ofNat] at hlt
    exact absurd hsize (Nat.not_le_of_lt hlt)
  rw [addCode, if_pos hsize, fill_eq size i hend]
  simp only [Option.bind_eq_bind, Option.bind_some, builder, layout, htree, hentry,
    isPrefix_ofNat_iff hsize hcode]
  congr 3 <;> funext j
  · rw [apply_ite value]
    rfl
  · rw [apply_ite (value2 j), value2, Bits.length_ofNat]

/-! ## The long codes -/

/-- A node of eight bits is found at once. -/
theorem layout_concat_root (h : Nodes 8 codes w 8 nodes) (hw : 8 < w.length)
    (hq : w.take 8 ∉ nodes) (hnew : ∀ c ∈ codes, ¬ c.1 <+: w) (sizes : Fin 256 → ℕ) {j : Fin 256}
    (hj : Bits.ofNat 8 j = w.take 8) :
    layout (nodes ++ [w.take 8]) codes sizes = { layout nodes codes sizes with
      lookUp := Function.update (layout nodes codes sizes).lookUp j (-(2 * nodes.length + 1))
      lookUp2 := Function.update (layout nodes codes sizes).lookUp2 j (-(2 * nodes.length + 1)) }
      := by
  have hentry : ∀ x : Fin 256, entry (nodes ++ [w.take 8]) codes (Bits.ofNat 8 x) =
      if x = j then .node nodes.length else entry nodes codes (Bits.ofNat 8 x) := by
    intro x
    by_cases hx : x = j
    · rw [if_pos hx, hx, hj]
      exact entry_concat_node_self hq codes
    · rw [if_neg hx]
      refine entry_concat_node (fun heq => hx ?_) nodes codes
      exact Fin.ext (Bits.ofNat_inj x.isLt j.isLt (heq.trans hj.symm))
  have htree : ∀ x, entryAt (nodes ++ [w.take 8]) codes x = entryAt nodes codes x := by
    intro x
    rw [h.entryAt_concat_node (Nat.le_refl 8) hw hq hnew, if_neg]
    intro hx
    have hlt := h.length_of_wordAt hx
    rw [List.length_take_of_le hw.le] at hlt
    exact absurd hlt (Nat.lt_irrefl 8)
  simp only [layout, hentry, htree]
  congr 1 <;> funext x
  · rw [Function.update_apply, apply_ite value]
    rfl
  · rw [Function.update_apply, apply_ite (value2 x)]
    rfl

/-- A longer node is found in the tree. -/
theorem layout_concat_inner (h : Nodes 8 codes w m nodes) (hm : 8 < m) (hw : m < w.length)
    (hq : w.take m ∉ nodes) (hnew : ∀ c ∈ codes, ¬ c.1 <+: w) (sizes : Fin 256 → ℕ) {j : Fin 512}
    (hj : wordAt nodes j = some (w.take m)) :
    layout (nodes ++ [w.take m]) codes sizes = { layout nodes codes sizes with
      tree := Function.update (layout nodes codes sizes).tree j (-(2 * nodes.length + 1)) } := by
  have hentry : ∀ x : Fin 256, entry (nodes ++ [w.take m]) codes (Bits.ofNat 8 x) =
      entry nodes codes (Bits.ofNat 8 x) := by
    refine fun x => entry_concat_node (fun heq => ?_) nodes codes
    have hlength := congrArg List.length heq
    rw [Bits.length_ofNat, List.length_take_of_le hw.le] at hlength
    exact absurd hlength hm.ne
  simp only [layout, hentry]
  congr 1
  funext x
  have hx : wordAt nodes x = some (w.take m) ↔ x = j :=
    ⟨fun hx => Fin.ext (wordAt_inj h.nodup hx hj), fun hx => hx ▸ hj⟩
  rw [h.entryAt_concat_node hm.le hw hq hnew, if_congr hx rfl rfl, Function.update_apply,
    apply_ite value]
  rfl

/-- The symbol of a long code is found in the tree. -/
theorem layout_concat_leaf (h : Nodes 8 codes c.1 c.1.length nodes) (hc : 8 < c.1.length)
    (hfree : PrefixFree (codes ++ [c])) (sizes : Fin 256 → ℕ) {j : Fin 512}
    (hj : wordAt nodes j = some c.1) :
    layout nodes (codes ++ [c]) sizes = { layout nodes codes sizes with
      tree := Function.update (layout nodes codes sizes).tree j c.2.toNat } := by
  have hentry : ∀ x : Fin 256, entry nodes (codes ++ [c]) (Bits.ofNat 8 x) =
      entry nodes codes (Bits.ofNat 8 x) := by
    refine fun x => entry_concat_code (fun hstarts => ?_) nodes codes
    have hle := hstarts.length_le
    rw [Bits.length_ofNat] at hle
    exact absurd hc (Nat.not_lt_of_le hle)
  simp only [layout, hentry]
  congr 1
  funext x
  have hx : wordAt nodes x = some c.1 ↔ x = j :=
    ⟨fun hx => Fin.ext (wordAt_inj h.nodup hx hj), fun hx => hx ▸ hj⟩
  rw [h.entryAt_concat_code (Nat.le_max_right _ _) hfree, if_congr hx rfl rfl,
    Function.update_apply, apply_ite value]
  rfl

/-- The next bit of the code. -/
theorem drop_of_bits (hbits : (Bits.ofNat 16 code).take (l + 1) = w.drop m) :
    w.drop m = code.testBit 15 :: w.drop (m + 1) ∧
      w.take (m + 1) = w.take m ++ [code.testBit 15] ∧
      (l ≤ 15 → (Bits.ofNat 16 (code <<< 1)).take l = w.drop (m + 1)) := by
  rw [Bits.ofNat, List.take_succ_cons] at hbits
  have hrest : (Bits.ofNat 15 code).take l = w.drop (m + 1) := by
    rw [← List.tail_drop, ← hbits, List.tail_cons]
  refine ⟨?_, ?_, fun hl => ?_⟩
  · rw [← hbits, hrest]
  · rw [List.take_add, ← hbits, List.take_succ_cons, List.take_zero]
  · rw [Nat.shiftLeft_eq, Bits.ofNat_mul 15 1, List.take_append_of_le_length, hrest]
    rw [Bits.length_ofNat]
    exact hl

theorem nextfree_concat (nodes : List Word) (q : Word) :
    (-(2 * (nodes ++ [q]).length + 1) : ℤ) = -(2 * nodes.length + 1) - 2 := by
  rw [List.length_append, List.length_singleton]
  push_cast
  ring

theorem slot_lt (h : k < 256) (b : Bool) : slot k b < 512 := by
  have hbit := b.not.toNat_lt
  rw [slot]
  omega

theorem le_slot (h : ¬ k < 256) (b : Bool) : 512 ≤ slot k b := by
  rw [slot]
  omega

/-- The loop enlists the nodes on the way to a new code, and writes its symbol. It may be at a node
    that is not in the array any more: then it is the last one. -/
theorem descend_eq (sizes : Fin 256 → ℕ) (hfree : PrefixFree (codes ++ [c]))
    (h : Nodes 8 codes c.1 (m + 1) nodes)
    (hm : 8 ≤ m) (hk : nodes[k]? = some (c.1.take m)) (hl : c.1.length = m + l + 1)
    (hbits : (Bits.ofNat 16 code).take (l + 1) = c.1.drop m)
    (hfull : nodes.length ≤ max 256 (k + 1)) :
    descend c.2 l code (-(2 * k + 1)) (builder nodes codes sizes) =
      if (enlistWay c.1 l (m + 1) nodes).length ≤ 256 then
        some (builder (enlistWay c.1 l (m + 1) nodes) (codes ++ [c]) sizes)
      else none := by
  have hklt : k < nodes.length := (List.getElem?_eq_some_iff.1 hk).1
  induction l generalizing m k code nodes with
  | zero =>
    obtain ⟨-, htake, -⟩ := drop_of_bits hbits
    have hword : c.1 = c.1.take m ++ [code.testBit 15] := by
      rw [← htake, List.take_of_length_le hl.le]
    rw [descend, branch_eq, enlistWay]
    by_cases hlt : k < 256
    · have hslot := slot_lt hlt (code.testBit 15)
      have hj : wordAt nodes (slot k (code.testBit 15)) = some c.1 := by
        rw [wordAt_slot hk, ← hword]
      rw [if_pos (by omega), writeAt_eq hslot]
      simp only [Option.bind_eq_bind, Option.bind_some, builder, pure]
      rw [layout_concat_leaf (hl ▸ h) (by omega) hfree sizes (j := ⟨_, hslot⟩) hj]
    · rw [if_neg (by omega), writeAt_eq_none (le_slot hlt _)]
      rfl
  | succ l ih =>
    obtain ⟨-, htake, hrest⟩ := drop_of_bits hbits
    have hrest := hrest (by
      have hlength := congrArg List.length hbits
      rw [List.length_take, Bits.length_ofNat, List.length_drop] at hlength
      omega)
    have hlength := length_le_length_enlistWay c.1 (l + 1) (m + 1) nodes
    rw [descend, branch_eq]
    by_cases hlt : k < 256
    · have hslot := slot_lt hlt (code.testBit 15)
      have hj : wordAt nodes (slot k (code.testBit 15)) = some (c.1.take (m + 1)) := by
        rw [wordAt_slot hk, ← htake]
      have htree : (builder nodes codes sizes).tables.tree ⟨_, hslot⟩ =
          value (entry nodes codes (c.1.take (m + 1))) := by
        simp only [builder, layout, entryAt, hj]
        rfl
      have hw : m + 1 < c.1.length := by omega
      rw [readAt_eq hslot, htree, enlistWay]
      simp only [Option.bind_eq_bind, Option.bind_some]
      by_cases hmem : c.1.take (m + 1) ∈ nodes
      · -- The node is there.
        obtain ⟨k', hk'⟩ := List.mem_iff_getElem?.1 hmem
        rw [entry_of_getElem? h.nodup hk', value, if_neg (by omega), enlist_of_mem hmem]
        have hnext : Nodes 8 codes c.1 (m + 1 + 1) nodes := by
          have henlist := h.enlist (by omega) hw
          rwa [enlist_of_mem hmem] at henlist
        exact ih hnext (by omega) hk' (by omega) hrest (by omega)
          (List.getElem?_eq_some_iff.1 hk').1
      · -- It is the next one.
        rw [entry_eq_free hmem fun d hd hstarts =>
          (hfree.not_isPrefix hd).1 (hstarts.trans (List.take_prefix _ _)), value, if_pos rfl,
          writeAt_eq hslot, enlist_of_not_mem hmem]
        simp only [Option.bind_some]
        have hnew : ∀ d ∈ codes, ¬ d.1 <+: c.1 := fun d hd => (hfree.not_isPrefix hd).1
        have hbuilder : builder (nodes ++ [c.1.take (m + 1)]) codes sizes =
            ⟨{ layout nodes codes sizes with
                tree := Function.update (layout nodes codes sizes).tree ⟨_, hslot⟩
                  (-(2 * nodes.length + 1)) }, -(2 * nodes.length + 1) - 2⟩ := by
          rw [builder, layout_concat_inner h (by omega) hw hmem hnew sizes (j := ⟨_, hslot⟩) hj,
            nextfree_concat]
        have hnext : Nodes 8 codes c.1 (m + 1 + 1) (nodes ++ [c.1.take (m + 1)]) := by
          have henlist := h.enlist (by omega) hw
          rwa [enlist_of_not_mem hmem] at henlist
        have hlast : (nodes ++ [c.1.take (m + 1)])[nodes.length]? = some (c.1.take (m + 1)) :=
          List.getElem?_concat_length
        have hcount : (nodes ++ [c.1.take (m + 1)]).length = nodes.length + 1 :=
          List.length_append
        have hloop := ih hnext (by omega) hlast (by omega) hrest (by omega) (by omega)
        rw [hbuilder] at hloop
        exact hloop
    · rw [if_neg (by omega), readAt_eq_none (le_slot hlt _)]
      rfl

/-- A long code has its first eight bits in `subtree`, and the others from bit 15 of the code on. -/
theorem subtree_eq (hsize : 8 < size) (hmax : size ≤ 16) (hcode : code < 2 ^ size) :
    code >>> (size - 8) &&& 0xFF < 256 ∧
      Bits.ofNat 8 (code >>> (size - 8) &&& 0xFF) = (Bits.ofNat size code).take 8 ∧
      (Bits.ofNat 16 (code <<< (16 - (size - 8)))).take (size - 9 + 1) =
        (Bits.ofNat size code).drop 8 := by
  obtain ⟨v, rfl⟩ := Nat.exists_eq_add_of_lt hsize
  have hmask : code >>> (8 + v + 1 - 8) &&& 0xFF = code / 2 ^ (v + 1) := by
    rw [show 8 + v + 1 - 8 = v + 1 by omega, show (0xFF : ℕ) = 2 ^ 8 - 1 from rfl,
      Nat.and_two_pow_sub_one_eq_mod, Nat.shiftRight_eq_div_pow]
    refine Nat.mod_eq_of_lt ((Nat.div_lt_iff_lt_mul (Nat.two_pow_pos _)).2 ?_)
    rwa [← Nat.pow_add, ← Nat.add_assoc]
  refine ⟨Nat.and_lt_two_pow _ (show 0xFF < 2 ^ 8 by decide), ?_, ?_⟩
  · rw [hmask, Nat.add_assoc, Bits.take_ofNat]
  · rw [Nat.add_assoc, Bits.drop_ofNat, Nat.shiftLeft_eq,
      show 8 + (v + 1) - 9 + 1 = v + 1 by omega, show 8 + (v + 1) - 8 = v + 1 by omega]
    obtain ⟨r, hr⟩ := Nat.exists_eq_add_of_le (show v + 1 ≤ 16 by omega)
    rw [hr, Nat.add_sub_cancel_left, Bits.ofNat_mul, List.take_left' (Bits.length_ofNat ..)]

theorem addLong_eq (h : Nodes 8 codes w 8 nodes) (hsize : 8 < size) (hmax : size ≤ 16)
    (hcode : code < 2 ^ size) (hfree : PrefixFree (codes ++ [(Bits.ofNat size code, i)]))
    (hfull : nodes.length ≤ 256) :
    addLong size i code (builder nodes codes sizes) =
      if (enlistWay (Bits.ofNat size code) (size - 8) 8 nodes).length ≤ 256 then
        some (builder (enlistWay (Bits.ofNat size code) (size - 8) 8 nodes)
          (codes ++ [(Bits.ofNat size code, i)]) sizes)
      else none := by
  obtain ⟨hlt, hj, hbits⟩ := subtree_eq hsize hmax hcode
  have hway := h.toward (Bits.ofNat size code)
  have hw : 8 < (Bits.ofNat size code).length := by rwa [Bits.length_ofNat]
  have hl : (Bits.ofNat size code).length = 8 + (size - 9) + 1 := by
    rw [Bits.length_ofNat]
    omega
  have hnew : ∀ d ∈ codes, ¬ d.1 <+: Bits.ofNat size code := fun d hd =>
    (hfree.not_isPrefix hd).1
  have hnext := hway.enlist (Nat.le_refl 8) hw
  have hlook : (builder nodes codes sizes).tables.lookUp ⟨_, hlt⟩ =
      value (entry nodes codes ((Bits.ofNat size code).take 8)) := by
    simp only [builder, layout, hj]
  have henlist : enlistWay (Bits.ofNat size code) (size - 8) 8 nodes =
      enlistWay (Bits.ofNat size code) (size - 9) 9
        (enlist nodes ((Bits.ofNat size code).take 8)) := by
    rw [show size - 8 = size - 9 + 1 by omega, enlistWay]
  rw [addLong, henlist]
  dsimp only
  rw [readAt_eq hlt, hlook]
  simp only [Option.bind_eq_bind, Option.bind_some]
  by_cases hmem : (Bits.ofNat size code).take 8 ∈ nodes
  · -- There is a node for the first eight bits.
    obtain ⟨k, hk⟩ := List.mem_iff_getElem?.1 hmem
    rw [enlist_of_mem hmem] at hnext
    rw [entry_of_getElem? h.nodup hk, value, if_neg (by omega), enlist_of_mem hmem]
    exact descend_eq sizes hfree hnext (Nat.le_refl 8) hk hl hbits
      (hfull.trans (Nat.le_max_left _ _))
  · -- There is none yet.
    rw [enlist_of_not_mem hmem] at hnext
    have hbuilder : builder (nodes ++ [(Bits.ofNat size code).take 8]) codes sizes =
        ⟨{ layout nodes codes sizes with
            lookUp := Function.update (layout nodes codes sizes).lookUp ⟨_, hlt⟩
              (-(2 * nodes.length + 1))
            lookUp2 := Function.update (layout nodes codes sizes).lookUp2 ⟨_, hlt⟩
              (-(2 * nodes.length + 1)) }, -(2 * nodes.length + 1) - 2⟩ := by
      rw [builder, layout_concat_root hway hw hmem hnew sizes (j := ⟨_, hlt⟩) hj, nextfree_concat]
    have hlast : (nodes ++ [(Bits.ofNat size code).take 8])[nodes.length]? =
        some ((Bits.ofNat size code).take 8) := List.getElem?_concat_length
    have hcount : (nodes ++ [(Bits.ofNat size code).take 8]).length = nodes.length + 1 :=
      List.length_append
    have hloop := descend_eq sizes hfree hnext (Nat.le_refl 8) hlast hl hbits
      (hcount ▸ Nat.le_max_right _ _)
    rw [entry_eq_free hmem fun d hd hstarts => hnew d hd (hstarts.trans (List.take_prefix _ _)),
      value, if_pos rfl, writeAt_eq hlt, writeAt_eq hlt, enlist_of_not_mem hmem]
    rw [hbuilder] at hloop
    exact hloop

/-! ## The tables of a file -/

theorem codeSizes_concat (codes : List (Word × UInt8)) (c : Word × UInt8) :
    codeSizes (codes ++ [c]) = Function.update (codeSizes codes) c.2.toFin c.1.length := by
  rw [codeSizes, List.foldl_append]
  rfl

/-- A round of the loop adds a code to the tree. -/
theorem addCode_eq (h : Nodes 8 codes w 8 nodes) (hsize : size ≤ 16) (hcode : code < 2 ^ size)
    (hfree : PrefixFree (codes ++ [(Bits.ofNat size code, i)])) (hfull : nodes.length ≤ 256) :
    addCode (builder nodes codes (codeSizes codes)) ((code, size), i) =
      if (enlistWay (Bits.ofNat size code) (size - 8) 8 nodes).length ≤ 256 then
        some (builder (enlistWay (Bits.ofNat size code) (size - 8) 8 nodes)
          (codes ++ [(Bits.ofNat size code, i)])
          (codeSizes (codes ++ [(Bits.ofNat size code, i)])))
      else none := by
  rw [codeSizes_concat, Bits.length_ofNat]
  by_cases hshort : size ≤ 8
  · rw [addCode_short h hshort hcode hfree, Nat.sub_eq_zero_of_le hshort, enlistWay, if_pos hfull]
  · rw [addCode]
    dsimp only
    rw [if_neg hshort]
    exact addLong_eq h (Nat.lt_of_not_le hshort) hsize hcode hfree hfull

/-- The loop over the codes. -/
theorem foldlM_addCode {entries : List ((ℕ × ℕ) × UInt8)}
    (hentries : ∀ e ∈ entries, e.1.2 ≤ 16 ∧ e.1.1 < 2 ^ e.1.2)
    (hfree : PrefixFree (codesOf entries)) :
    entries.foldlM addCode (builder [] [] fun _ => 0) =
      if (nodesOf 8 (codesOf entries)).length ≤ 256 then
        some (builder (nodesOf 8 (codesOf entries)) (codesOf entries)
          (codeSizes (codesOf entries)))
      else none := by
  induction entries using List.reverseRecOn with
  | nil => rfl
  | append_singleton entries e ih =>
    obtain ⟨⟨code, size⟩, i⟩ := e
    have hconcat : codesOf (entries ++ [((code, size), i)]) =
        codesOf entries ++ [(Bits.ofNat size code, i)] := List.map_append
    rw [hconcat] at hfree ⊢
    obtain ⟨hsize, hcode⟩ : size ≤ 16 ∧ code < 2 ^ size :=
      hentries ((code, size), i) (List.mem_append_right _ (List.mem_singleton_self _))
    rw [List.foldlM_append, ih (fun e he => hentries e (List.mem_append_left _ he)) hfree.of_concat,
      nodesOf_concat, Bits.length_ofNat]
    by_cases hfull : (nodesOf 8 (codesOf entries)).length ≤ 256
    · rw [if_pos hfull]
      simp only [Option.bind_eq_bind, Option.bind_some, List.foldlM_cons, List.foldlM_nil,
        bind_pure]
      exact addCode_eq (nodes_nodesOf 8 (codesOf entries) []) hsize hcode hfree hfull
    · have hmore := length_le_length_enlistWay (Bits.ofNat size code) (size - 8) 8
        (nodesOf 8 (codesOf entries))
      rw [if_neg hfull, if_neg (fun hle => hfull (hmore.trans hle))]
      rfl

/-- The tables are those of the tree of the codes, if the array has room for its nodes; else the
    function writes outside of the array. -/
theorem makeHuffTable_eq {data : HuffData} (hfits : data.Fits) :
    makeHuffTable data =
      if (nodesOf 8 data.codes).length ≤ 256 then
        some (layout (nodesOf 8 data.codes) data.codes (codeSizes data.codes))
      else none := by
  have hentries : ∀ e ∈ data.entries, e.1.2 ≤ 16 ∧ e.1.1 < 2 ^ e.1.2 := fun e he =>
    ⟨(HuffData.size_of_mem_numbers (HuffData.mem_numbers he)).2,
      data.fits_iff_forall_lt.1 hfits _ (HuffData.mem_numbers he)⟩
  have hempty : (⟨⟨fun _ => 0, fun _ => 0, fun _ => 0, fun _ => 0⟩, -1⟩ : Builder) =
      builder [] [] fun _ => 0 := rfl
  have hcodes : data.codes = codesOf data.entries := rfl
  rw [makeHuffTable, hempty, foldlM_addCode hentries (HuffData.prefixFree hfits), hcodes]
  split_ifs <;> rfl

/-- The arrays have room for the tables exactly if at most 256 words of eight bits or more go on in
    a code. -/
theorem makeHuffTable_isSome_iff {data : HuffData} (hfits : data.Fits) :
    (makeHuffTable data).isSome ↔
      {q : Word | 8 ≤ q.length ∧ IsInner data.codes q}.ncard ≤ 256 := by
  have hnodes := nodes_nodesOf 8 data.codes []
  have hset : {q : Word | 8 ≤ q.length ∧ IsInner data.codes q} =
      ((nodesOf 8 data.codes).toFinset : Set Word) := by
    ext q
    rw [Set.mem_ofPred_eq, Finset.mem_coe, List.mem_toFinset, hnodes.mem_iff]
    refine and_congr_right fun hq => (or_iff_left ?_).symm
    exact fun hempty => absurd hempty.2 (Nat.not_lt.2 hq)
  rw [hset, Set.ncard_coe_finset, List.toFinset_card_of_nodup hnodes.nodup, makeHuffTable_eq hfits]
  split_ifs with hfull
  · exact iff_of_true rfl hfull
  · exact iff_of_false Bool.false_ne_true hfull

theorem sampleHuffData_isSome_iff : sampleHuffData.Fits ∧ ((makeHuffTable sampleHuffData).isSome ↔
    {q : Word | 8 ≤ q.length ∧ IsInner sampleHuffData.codes q}.ncard ≤ 256) :=
  ⟨sampleHuffData_fits, makeHuffTable_isSome_iff sampleHuffData_fits⟩

/-- The tables of the two codes. -/
@[irreducible] def sampleTables : HuffTables :=
  layout (nodesOf 8 sampleHuffData.codes) sampleHuffData.codes (codeSizes sampleHuffData.codes)

theorem sampleTables_eq : makeHuffTable sampleHuffData = some sampleTables := by
  have hfull : (nodesOf 8 sampleHuffData.codes).length ≤ 256 := by decide
  rw [makeHuffTable_eq sampleHuffData_fits, if_pos hfull, sampleTables]

end Gaze.Jpgd
