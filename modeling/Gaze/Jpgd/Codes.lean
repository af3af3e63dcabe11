import Gaze.Bits
import Gaze.PrefixCodes

/-!
# The Huffman codes of JPEG

A file has, for a table, how many codes there are of each size, from 1 to 16 bits, and the symbols
of the codes, the shortest first (`HuffData`). `make_huff_table` gives each code the next number
of its size (`huffsize`, `huffcode`).

* `zip_huffcode`: these are the codes that follow each other, doubled from one size to the next
  (`canonical`).
* `fits_iff_forall_lt`: each code is a number of its size exactly if the sizes satisfy Kraft's
  inequality.
* `HuffData.prefixFree`: then no code is the beginning of another.
-/

namespace Gaze.Jpgd

open PrefixCodes

/-! ## The code of `make_huff_table` -/

/-- What `read_dht_marker` keeps of a table: `m_huff_num` and `m_huff_val`. -/
structure HuffData where
  huffNum : List UInt8
  huffVal : List UInt8
  length_huffNum : huffNum.length = 16
  length_huffVal : huffVal.length = (huffNum.map UInt8.toNat).sum
  /-- Else it is a `JPGD_BAD_DHT_COUNTS`. -/
  count_le : huffVal.length ≤ 255

/-- The sizes of the codes, those of `l` bits first. -/
def huffsize : ℕ → List UInt8 → List ℕ
  | _, [] => []
  | l, n :: huffNum => List.replicate n.toNat l ++ huffsize (l + 1) huffNum

/-- The loops over the sizes: the codes of `si` bits from `code` on, then those of the next sizes.
    The outer loop has at most as many rounds as there are sizes. -/
def huffcode : ℕ → ℕ → ℕ → List ℕ → List ℕ
  | 0, _, _, _ => []
  | rounds + 1, si, code, sizes =>
    let count := (sizes.takeWhile (· = si)).length
    List.range' code count ++ huffcode rounds (si + 1) ((code + count) * 2) (sizes.drop count)

/-- The room that the codes from `l` bits on take among the words of `width` bits. -/
def room (width : ℕ) : ℕ → List UInt8 → ℕ
  | _, [] => 0
  | l, n :: huffNum => n.toNat * 2 ^ (width - l) + room width (l + 1) huffNum

/-- The words of codes, of which there are the number, the size and the symbol. -/
def codesOf (entries : List ((ℕ × ℕ) × UInt8)) : List (Word × UInt8) :=
  entries.map fun ((code, size), i) => (Bits.ofNat size code, i)

namespace HuffData

variable (data : HuffData)

def sizes : List ℕ := huffsize 1 data.huffNum

/-- The numbers of the codes, with their sizes. -/
def numbers : List (ℕ × ℕ) := (huffcode 16 (data.sizes.headD 0) 0 data.sizes).zip data.sizes

/-- Kraft's inequality: there is room for the codes. -/
def Fits : Prop := room 16 1 data.huffNum ≤ 2 ^ 16

instance : Decidable data.Fits := inferInstanceAs (Decidable (_ ≤ _))

/-- The numbers, the sizes and the symbols of the codes. -/
def entries : List ((ℕ × ℕ) × UInt8) := data.numbers.zip data.huffVal

def codes : List (Word × UInt8) := codesOf data.entries

end HuffData

/-! ## Codes that follow each other -/

/-- The codes from `l` bits on, the first of which is `code`, with their sizes. -/
def canonical : ℕ → ℕ → List UInt8 → List (ℕ × ℕ)
  | _, _, [] => []
  | l, code, n :: huffNum =>
    (List.range' code n.toNat).map (·, l) ++ canonical (l + 1) ((code + n.toNat) * 2) huffNum

variable {huffNum : List UInt8} {l code rounds width : ℕ} {c d : ℕ × ℕ}

theorem le_of_mem_huffsize {size : ℕ} (h : size ∈ huffsize l huffNum) : l ≤ size := by
  induction huffNum generalizing l with
  | nil => exact absurd h List.not_mem_nil
  | cons n huffNum ih =>
    rcases List.mem_append.1 h with h | h
    · exact (List.eq_of_mem_replicate h).ge
    · exact (Nat.le_succ l).trans (ih h)

/-- A round of the outer loop takes the sizes that are `l`. -/
theorem takeWhile_huffsize (l : ℕ) (n : UInt8) (huffNum : List UInt8) :
    (huffsize l (n :: huffNum)).takeWhile (· = l) = List.replicate n.toNat l := by
  have hrest : (huffsize (l + 1) huffNum).takeWhile (· = l) = [] := by
    cases hsizes : huffsize (l + 1) huffNum with
    | nil => rfl
    | cons size sizes =>
      have hlt : l + 1 ≤ size := le_of_mem_huffsize (hsizes ▸ List.mem_cons_self)
      exact List.takeWhile_cons_of_neg (by simp; omega)
  rw [huffsize, List.takeWhile_append_of_pos, hrest, List.append_nil]
  exact fun size h => decide_eq_true (List.eq_of_mem_replicate h)

/-- The loops give the codes that follow each other. -/
theorem zip_huffcode (h : huffNum.length ≤ rounds) (l code : ℕ) :
    (huffcode rounds l code (huffsize l huffNum)).zip (huffsize l huffNum) =
      canonical l code huffNum := by
  induction huffNum generalizing rounds l code with
  | nil => rw [huffsize, List.zip_nil_right, canonical]
  | cons n huffNum ih =>
    obtain ⟨rounds, rfl⟩ := Nat.exists_eq_succ_of_ne_zero (Nat.ne_zero_of_lt h)
    have hround : (List.range' code n.toNat).zip (List.replicate n.toNat l) =
        (List.range' code n.toNat).map (·, l) :=
      calc (List.range' code n.toNat).zip (List.replicate n.toNat l)
          = ((List.range' code n.toNat).map id).zip
              ((List.range' code n.toNat).map fun _ => l) := by
            rw [List.map_id, List.map_const', List.length_range']
        _ = (List.range' code n.toNat).map (·, l) := List.zip_map'
    rw [huffcode, takeWhile_huffsize, List.length_replicate, huffsize,
      List.drop_left' List.length_replicate, List.zip_append (by simp), hround,
      ih (Nat.le_of_succ_le_succ h), canonical]

/-- The first size is the first one that a code has: before, there is no code to double. -/
theorem zip_huffcode_headD (h : huffNum.length ≤ rounds) (l : ℕ) :
    (huffcode rounds ((huffsize l huffNum).headD 0) 0 (huffsize l huffNum)).zip
      (huffsize l huffNum) = canonical l 0 huffNum := by
  induction huffNum generalizing l with
  | nil => rw [huffsize, List.zip_nil_right, canonical]
  | cons n huffNum ih =>
    by_cases hn : n.toNat = 0
    · have hskip : huffsize l (n :: huffNum) = huffsize (l + 1) huffNum := by
        rw [huffsize, hn, List.replicate_zero, List.nil_append]
      rw [hskip, ih (Nat.le_of_succ_le h), canonical, hn]
      rfl
    · have hhead : (huffsize l (n :: huffNum)).headD 0 = l := by
        obtain ⟨count, hcount⟩ := Nat.exists_eq_succ_of_ne_zero hn
        rw [huffsize, hcount]
        rfl
      rw [hhead, zip_huffcode h]

/-! ## The room of the codes -/

/-- The codes of a size are those from `code` on. -/
theorem mem_canonical_cons {n : UInt8} (h : c ∈ canonical l code (n :: huffNum)) :
    (∃ i < n.toNat, c = (code + i, l)) ∨
      c ∈ canonical (l + 1) ((code + n.toNat) * 2) huffNum := by
  refine (List.mem_append.1 h).imp_left fun h => ?_
  obtain ⟨number, hnumber, rfl⟩ := List.mem_map.1 h
  obtain ⟨hle, hlt⟩ := List.mem_range'_1.1 hnumber
  exact ⟨number - code, by omega, by rw [Nat.add_sub_cancel' hle]⟩

/-- Doubling a number leaves its place among the words of `width` bits. -/
theorem double_place (h : l < width) (number : ℕ) :
    number * 2 * 2 ^ (width - (l + 1)) = number * 2 ^ (width - l) := by
  have hwidth : width - l = width - (l + 1) + 1 := by omega
  rw [Nat.mul_assoc, hwidth, Nat.pow_succ']

theorem size_of_mem_canonical (h : c ∈ canonical l code huffNum) :
    l ≤ c.2 ∧ c.2 < l + huffNum.length := by
  induction huffNum generalizing l code with
  | nil => exact absurd h List.not_mem_nil
  | cons n huffNum ih =>
    rw [List.length_cons]
    rcases mem_canonical_cons h with ⟨i, -, rfl⟩ | h
    · exact ⟨Nat.le_refl l, by simp⟩
    · obtain ⟨hle, hlt⟩ := ih h
      omega

theorem length_canonical (l code : ℕ) (huffNum : List UInt8) :
    (canonical l code huffNum).length = (huffNum.map UInt8.toNat).sum := by
  induction huffNum generalizing l code with
  | nil => rfl
  | cons n huffNum ih =>
    rw [canonical, List.length_append, List.length_map, List.length_range', ih, List.map_cons,
      List.sum_cons]

/-- A code has its place after those of the codes before, and before the end of the room. -/
theorem place_of_mem_canonical (hwidth : l + huffNum.length ≤ width)
    (h : c ∈ canonical l code huffNum) :
    code * 2 ^ (width - l) ≤ c.1 * 2 ^ (width - c.2) ∧
      (c.1 + 1) * 2 ^ (width - c.2) ≤ code * 2 ^ (width - l) + room width l huffNum := by
  induction huffNum generalizing l code with
  | nil => exact absurd h List.not_mem_nil
  | cons n huffNum ih =>
    rw [List.length_cons] at hwidth
    rw [room, ← Nat.add_assoc, ← Nat.add_mul]
    rcases mem_canonical_cons h with ⟨i, hi, rfl⟩ | h
    · refine ⟨Nat.mul_le_mul_right _ (Nat.le_add_right _ _), Nat.le_add_right_of_le ?_⟩
      exact Nat.mul_le_mul_right _ (by dsimp only; omega)
    · obtain ⟨hfirst, hlast⟩ := ih (by omega) h
      rw [double_place (by omega)] at hfirst hlast
      exact ⟨(Nat.mul_le_mul_right _ (Nat.le_add_right _ _)).trans hfirst, hlast⟩

/-- Some code ends where the room does. -/
theorem exists_end_of_room (hwidth : l + huffNum.length ≤ width) (code : ℕ)
    (hroom : room width l huffNum ≠ 0) :
    ∃ c ∈ canonical l code huffNum,
      (c.1 + 1) * 2 ^ (width - c.2) = code * 2 ^ (width - l) + room width l huffNum := by
  induction huffNum generalizing l code with
  | nil => exact absurd rfl hroom
  | cons n huffNum ih =>
    rw [List.length_cons] at hwidth
    rw [room] at hroom ⊢
    rw [← Nat.add_assoc, ← Nat.add_mul]
    by_cases hrest : room width (l + 1) huffNum = 0
    · have hn : n.toNat ≠ 0 := by
        intro hn
        rw [hn, hrest] at hroom
        simp at hroom
      refine ⟨(code + (n.toNat - 1), l), List.mem_append_left _ (List.mem_map.2 ⟨_, ?_, rfl⟩), ?_⟩
      · exact List.mem_range'_1.2 (by omega)
      · rw [hrest, Nat.add_zero]
        congr 1
        dsimp only
        omega
    · obtain ⟨c, hc, hend⟩ := ih (by omega) ((code + n.toNat) * 2) hrest
      rw [double_place (by omega)] at hend
      exact ⟨c, List.mem_append_right _ hc, hend⟩

/-- Each code has its place after the one before. -/
theorem pairwise_canonical (hwidth : l + huffNum.length ≤ width) (code : ℕ) :
    (canonical l code huffNum).Pairwise fun c d =>
      (c.1 + 1) * 2 ^ (width - c.2) ≤ d.1 * 2 ^ (width - d.2) := by
  induction huffNum generalizing l code with
  | nil => exact List.Pairwise.nil
  | cons n huffNum ih =>
    rw [List.length_cons] at hwidth
    refine List.pairwise_append.2 ⟨?_, ih (by omega) _, ?_⟩
    · refine List.pairwise_map.2 ((List.pairwise_lt_range' ..).imp fun hlt => ?_)
      exact Nat.mul_le_mul_right _ hlt
    · intro c hc d hd
      obtain ⟨number, hnumber, rfl⟩ := List.mem_map.1 hc
      obtain ⟨hfirst, -⟩ := place_of_mem_canonical (show l + 1 + huffNum.length ≤ width by omega) hd
      rw [double_place (by omega)] at hfirst
      refine le_trans (Nat.mul_le_mul_right _ ?_) hfirst
      exact (List.mem_range'_1.1 hnumber).2

/-- Among words of one bit more, the room is the double. -/
theorem room_succ (hwidth : l + huffNum.length ≤ width + 1) :
    room (width + 1) l huffNum = room width l huffNum * 2 := by
  induction huffNum generalizing l with
  | nil => rfl
  | cons n huffNum ih =>
    rw [List.length_cons] at hwidth
    rw [room, room, ih (by omega), Nat.add_mul, Nat.mul_assoc, ← Nat.pow_succ,
      Nat.sub_add_comm (by omega)]

/-! ## The codes of a table -/

namespace HuffData

variable {data : HuffData}

theorem numbers_eq (data : HuffData) : data.numbers = canonical 1 0 data.huffNum :=
  zip_huffcode_headD data.length_huffNum.le 1

theorem length_add_length (data : HuffData) : 1 + data.huffNum.length ≤ 17 := by
  rw [data.length_huffNum]

theorem length_numbers (data : HuffData) : data.numbers.length = data.huffVal.length := by
  rw [numbers_eq, length_canonical, data.length_huffVal]

theorem size_of_mem_numbers (h : c ∈ data.numbers) : 1 ≤ c.2 ∧ c.2 ≤ 16 := by
  rw [numbers_eq] at h
  obtain ⟨hle, hlt⟩ := size_of_mem_canonical h
  rw [data.length_huffNum] at hlt
  exact ⟨hle, Nat.le_of_lt_succ hlt⟩

/-- There is room for the codes exactly if each of them is a number of its size. -/
theorem fits_iff_forall_lt (data : HuffData) : data.Fits ↔ ∀ c ∈ data.numbers, c.1 < 2 ^ c.2 := by
  have hroom : room 17 1 data.huffNum = room 16 1 data.huffNum * 2 :=
    room_succ data.length_add_length
  have hplace : ∀ c ∈ data.numbers,
      (c.1 + 1) * 2 ^ (17 - c.2) ≤ 2 ^ 17 ↔ c.1 < 2 ^ c.2 := by
    intro c hc
    have hsize := size_of_mem_numbers hc
    have hpow : 2 ^ 17 = 2 ^ c.2 * 2 ^ (17 - c.2) := by
      rw [← Nat.pow_add, Nat.add_sub_cancel' (by omega)]
    rw [hpow, Nat.mul_le_mul_right_iff (Nat.two_pow_pos _), Nat.succ_le_iff]
  constructor
  · intro hfits c hc
    refine (hplace c hc).1 ?_
    rw [numbers_eq] at hc
    obtain ⟨-, hlast⟩ := place_of_mem_canonical data.length_add_length hc
    rw [Nat.zero_mul, Nat.zero_add, hroom] at hlast
    exact hlast.trans (Nat.mul_le_mul_right 2 hfits)
  · intro h
    by_cases hzero : room 17 1 data.huffNum = 0
    · rw [Fits]
      omega
    · obtain ⟨c, hc, hend⟩ := exists_end_of_room data.length_add_length 0 hzero
      rw [← numbers_eq] at hc
      have hle := (hplace c hc).2 (h c hc)
      rw [hend, Nat.zero_mul, Nat.zero_add, hroom] at hle
      exact Nat.le_of_mul_le_mul_right hle two_pos

theorem mem_numbers {i : UInt8} (h : (c, i) ∈ data.entries) : c ∈ data.numbers :=
  (List.of_mem_zip h).1

theorem exists_of_mem_codes {c : Word × UInt8} (h : c ∈ data.codes) :
    ∃ n ∈ data.numbers, c.1 = Bits.ofNat n.2 n.1 := by
  obtain ⟨⟨n, i⟩, hmem, rfl⟩ := List.mem_map.1 h
  exact ⟨n, mem_numbers hmem, rfl⟩

theorem length_le {c : Word × UInt8} (h : c ∈ data.codes) : c.1.length ≤ 16 := by
  obtain ⟨n, hn, hword⟩ := exists_of_mem_codes h
  rw [hword, Bits.length_ofNat]
  exact (size_of_mem_numbers hn).2

theorem map_snd_codes (data : HuffData) : data.codes.map Prod.snd = data.huffVal := by
  have hzip : data.codes.map Prod.snd = data.entries.map Prod.snd := List.map_map
  rw [hzip, entries, List.map_snd_zip data.length_numbers.ge]

/-- If there is room for the codes, none is the beginning of another. -/
theorem prefixFree (hfits : data.Fits) : PrefixFree data.codes := by
  have hfst : data.entries.map Prod.fst = canonical 1 0 data.huffNum := by
    rw [entries, List.map_fst_zip data.length_numbers.le, numbers_eq]
  have hplaces := pairwise_canonical data.length_add_length 0
  rw [← hfst, List.pairwise_map] at hplaces
  refine List.pairwise_map.2 (hplaces.imp_of_mem ?_)
  intro c d hc hd hplace
  have hcfits := data.fits_iff_forall_lt.1 hfits _ (mem_numbers hc)
  have hdfits := data.fits_iff_forall_lt.1 hfits _ (mem_numbers hd)
  have hcwidth : (Bits.ofNat c.1.2 c.1.1).length ≤ 17 := by
    rw [Bits.length_ofNat]
    exact Nat.le_succ_of_le (size_of_mem_numbers (mem_numbers hc)).2
  have hdwidth : (Bits.ofNat d.1.2 d.1.1).length ≤ 17 := by
    rw [Bits.length_ofNat]
    exact Nat.le_succ_of_le (size_of_mem_numbers (mem_numbers hd)).2
  refine Bits.not_isPrefix_of_place hcwidth hdwidth ?_
  rw [Bits.length_ofNat, Bits.length_ofNat, Bits.toNat_ofNat_of_lt hcfits,
    Bits.toNat_ofNat_of_lt hdfits]
  exact hplace

end HuffData

/-- A table of a code of each size from one bit to nine: `0`, `10`, and so on. -/
def sampleHuffData : HuffData :=
  ⟨List.replicate 9 1 ++ List.replicate 7 0, [0, 1, 2, 3, 4, 5, 6, 7, 8], by decide, by decide,
    by decide⟩

theorem sampleHuffData_fits : sampleHuffData.Fits := by decide

example : sampleHuffData.codes = (List.range 9).map fun n =>
    (List.replicate n true ++ [false], UInt8.ofNat n) := by decide

end Gaze.Jpgd
