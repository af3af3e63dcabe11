import Mathlib.Algebra.Order.Group.Nat
import Mathlib.Algebra.Ring.Int.Defs
import Mathlib.Data.List.DropRight
import Mathlib.Tactic.Common

/-!
# Java strings

The part of `java.lang.String`, `Integer` and `Boolean` that text protocols are
written with. A well-formed Java string is the list of its characters.

* `split`: `String.split` on a one-character separator. The empty strings at
  the *end* of the result are dropped, and a string without the separator is
  its only part, even when it is empty; so `split ' '` of `" "` has no part at
  all, while `split ' '` of `""` has one.
* `Integer.toString` and `Integer.parseInt`: the decimal form of an `int`, and
  its inverse, which also accepts a sign `+`, leading zeros and the decimal
  digits of other scripts, and refuses (`none`, a `NumberFormatException`)
  whatever does not denote a 32-bit integer.
-/

namespace Java

/-- A well-formed Java string: the list of its characters. -/
abbrev Text := List Char

/-! ## Splitting -/

/-- `String.split`, on a separator of one character. -/
def split (sep : Char) (s : Text) : List Text :=
  if sep ∈ s then (s.splitOn sep).rdropWhile List.isEmpty else [s]

/-- The parts, joined by the separator. -/
def join (sep : Char) (parts : List Text) : Text := [sep].intercalate parts

@[simp] theorem join_nil (sep : Char) : join sep [] = [] := rfl

@[simp] theorem join_singleton (sep : Char) (s : Text) : join sep [s] = s := by
  simp [join]

@[simp] theorem join_cons_cons (sep : Char) (s t : Text) (parts : List Text) :
    join sep (s :: t :: parts) = s ++ sep :: join sep (t :: parts) := by
  simp [join]

theorem mem_join {sep c : Char} {parts : List Text} (h : c ∈ join sep parts) :
    c = sep ∨ ∃ s ∈ parts, c ∈ s := by
  induction parts with
  | nil => simp at h
  | cons s parts ih =>
    cases parts with
    | nil => exact .inr ⟨s, by simp, by simpa using h⟩
    | cons t parts =>
      rw [join_cons_cons, List.mem_append, List.mem_cons] at h
      rcases h with h | h | h
      · exact .inr ⟨s, by simp, h⟩
      · exact .inl h
      · rcases ih h with h | ⟨u, hu, hc⟩
        · exact .inl h
        · exact .inr ⟨u, List.mem_cons_of_mem _ hu, hc⟩

theorem split_of_not_mem {sep : Char} {s : Text} (h : sep ∉ s) : split sep s = [s] := by
  simp [split, h]

/-- Splitting gives back the parts that were joined, if none contains the
    separator and the last one is not empty. -/
theorem split_join {sep : Char} {parts : List Text} (hsep : ∀ s ∈ parts, sep ∉ s)
    (hne : parts ≠ []) (hlast : parts.getLast hne ≠ []) : split sep (join sep parts) = parts := by
  have hparts : (join sep parts).splitOn sep = parts := List.splitOn_intercalate sep hsep hne
  by_cases hmem : sep ∈ join sep parts
  · rw [split, if_pos hmem, hparts, List.rdropWhile_eq_self_iff]
    simpa using fun _ => hlast
  · rw [split_of_not_mem hmem, ← List.splitOn_eq_singleton hmem, hparts]

/-- The part before the first separator is the first part, if it is not empty. -/
theorem head?_split_append {sep : Char} {s : Text} (hs : sep ∉ s) (hne : s ≠ []) (t : Text) :
    (split sep (s ++ sep :: t)).head? = some s := by
  rw [split, if_pos (by simp), List.splitOn_append_cons_self_of_not_mem hs]
  obtain ⟨l, hl⟩ := List.rdropWhile_prefix (p := List.isEmpty) (l := s :: t.splitOn sep)
  cases h : (s :: t.splitOn sep).rdropWhile List.isEmpty with
  | nil =>
    have := (List.rdropWhile_eq_nil_iff.1 h) s (by simp)
    exact absurd (by simpa using this) hne
  | cons u l' =>
    rw [h, List.cons_append] at hl
    rw [List.head?_cons, (List.cons.inj hl).1]

/-- The first part begins like the string. -/
theorem split_cons {sep c : Char} (hc : c ≠ sep) (s : Text) :
    ∃ t rest, split sep (c :: s) = (c :: t) :: rest := by
  by_cases hmem : sep ∈ c :: s
  · obtain ⟨u, v, huv, hu⟩ := List.eq_append_cons_of_mem hmem
    cases u with
    | nil => exact absurd (List.cons.inj huv).1 hc
    | cons d u =>
      obtain ⟨rfl, rfl⟩ := List.cons.inj huv
      have hhead := head?_split_append hu (List.cons_ne_nil _ _) v
      obtain ⟨rest, hrest⟩ := List.head?_eq_some_iff.1 hhead
      exact ⟨u, rest, hrest⟩
  · exact ⟨s, [], split_of_not_mem hmem⟩

theorem mem_splitOn {sep : Char} {s t : Text} (h : t ∈ s.splitOn sep) : sep ∉ t ∧ t ⊆ s := by
  -- On the length: what follows the first separator is shorter.
  induction hn : s.length using Nat.strong_induction_on generalizing s with
  | _ n ih =>
    by_cases hmem : sep ∈ s
    · obtain ⟨u, v, rfl, hu⟩ := List.eq_append_cons_of_mem hmem
      rw [List.splitOn_append_cons_self_of_not_mem hu, List.mem_cons] at h
      rcases h with rfl | h
      · exact ⟨hu, List.subset_append_left _ _⟩
      · have hlt : v.length < n := by
          rw [← hn, List.length_append, List.length_cons]
          omega
        obtain ⟨hsep, hsub⟩ := ih v.length hlt h rfl
        exact ⟨hsep, fun c hc => by simp [hsub hc]⟩
    · rw [List.splitOn_eq_singleton hmem, List.mem_singleton] at h
      rw [h]
      exact ⟨hmem, List.Subset.refl _⟩

/-- The parts are pieces of the string, without the separator. -/
theorem mem_split {sep : Char} {s t : Text} (h : t ∈ split sep s) : sep ∉ t ∧ t ⊆ s := by
  rw [split] at h
  split_ifs at h with hmem
  · have hpre : (s.splitOn sep).rdropWhile List.isEmpty <+: s.splitOn sep :=
      List.rdropWhile_prefix _ _
    exact mem_splitOn (hpre.subset h)
  · rw [List.mem_singleton.1 h]
    exact ⟨hmem, List.Subset.refl _⟩

/-- A part followed by a separator only: the empty part after it is dropped. -/
theorem split_append_sep {sep : Char} {s : Text} (hs : sep ∉ s) (hne : s ≠ []) :
    split sep (s ++ [sep]) = [s] := by
  rw [split, if_pos (by simp), List.splitOn_append_cons_self_of_not_mem hs]
  simp [List.rdropWhile, hne]

/-- Splitting leaves no part at all exactly for the strings made of separators. -/
theorem split_eq_nil_iff {sep : Char} {s : Text} :
    split sep s = [] ↔ s ≠ [] ∧ ∀ c ∈ s, c = sep := by
  by_cases hmem : sep ∈ s
  · rw [split, if_pos hmem, List.rdropWhile_eq_nil_iff]
    constructor
    · intro h
      refine ⟨List.ne_nil_of_mem hmem, fun c hc => ?_⟩
      have hjoin : [sep].intercalate (s.splitOn sep) = s := List.intercalate_splitOn sep
      rw [← hjoin] at hc
      -- All the parts are empty, so that every character comes from a separator.
      rcases mem_join hc with hc | ⟨t, ht, hct⟩
      · exact hc
      · rw [List.isEmpty_iff.1 (h t ht)] at hct
        exact absurd hct List.not_mem_nil
    · rintro ⟨-, h⟩
      obtain ⟨n, rfl⟩ : ∃ n, s = List.replicate n sep :=
        ⟨s.length, List.eq_replicate_iff.2 ⟨rfl, h⟩⟩
      clear hmem h
      induction n with
      | zero => simp
      | succ n ih => simpa [List.replicate_succ, List.splitOn_cons_eq_if_modifyHead] using ih
  · rw [split_of_not_mem hmem]
    simp only [List.cons_ne_nil, false_iff, not_and]
    rintro hne h
    obtain ⟨c, hc⟩ := List.exists_mem_of_ne_nil s hne
    exact hmem (h c hc ▸ hc)

/-! ## Numbers -/

/-- The code points of the digits zero that `Character.digit` knows among the
    characters of one unit, each followed by the nine other digits of its script. -/
def digitZeros : List ℕ :=
  [0x0030, 0x0660, 0x06F0, 0x07C0, 0x0966, 0x09E6, 0x0A66, 0x0AE6, 0x0B66, 0x0BE6, 0x0C66,
   0x0CE6, 0x0D66, 0x0DE6, 0x0E50, 0x0ED0, 0x0F20, 0x1040, 0x1090, 0x17E0, 0x1810, 0x1946,
   0x19D0, 0x1A80, 0x1A90, 0x1B50, 0x1BB0, 0x1C40, 0x1C50, 0xA620, 0xA8D0, 0xA900, 0xA9D0,
   0xA9F0, 0xAA50, 0xABF0, 0xFF10]

/-- The code points of the letters `A` and `a`, in ASCII and full width, whose
    alphabets are the digits above nine. -/
def letterAs : List ℕ := [0x0041, 0x0061, 0xFF21, 0xFF41]

/-- `Character.digit`: the value of a digit in the given radix. -/
def digit (radix : ℕ) (c : Char) : Option ℕ :=
  let value : Option ℕ :=
    match digitZeros.find? fun z => z ≤ c.toNat && c.toNat < z + 10 with
    | some z => some (c.toNat - z)
    | none => (letterAs.find? fun a => a ≤ c.toNat && c.toNat < a + 26).map (c.toNat - · + 10)
  value.filter (· < radix)

/-- The value of a sequence of digits, most significant first. -/
def digitsValue (radix : ℕ) (ds : List ℕ) : ℕ := ds.foldl (fun v d => radix * v + d) 0

/-- The magnitude a nonempty sequence of digits denotes. -/
def parseDigits (radix : ℕ) (s : Text) : Option ℕ :=
  if s = [] then none else (s.mapM (digit radix)).map (digitsValue radix)

/-- The integer, if it fits in 32 bits. -/
def toInt32? (v : ℤ) : Option Int32 :=
  if -2 ^ 31 ≤ v ∧ v < 2 ^ 31 then some (Int32.ofInt v) else none

namespace Integer

/-- `Integer.parseInt`; `none` stands for a `NumberFormatException`. -/
def parseInt (s : Text) (radix : ℕ) : Option Int32 :=
  match s with
  | '-' :: ds => (parseDigits radix ds).bind fun n => toInt32? (-n)
  | '+' :: ds => (parseDigits radix ds).bind fun n => toInt32? n
  | ds => (parseDigits radix ds).bind fun n => toInt32? n

/-- `Integer.toString`. -/
def toString (n : Int32) : Text :=
  if n.toInt < 0 then '-' :: Nat.toDigits 10 n.toInt.natAbs else Nat.toDigits 10 n.toInt.natAbs

end Integer

theorem digit_ascii {c : Char} (h : c.isDigit) : digit 10 c = some (c.toNat - '0'.toNat) := by
  simp only [Char.isDigit, Bool.and_eq_true, decide_eq_true_eq, ge_iff_le,
    UInt32.le_iff_toNat_le] at h
  obtain ⟨h0, h9⟩ : 48 ≤ c.toNat ∧ c.toNat ≤ 57 := h
  have h10 : c.toNat < 48 + 10 := by omega
  simp [digit, digitZeros, h0, h10]
  omega

theorem mapM_digit {s : Text} (h : ∀ c ∈ s, c.isDigit) :
    s.mapM (digit 10) = some (s.map fun c => c.toNat - '0'.toNat) := by
  induction s with
  | nil => rfl
  | cons c s ih =>
    rw [List.mapM_cons, digit_ascii (h c (by simp)), ih fun d hd => h d (by simp [hd])]
    rfl

/-- The digits of a number denote it. -/
theorem parseDigits_toDigits (n : ℕ) : parseDigits 10 (Nat.toDigits 10 n) = some n := by
  have hd : ∀ c ∈ Nat.toDigits 10 n, c.isDigit := fun c hc =>
    Nat.isDigit_of_mem_toDigits (by decide) (by decide) hc
  rw [parseDigits, if_neg Nat.toDigits_ne_nil, mapM_digit hd, Option.map_some, digitsValue,
    List.foldl_map, ← Nat.ofDigitChars_eq_foldl, Nat.ofDigitChars_ten_toDigits]

theorem toInt32?_toInt (n : Int32) : toInt32? n.toInt = some n := by
  have h1 := n.le_toInt
  have h2 := n.toInt_lt
  rw [toInt32?, if_pos ⟨h1, h2⟩, Int32.ofInt_toInt]

namespace Integer

/-- The characters of a printed integer: digits and the sign. -/
theorem mem_toString {n : Int32} {c : Char} (h : c ∈ toString n) : c.isDigit ∨ c = '-' := by
  have hd : ∀ c ∈ Nat.toDigits 10 n.toInt.natAbs, c.isDigit := fun c hc =>
    Nat.isDigit_of_mem_toDigits (by decide) (by decide) hc
  rw [toString] at h
  split at h
  · rcases List.mem_cons.1 h with h | h
    · exact .inr h
    · exact .inl (hd c h)
  · exact .inl (hd c h)

theorem toString_ne_nil (n : Int32) : toString n ≠ [] := by
  rw [toString]
  split
  · exact List.cons_ne_nil _ _
  · exact Nat.toDigits_ne_nil

theorem parseInt_of_digits {n : ℕ} :
    parseInt (Nat.toDigits 10 n) 10 = toInt32? n := by
  have hd : ∀ c ∈ Nat.toDigits 10 n, c.isDigit := fun c hc =>
    Nat.isDigit_of_mem_toDigits (by decide) (by decide) hc
  rw [parseInt, parseDigits_toDigits, Option.bind_some]
  · exact fun ds h => absurd (hd '-' (by rw [h]; simp)) (by decide)
  · exact fun ds h => absurd (hd '+' (by rw [h]; simp)) (by decide)

/-- `parseInt` reads back what `toString` prints. -/
theorem parseInt_toString (n : Int32) : parseInt (toString n) 10 = some n := by
  rw [toString]
  split
  · next hneg =>
    have habs : -(n.toInt.natAbs : ℤ) = n.toInt := by omega
    rw [parseInt, parseDigits_toDigits, Option.bind_some, habs, toInt32?_toInt]
  · next hneg =>
    have habs : (n.toInt.natAbs : ℤ) = n.toInt := by omega
    rw [parseInt_of_digits, habs, toInt32?_toInt]

end Integer

namespace Boolean

/-- `Boolean.toString`. -/
def toString (b : Bool) : Text := if b then "true".toList else "false".toList

/-- `Boolean.parseBoolean`: is it `true`, whatever the case? -/
def parseBoolean (s : Text) : Bool := s.map Char.toLower == "true".toList

@[simp] theorem parseBoolean_toString (b : Bool) : parseBoolean (toString b) = b := by
  cases b <;> decide

end Boolean

/-! ## UUIDs -/

/-- The characters of a UUID. -/
def isUuidChar (c : Char) : Bool := c.isDigit || ('a' ≤ c && c ≤ 'f') || c == '-'

/-- Is it five groups of 8, 4, 4, 4 and 12 hexadecimal digits? -/
def isUuid (s : Text) : Bool :=
  s.all isUuidChar && (s.splitOn '-').map List.length == [8, 4, 4, 4, 12]

/-- A UUID, as `UUID.randomUUID().toString()` gives them. -/
structure Uuid where
  /-- Its characters. -/
  text : Text
  isUuid : isUuid text
  deriving DecidableEq

theorem isUuidChar_of_mem {s : Text} (hs : isUuid s) {c : Char} (hc : c ∈ s) : isUuidChar c := by
  rw [isUuid, Bool.and_eq_true, List.all_eq_true] at hs
  exact hs.1 c hc

theorem ne_nil_of_isUuid {s : Text} (hs : isUuid s) : s ≠ [] := by
  rintro rfl
  exact absurd hs (by decide)

end Java
