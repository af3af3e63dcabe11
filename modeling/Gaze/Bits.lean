import Mathlib.Algebra.Order.Group.Nat
import Mathlib.Tactic.Common
import Mathlib.Tactic.Ring

/-!
# Strings of bits

The bits of a number, the most significant first (`ofNat`), and the number of a string of bits
(`toNat`). The first bits are those of a quotient (`ofNat_add`), so that shifts of a number drop
or append bits, and to be the beginning of another string is a fact about quotients
(`isPrefix_iff`).
-/

namespace Bits

/-- The `width` low bits of a number. -/
def ofNat : ℕ → ℕ → List Bool
  | 0, _ => []
  | width + 1, n => n.testBit width :: ofNat width n

/-- The number of a string of bits. -/
def toNat : List Bool → ℕ
  | [] => 0
  | b :: bits => b.toNat * 2 ^ bits.length + toNat bits

variable {v w n : ℕ} {a b : List Bool}

@[simp] theorem ofNat_zero (n : ℕ) : ofNat 0 n = [] := rfl

@[simp] theorem length_ofNat (w n : ℕ) : (ofNat w n).length = w := by
  induction w with
  | zero => rfl
  | succ w ih => rw [ofNat, List.length_cons, ih]

/-- The first bits are those of the quotient. -/
theorem ofNat_add (v w n : ℕ) : ofNat (v + w) n = ofNat v (n / 2 ^ w) ++ ofNat w n := by
  induction v with
  | zero => rw [Nat.zero_add, ofNat_zero, List.nil_append]
  | succ v ih =>
    rw [Nat.succ_add, ofNat, ofNat, ih, List.cons_append, Nat.testBit_div_two_pow, Nat.add_comm]

theorem ofNat_mod (w n : ℕ) (hv : v ≤ w) : ofNat v (n % 2 ^ w) = ofNat v n := by
  induction v with
  | zero => rfl
  | succ v ih =>
    rw [ofNat, ofNat, ih (by omega), Nat.testBit_mod_two_pow, decide_eq_true (by omega),
      Bool.true_and]

/-- Zeros are appended. -/
theorem ofNat_mul (v w n : ℕ) : ofNat (v + w) (n * 2 ^ w) = ofNat v n ++ ofNat w 0 := by
  rw [ofNat_add, Nat.mul_div_cancel _ (Nat.two_pow_pos w),
    ← ofNat_mod w (n * 2 ^ w) (Nat.le_refl w),
    Nat.mul_mod_left]

theorem take_ofNat (v w n : ℕ) : (ofNat (v + w) n).take v = ofNat v (n / 2 ^ w) := by
  rw [ofNat_add, List.take_left' (length_ofNat ..)]

theorem drop_ofNat (v w n : ℕ) : (ofNat (v + w) n).drop v = ofNat w n := by
  rw [ofNat_add, List.drop_left' (length_ofNat ..)]

@[simp] theorem toNat_nil : toNat [] = 0 := rfl

theorem toNat_append (a b : List Bool) : toNat (a ++ b) = toNat a * 2 ^ b.length + toNat b := by
  induction a with
  | nil => simp
  | cons bit a ih =>
    rw [List.cons_append, toNat, toNat, ih, List.length_append, Nat.pow_add]
    ring

theorem toNat_lt (a : List Bool) : toNat a < 2 ^ a.length := by
  induction a with
  | nil => decide
  | cons bit a ih =>
    rw [toNat, List.length_cons, Nat.pow_succ]
    cases bit <;> simp <;> omega

theorem toNat_testBit (w n : ℕ) : (n.testBit w).toNat = n / 2 ^ w % 2 := by
  rw [Nat.testBit_eq_decide_div_mod_eq]
  rcases Nat.mod_two_eq_zero_or_one (n / 2 ^ w) with h | h <;> simp [h]

theorem toNat_ofNat (w n : ℕ) : toNat (ofNat w n) = n % 2 ^ w := by
  induction w with
  | zero => simp [Nat.mod_one]
  | succ w ih =>
    rw [ofNat, toNat, length_ofNat, ih, toNat_testBit, Nat.pow_succ, Nat.mod_mul]
    ring

theorem toNat_ofNat_of_lt (h : n < 2 ^ w) : toNat (ofNat w n) = n := by
  rw [toNat_ofNat, Nat.mod_eq_of_lt h]

theorem ofNat_toNat (a : List Bool) : ofNat a.length (toNat a) = a := by
  induction a with
  | nil => rfl
  | cons bit a ih =>
    have hlt := toNat_lt a
    have hbit : (bit.toNat * 2 ^ a.length + toNat a).testBit a.length = bit := by
      rw [Nat.testBit_eq_decide_div_mod_eq, Nat.mul_comm, Nat.mul_add_div (Nat.two_pow_pos _),
        Nat.div_eq_of_lt hlt]
      cases bit <;> rfl
    have hrest : ofNat a.length (bit.toNat * 2 ^ a.length + toNat a) = a := by
      rw [← ofNat_mod a.length _ (Nat.le_refl _), Nat.mul_add_mod_of_lt hlt, ih]
    rw [List.length_cons, ofNat, toNat, hbit, hrest]

/-! ## Shifts -/

theorem toNat_replicate (k : ℕ) : toNat (List.replicate k false) = 0 := by
  induction k with
  | zero => rfl
  | succ k ih =>
    rw [List.replicate_succ, toNat, ih, Bool.toNat_false, Nat.zero_mul]

theorem toNat_append_replicate (a : List Bool) (k : ℕ) :
    toNat (a ++ List.replicate k false) = toNat a * 2 ^ k := by
  rw [toNat_append, List.length_replicate, toNat_replicate, Nat.add_zero]

/-- A shift to the left drops the first bits. -/
theorem toNat_shiftLeft (h : v ≤ a.length) :
    toNat a <<< v % 2 ^ a.length = toNat (a.drop v ++ List.replicate v false) := by
  have hsplit : toNat a = toNat (a.take v) * 2 ^ (a.drop v).length + toNat (a.drop v) := by
    rw [← toNat_append, List.take_append_drop]
  have hlength : a.length = (a.drop v).length + v := by
    rw [List.length_drop, Nat.sub_add_cancel h]
  have hlt : toNat (a.drop v) * 2 ^ v < 2 ^ ((a.drop v).length + v) := by
    rw [Nat.pow_add]
    exact Nat.mul_lt_mul_of_pos_right (toNat_lt _) (Nat.two_pow_pos v)
  rw [toNat_append_replicate, Nat.shiftLeft_eq, hsplit, Nat.add_mul, hlength, Nat.mul_assoc,
    ← Nat.pow_add, Nat.mul_add_mod_of_lt hlt]

/-- A shift to the right drops the last bits. -/
theorem toNat_shiftRight (a : List Bool) (v : ℕ) :
    toNat a >>> (a.length - v) = toNat (a.take v) := by
  have hlength : a.length - v = (a.drop v).length := List.length_drop.symm
  have hsplit : toNat a = 2 ^ (a.drop v).length * toNat (a.take v) + toNat (a.drop v) := by
    rw [Nat.mul_comm, ← toNat_append, List.take_append_drop]
  rw [Nat.shiftRight_eq_div_pow, hlength, hsplit, Nat.mul_add_div (Nat.two_pow_pos _),
    Nat.div_eq_of_lt (toNat_lt _), Nat.add_zero]

/-- The last bits are written over zeros. -/
theorem toNat_or (a b : List Bool) :
    toNat (a ++ List.replicate b.length false) ||| toNat b = toNat (a ++ b) := by
  rw [toNat_append_replicate, toNat_append, Nat.mul_comm, Nat.two_pow_add_eq_or_of_lt (toNat_lt b)]

/-- Numbers with the same bits are the same. -/
theorem ofNat_inj {m : ℕ} (hm : m < 2 ^ w) (hn : n < 2 ^ w) (h : ofNat w m = ofNat w n) :
    m = n := by
  rw [← toNat_ofNat_of_lt hm, h, toNat_ofNat_of_lt hn]

theorem toNat_inj (h : a.length = b.length) (heq : toNat a = toNat b) : a = b := by
  rw [← ofNat_toNat a, h, heq, ofNat_toNat]

/-- The beginnings of a string are those of its quotients. -/
theorem isPrefix_iff :
    a <+: b ↔ a.length ≤ b.length ∧ toNat b / 2 ^ (b.length - a.length) = toNat a := by
  have hquotient : ∀ a c : List Bool, toNat (a ++ c) / 2 ^ c.length = toNat a := by
    intro a c
    rw [toNat_append, Nat.mul_comm, Nat.mul_add_div (Nat.two_pow_pos _),
      Nat.div_eq_of_lt (toNat_lt c), Nat.add_zero]
  constructor
  · rintro ⟨c, rfl⟩
    rw [List.length_append, Nat.add_sub_cancel_left]
    exact ⟨Nat.le_add_right _ _, hquotient a c⟩
  · rintro ⟨hle, hdiv⟩
    refine List.prefix_iff_eq_take.2 (toNat_inj (by simpa using hle) ?_)
    rw [← hdiv, ← hquotient (b.take a.length) (b.drop a.length), List.take_append_drop,
      List.length_drop]

/-- A string has its place, among those of `width` bits, where its beginnings have theirs. -/
theorem place_of_isPrefix {width : ℕ} (h : a <+: b) (hwidth : b.length ≤ width) :
    toNat a * 2 ^ (width - a.length) ≤ toNat b * 2 ^ (width - b.length) ∧
      toNat b * 2 ^ (width - b.length) < (toNat a + 1) * 2 ^ (width - a.length) := by
  obtain ⟨c, rfl⟩ := h
  rw [List.length_append] at hwidth ⊢
  have hplace : width - a.length = c.length + (width - (a.length + c.length)) := by omega
  rw [toNat_append, hplace, Nat.pow_add, ← Nat.mul_assoc, ← Nat.mul_assoc]
  refine ⟨Nat.mul_le_mul_right _ (Nat.le_add_right _ _), ?_⟩
  refine Nat.mul_lt_mul_of_pos_right ?_ (Nat.two_pow_pos _)
  rw [Nat.add_mul, Nat.one_mul]
  exact Nat.add_lt_add_left (toNat_lt c) _

/-- Strings with different places are not the beginnings of each other. -/
theorem not_isPrefix_of_place {width : ℕ} (ha : a.length ≤ width) (hb : b.length ≤ width)
    (h : (toNat a + 1) * 2 ^ (width - a.length) ≤ toNat b * 2 ^ (width - b.length)) :
    ¬ a <+: b ∧ ¬ b <+: a := by
  constructor
  · intro hab
    exact absurd (place_of_isPrefix hab hb).2 (Nat.not_lt_of_le h)
  · intro hba
    have hle := (place_of_isPrefix hba ha).1
    have hlt : toNat a * 2 ^ (width - a.length) < (toNat a + 1) * 2 ^ (width - a.length) :=
      Nat.mul_lt_mul_of_pos_right (Nat.lt_succ_self _) (Nat.two_pow_pos _)
    exact absurd (hlt.trans_le h) (Nat.not_lt_of_le hle)

end Bits
