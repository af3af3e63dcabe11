import Mathlib.Algebra.GroupWithZero.Nat
import Mathlib.Tactic.Common

/-!
# The network byte order

An integer of 32 bits goes through a connection as four bytes, the most significant
first: `ntohl_htonl` and `htonl_ntohl`.
-/

namespace Socket

/-- The bytes of an integer. -/
def htonl (n : Int32) : List UInt8 :=
  [n.toUInt32.toNat / 2 ^ 24, n.toUInt32.toNat / 2 ^ 16, n.toUInt32.toNat / 2 ^ 8,
    n.toUInt32.toNat].map UInt8.ofNat

/-- The integer of four bytes. -/
def ntohl (bytes : List UInt8) : Int32 :=
  (UInt32.ofNat (bytes.foldl (fun n b => n * 2 ^ 8 + b.toNat) 0)).toInt32

@[simp] theorem length_htonl (n : Int32) : (htonl n).length = 4 := rfl

@[simp] theorem ntohl_htonl (n : Int32) : ntohl (htonl n) = n := by
  have hlt : n.toUInt32.toNat < 2 ^ 32 := n.toUInt32.toNat_lt
  have hnat : (htonl n).foldl (fun n b => n * 2 ^ 8 + b.toNat) 0 = n.toUInt32.toNat := by
    simp only [htonl, List.map_cons, List.map_nil, List.foldl_cons, List.foldl_nil,
      UInt8.toNat_ofNat']
    omega
  rw [ntohl, hnat, UInt32.ofNat_toNat]
  rfl

theorem ofNat_eq_of_mod {n : ℕ} {b : UInt8} (h : n % 2 ^ 8 = b.toNat) : UInt8.ofNat n = b :=
  UInt8.toNat_inj.1 (UInt8.toNat_ofNat'.trans h)

theorem htonl_ntohl {bytes : List UInt8} (h : bytes.length = 4) : htonl (ntohl bytes) = bytes := by
  obtain ⟨a, b, c, d, rfl⟩ : ∃ a b c d, bytes = [a, b, c, d] :=
    match bytes, h with
    | [a, b, c, d], _ => ⟨a, b, c, d, rfl⟩
  have ha := a.toNat_lt
  have hb := b.toNat_lt
  have hc := c.toNat_lt
  have hd := d.toNat_lt
  have hnat : (ntohl [a, b, c, d]).toUInt32.toNat =
      (((0 * 2 ^ 8 + a.toNat) * 2 ^ 8 + b.toNat) * 2 ^ 8 + c.toNat) * 2 ^ 8 + d.toNat := by
    rw [ntohl, UInt32.toUInt32_toInt32, UInt32.toNat_ofNat']
    exact Nat.mod_eq_of_lt (by simp only [List.foldl_cons, List.foldl_nil]; omega)
  simp only [htonl, hnat, List.map_cons, List.map_nil]
  rw [ofNat_eq_of_mod (b := a) (by omega), ofNat_eq_of_mod (b := b) (by omega),
    ofNat_eq_of_mod (b := c) (by omega), ofNat_eq_of_mod (b := d) (by omega)]

end Socket
