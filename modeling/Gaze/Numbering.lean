import Mathlib.Data.List.Perm.Subperm
import Mathlib.Data.List.Nodup
import Mathlib.Tactic.Common

/-!
# Free numbers

Things are given numbered names, some of which are taken. The first free number from a start
on is found by trying one number after the other.

* `isFirstFree_firstFree`: there is one, where different numbers have different names.
* `IsFirstFree.congr`: it depends on which of the names are taken only.
-/

namespace Numbering

variable {ν : Type*} {name : ℕ → ν} {taken taken' : List ν} {start n n' : ℕ}

/-- The first number from `start` on whose name is free. -/
structure IsFirstFree (name : ℕ → ν) (taken : List ν) (start n : ℕ) : Prop where
  le : start ≤ n
  free : name n ∉ taken
  taken : ∀ m, start ≤ m → m < n → name m ∈ taken

theorem IsFirstFree.unique (h : IsFirstFree name taken start n)
    (h' : IsFirstFree name taken start n') : n = n' := by
  rcases Nat.lt_trichotomy n n' with hlt | heq | hgt
  · exact absurd (h'.taken n h.le hlt) h.free
  · exact heq
  · exact absurd (h.taken n' h'.le hgt) h'.free

theorem IsFirstFree.congr (h : IsFirstFree name taken start n)
    (htaken : ∀ m, name m ∈ taken ↔ name m ∈ taken') : IsFirstFree name taken' start n :=
  ⟨h.le, fun hmem => h.free ((htaken n).2 hmem), fun m hle hlt => (htaken m).1 (h.taken m hle hlt)⟩

variable [DecidableEq ν]

/-- Try one number after the other, `fuel` times at most. -/
def probe (name : ℕ → ν) (taken : List ν) : ℕ → ℕ → ℕ
  | 0, n => n
  | fuel + 1, n => if name n ∈ taken then probe name taken fuel (n + 1) else n

/-- The first free number, as it is found with as many tries as names are taken. -/
def firstFree (name : ℕ → ν) (taken : List ν) (start : ℕ) : ℕ :=
  probe name taken taken.length start

/-- Of the names of more numbers than names are taken, one is free. -/
theorem exists_free (hname : Function.Injective name) (taken : List ν) (start : ℕ) :
    ∃ i ≤ taken.length, name (start + i) ∉ taken := by
  by_contra hall
  push Not at hall
  have hsub : (List.range (taken.length + 1)).map (fun i => name (start + i)) ⊆ taken := by
    intro x hx
    obtain ⟨i, hi, rfl⟩ := List.mem_map.1 hx
    exact hall i (Nat.lt_succ_iff.1 (List.mem_range.1 hi))
  have hnodup : ((List.range (taken.length + 1)).map fun i => name (start + i)).Nodup :=
    List.nodup_range.map fun i j hij => Nat.add_left_cancel (hname hij)
  have hlength := (List.subperm_of_subset hnodup hsub).length_le
  rw [List.length_map, List.length_range] at hlength
  omega

theorem isFirstFree_probe {fuel : ℕ} (h : ∃ i ≤ fuel, name (start + i) ∉ taken) :
    IsFirstFree name taken start (probe name taken fuel start) := by
  induction fuel generalizing start with
  | zero =>
    obtain ⟨i, hi, hfree⟩ := h
    rw [Nat.le_zero.1 hi] at hfree
    exact ⟨Nat.le_refl _, hfree, fun m hle hlt => absurd hlt (Nat.not_lt.2 hle)⟩
  | succ fuel ih =>
    rw [probe]
    split_ifs with hstart
    · -- The free number is not the first one that is tried.
      obtain ⟨i, hi, hfree⟩ := h
      cases i with
      | zero => exact absurd hstart hfree
      | succ i =>
        have hrest := ih ⟨i, Nat.succ_le_succ_iff.1 hi, by rwa [Nat.succ_add_eq_add_succ]⟩
        refine ⟨Nat.le_of_succ_le hrest.le, hrest.free, fun m hle hlt => ?_⟩
        rcases Nat.eq_or_lt_of_le hle with rfl | hle
        · exact hstart
        · exact hrest.taken m hle hlt
    · exact ⟨Nat.le_refl _, hstart, fun m hle hlt => absurd hlt (Nat.not_lt.2 hle)⟩

theorem isFirstFree_firstFree (hname : Function.Injective name) (taken : List ν) (start : ℕ) :
    IsFirstFree name taken start (firstFree name taken start) :=
  isFirstFree_probe (exists_free hname taken start)

/-- Names that are not of these numbers do not matter. -/
theorem firstFree_congr (hname : Function.Injective name)
    (htaken : ∀ m, name m ∈ taken ↔ name m ∈ taken') :
    firstFree name taken start = firstFree name taken' start :=
  ((isFirstFree_firstFree hname taken start).congr htaken).unique
    (isFirstFree_firstFree hname taken' start)

end Numbering
