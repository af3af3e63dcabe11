import Mathlib.Algebra.GroupWithZero.Nat
import Mathlib.Data.List.Nodup
import Mathlib.Data.List.Perm.Basic
import Mathlib.Tactic.Common

/-!
# `java.util.HashMap`

A map is the list of its entries, *in the order it iterates over them*. This
order depends on the hash codes, the capacity and the history of the map, about
which nothing is assumed: adding a key may rearrange the entries in any way
(`Arrangement`). Replacing the value of a key and removing a key keep the order.
-/

namespace Java

/-- A way to rearrange entries. -/
structure Arrangement (α : Type*) where
  /-- The rearranged list. -/
  apply : List α → List α
  perm : ∀ l, (apply l).Perm l

namespace Arrangement

variable {α : Type*}

/-- The entries stay where they are. -/
def id : Arrangement α := ⟨fun l => l, fun _ => .rfl⟩

/-- The entries in the opposite order. -/
def reverse : Arrangement α := ⟨List.reverse, List.reverse_perm⟩

instance : Inhabited (Arrangement α) := ⟨id⟩

end Arrangement

/-- A `HashMap`: its entries, in the order of iteration. -/
structure HashMap (κ ν : Type*) where
  /-- The entries. -/
  entries : List (κ × ν)
  nodup_keys : (entries.map Prod.fst).Nodup

namespace HashMap

variable {κ ν : Type*}

/-- The map without entries. -/
def empty : HashMap κ ν := ⟨[], List.nodup_nil⟩

/-- `HashMap.values`. -/
def values (m : HashMap κ ν) : List ν := m.entries.map Prod.snd

/-- `HashMap.size`. -/
def size (m : HashMap κ ν) : ℕ := m.entries.length

/-- The map with other values under the same keys. -/
def mapValues {ν' : Type*} (m : HashMap κ ν) (f : κ → ν → ν') : HashMap κ ν' where
  entries := m.entries.map fun e => (e.1, f e.1 e.2)
  nodup_keys := by
    rw [List.map_map]
    exact m.nodup_keys

/-- The sum of what the values weigh. -/
def sum (m : HashMap κ ν) (f : ν → ℕ) : ℕ := (m.values.map f).sum

theorem sum_mapValues (m : HashMap κ ν) {g : κ → ν → ν} {f : ν → ℕ}
    (h : ∀ k v, f (g k v) = f v) : (m.mapValues g).sum f = m.sum f := by
  simp only [sum, values, mapValues, List.map_map]
  congr 1
  exact List.map_congr_left fun e _ => h e.1 e.2

@[simp] theorem size_empty : (empty : HashMap κ ν).size = 0 := rfl

theorem length_values (m : HashMap κ ν) : m.values.length = m.size := List.length_map _

variable [DecidableEq κ]

/-- `HashMap.get`; `none` stands for `null`. -/
def get (m : HashMap κ ν) (k : κ) : Option ν := m.entries.lookup k

/-- `HashMap.containsKey`. -/
def containsKey (m : HashMap κ ν) (k : κ) : Bool := (m.get k).isSome

theorem mem_entries {m : HashMap κ ν} {k : κ} {v : ν} : (k, v) ∈ m.entries ↔ m.get k = some v := by
  obtain ⟨entries, hnodup⟩ := m
  simp only [get]
  induction entries with
  | nil => simp
  | cons e entries ih =>
    obtain ⟨k', v'⟩ := e
    obtain ⟨hk, hnodup⟩ := List.nodup_cons.1 hnodup
    rw [List.mem_cons, ih hnodup]
    by_cases h : k = k'
    · subst h
      have hnone : entries.lookup k = none := by
        rw [List.lookup_eq_none_iff]
        intro p hp
        have hne : k ≠ p.1 := fun h => hk (List.mem_map.2 ⟨p, hp, h.symm⟩)
        simpa using hne
      simp [hnone, eq_comm]
    · have hbeq : (k == k') = false := by simpa using h
      simp [List.lookup_cons, h, hbeq]

theorem mem_values {m : HashMap κ ν} {v : ν} : v ∈ m.values ↔ ∃ k, m.get k = some v := by
  simp [values, ← mem_entries]

theorem containsKey_iff {m : HashMap κ ν} {k : κ} : m.containsKey k ↔ ∃ v, m.get k = some v :=
  Option.isSome_iff_exists

/-- The map with the value of `k`, if there is one, changed by `f`. -/
def replace (m : HashMap κ ν) (k : κ) (f : ν → ν) : HashMap κ ν where
  entries := m.entries.map fun e => if e.1 = k then (e.1, f e.2) else e
  nodup_keys := by
    have hfst : (Prod.fst ∘ fun e : κ × ν => if e.1 = k then (e.1, f e.2) else e) = Prod.fst := by
      funext e
      by_cases h : e.1 = k <;> simp [h]
    rw [List.map_map, hfst]
    exact m.nodup_keys

theorem get_eq_none_iff {m : HashMap κ ν} {k : κ} :
    m.get k = none ↔ k ∉ m.entries.map Prod.fst := by
  rw [get, List.lookup_eq_none_iff]
  constructor
  · intro h hk
    obtain ⟨p, hp, rfl⟩ := List.mem_map.1 hk
    exact absurd (h p hp) (by simp)
  · intro h p hp
    have hne : k ≠ p.1 := fun he => h (he ▸ List.mem_map_of_mem hp)
    simpa using hne

/-- `HashMap.put`: the value of a key is replaced in place, and a new key takes
    any place, rearranging the entries. -/
def put (m : HashMap κ ν) (k : κ) (v : ν) (a : Arrangement (κ × ν)) : HashMap κ ν :=
  if h : m.get k = none then
    { entries := a.apply (m.entries ++ [(k, v)])
      nodup_keys := by
        rw [((a.perm _).map _).nodup_iff, List.map_append, List.nodup_append]
        refine ⟨m.nodup_keys, by simp, fun x hx y hy => ?_⟩
        obtain rfl : y = k := by simpa using hy
        exact fun hxy => get_eq_none_iff.1 h (hxy ▸ hx) }
  else m.replace k fun _ => v

/-- `HashMap.remove`. -/
def remove (m : HashMap κ ν) (k : κ) : HashMap κ ν where
  entries := m.entries.filter fun e => e.1 ≠ k
  nodup_keys := (m.nodup_keys.sublist ((List.filter_sublist).map _))

/-! ## What the operations do -/

@[simp] theorem get_empty (k : κ) : (empty : HashMap κ ν).get k = none := rfl

@[simp] theorem get_replace (m : HashMap κ ν) (k l : κ) (f : ν → ν) :
    (m.replace k f).get l = if l = k then (m.get l).map f else m.get l := by
  ext w
  rw [← mem_entries, replace, List.mem_map]
  split_ifs with h
  · rw [Option.map_eq_some_iff]
    constructor
    -- An entry of the new map at `k` comes from the entry of the old one at `k`.
    · rintro ⟨⟨k', v⟩, hv, he⟩
      obtain ⟨rfl, rfl⟩ : k' = l ∧ f v = w := by
        by_cases hk : k' = k <;> simp_all
      exact ⟨v, mem_entries.1 hv, rfl⟩
    · rintro ⟨v, hv, rfl⟩
      exact ⟨(l, v), mem_entries.2 hv, by simp [h]⟩
  · constructor
    · rintro ⟨⟨k', v⟩, hv, he⟩
      by_cases hk : k' = k
      · simp only [hk, if_true, Prod.mk.injEq] at he
        exact absurd he.1.symm h
      · simp only [hk, if_false, Prod.mk.injEq] at he
        obtain ⟨rfl, rfl⟩ := he
        exact mem_entries.1 hv
    · intro hv
      exact ⟨(l, w), mem_entries.2 hv, by simp [h]⟩

@[simp] theorem get_mapValues {ν' : Type*} (m : HashMap κ ν) (f : κ → ν → ν') (k : κ) :
    (m.mapValues f).get k = (m.get k).map (f k) := by
  ext w
  rw [← mem_entries, mapValues, List.mem_map, Option.map_eq_some_iff]
  constructor
  · rintro ⟨⟨k', v⟩, hv, he⟩
    obtain ⟨rfl, rfl⟩ := Prod.mk.inj he
    exact ⟨v, mem_entries.1 hv, rfl⟩
  · rintro ⟨v, hv, rfl⟩
    exact ⟨(k, v), mem_entries.2 hv, rfl⟩

@[simp] theorem get_put (m : HashMap κ ν) (k l : κ) (v : ν) (a : Arrangement (κ × ν)) :
    (m.put k v a).get l = if l = k then some v else m.get l := by
  by_cases hk : m.get k = none
  · ext w
    rw [put, dif_pos hk, ← mem_entries, (a.perm _).mem_iff, List.mem_append, mem_entries,
      List.mem_singleton, Prod.mk.injEq]
    split_ifs with h
    · simp [h, hk, eq_comm]
    · simp [h]
  · obtain ⟨v', hv'⟩ := Option.ne_none_iff_exists'.1 hk
    rw [put, dif_neg hk, get_replace]
    split_ifs with h
    · simp [h, hv']
    · rfl

@[simp] theorem get_remove (m : HashMap κ ν) (k l : κ) :
    (m.remove k).get l = if l = k then none else m.get l := by
  ext w
  rw [← mem_entries, remove, List.mem_filter, mem_entries]
  split_ifs with h <;> simp [h]

theorem replace_replace (m : HashMap κ ν) (k : κ) (f g : ν → ν) :
    (m.replace k f).replace k g = m.replace k fun v => g (f v) := by
  simp only [replace, List.map_map, mk.injEq]
  refine List.map_congr_left fun e _ => ?_
  by_cases h : e.1 = k <;> simp [h]

/-- The values after a new key has been put, up to their order. -/
theorem values_put_perm {m : HashMap κ ν} {k : κ} (hk : m.get k = none) (v : ν)
    (a : Arrangement (κ × ν)) : (m.put k v a).values.Perm (v :: m.values) := by
  rw [values, put, dif_pos hk]
  refine ((a.perm _).map _).trans ?_
  rw [List.map_append]
  exact List.perm_append_comm

/-- Two maps with the same entries have the same values, up to their order. -/
theorem values_perm_of_get {m m' : HashMap κ ν} (h : ∀ k, m.get k = m'.get k) :
    m.values.Perm m'.values := by
  refine List.Perm.map _ ((List.perm_ext_iff_of_nodup ?_ ?_).2 fun ⟨k, v⟩ => ?_)
  · exact m.nodup_keys.of_map
  · exact m'.nodup_keys.of_map
  · rw [mem_entries, mem_entries, h]

/-- The values are that of a key, and the others. -/
theorem values_perm_cons {m : HashMap κ ν} {k : κ} {v : ν} (hv : m.get k = some v) :
    m.values.Perm (v :: (m.remove k).values) := by
  have hput : ((m.remove k).put k v .id).values.Perm (v :: (m.remove k).values) :=
    values_put_perm (by simp) v .id
  refine List.Perm.trans (values_perm_of_get fun l => ?_) hput
  by_cases hl : l = k
  · simp [hl, hv]
  · simp [hl]

/-- A value that is moved to a new key is still there, and so are the others. -/
theorem values_remove_put_perm {m : HashMap κ ν} {k l : κ} {v : ν} (hl : m.get l = some v)
    (hk : m.get k = none) (a : Arrangement (κ × ν)) :
    ((m.remove l).put k v a).values.Perm m.values :=
  (values_put_perm (by simp [hk]) v a).trans (values_perm_cons hl).symm

/-! ## Sizes -/

@[simp] theorem size_replace (m : HashMap κ ν) (k : κ) (f : ν → ν) :
    (m.replace k f).size = m.size := List.length_map _

theorem size_remove_le (m : HashMap κ ν) (k : κ) : (m.remove k).size ≤ m.size :=
  List.length_filter_le _ _

/-- A key that is there takes a place. -/
theorem size_remove_add_one {m : HashMap κ ν} {k : κ} {v : ν} (hv : m.get k = some v) :
    (m.remove k).size + 1 = m.size := by
  rw [← length_values, ← length_values, (values_perm_cons hv).length_eq, List.length_cons]

/-- A new key takes one more place. -/
theorem size_put_of_new {m : HashMap κ ν} {k : κ} (hk : m.get k = none) (v : ν)
    (a : Arrangement (κ × ν)) : (m.put k v a).size = m.size + 1 := by
  rw [← length_values, ← length_values, (values_put_perm hk v a).length_eq, List.length_cons]

theorem size_put_of_mem {m : HashMap κ ν} {k : κ} (hk : m.get k ≠ none) (v : ν)
    (a : Arrangement (κ × ν)) : (m.put k v a).size = m.size := by
  rw [put, dif_neg hk, size_replace]

/-- Moving a value to a key leaves no more keys than before. -/
theorem size_remove_put_le {m : HashMap κ ν} {k l : κ} {v : ν} (hl : m.get l = some v)
    (a : Arrangement (κ × ν)) : ((m.remove l).put k v a).size ≤ m.size := by
  have hremove := size_remove_add_one hl
  by_cases hk : (m.remove l).get k = none
  · rw [size_put_of_new hk]
    omega
  · rw [size_put_of_mem hk]
    omega

/-! ## Sums -/

theorem sum_replace_of_eq (m : HashMap κ ν) (k : κ) {g : ν → ν} {f : ν → ℕ}
    (h : ∀ v, f (g v) = f v) : (m.replace k g).sum f = m.sum f := by
  simp only [sum, values, replace, List.map_map]
  congr 1
  refine List.map_congr_left fun e _ => ?_
  by_cases he : e.1 = k <;> simp [he, h]

theorem sum_put {m : HashMap κ ν} {k : κ} (hk : m.get k = none) (v : ν)
    (a : Arrangement (κ × ν)) (f : ν → ℕ) : (m.put k v a).sum f = f v + m.sum f := by
  rw [sum, ((values_put_perm hk v a).map f).sum_nat, List.map_cons, List.sum_cons, ← sum]

theorem sum_eq_add {m : HashMap κ ν} {k : κ} {v : ν} (hv : m.get k = some v) (f : ν → ℕ) :
    m.sum f = f v + (m.remove k).sum f := by
  rw [sum, ((values_perm_cons hv).map f).sum_nat, List.map_cons, List.sum_cons, ← sum]

/-- Replacing a value replaces what it weighs. -/
theorem sum_replace {m : HashMap κ ν} {k : κ} {v : ν} (hv : m.get k = some v) (g : ν → ν)
    (f : ν → ℕ) : (m.replace k g).sum f + f v = m.sum f + f (g v) := by
  have hothers : ((m.replace k g).remove k).sum f = (m.remove k).sum f := by
    refine List.Perm.sum_nat (List.Perm.map f (values_perm_of_get fun l => ?_))
    by_cases hl : l = k <;> simp [hl]
  rw [sum_eq_add hv, sum_eq_add (show (m.replace k g).get k = some (g v) by simp [hv]), hothers]
  omega

end HashMap

end Java
