import Mathlib.Data.List.AList

/-!
# Sequences of writes

A map is written to, a key and a value at a time. Where a write replaces what the key had, the
map holds the *latest* value of each key; where it keeps it, the *first* one.

* `lookup_foldl_insert`: writes that replace.
* `lookup_foldl_insertNew`: writes that keep.
* `first_eq_latest`: there is no difference where all the writes of a key have the same value.
-/

namespace Writes

universe u v

variable {α : Type u} {β : Type v} [DecidableEq α] {k : α}

/-- The first value that the writes have for a key. -/
def first (k : α) : List (α × β) → Option β
  | [] => none
  | w :: ws => if w.1 = k then some w.2 else first k ws

/-- The last value that the writes have for a key. -/
def latest (k : α) : List (α × β) → Option β
  | [] => none
  | w :: ws => (latest k ws).or (if w.1 = k then some w.2 else none)

/-- The write of a key that the map may have already. -/
def insertNew (m : AList fun _ : α => β) (k : α) (v : β) : AList fun _ : α => β :=
  if k ∈ m then m else m.insert k v

@[simp] theorem first_nil : first k ([] : List (α × β)) = none := rfl

theorem lookup_insert (m : AList fun _ : α => β) (k' : α) (v : β) :
    (m.insert k' v).lookup k = if k' = k then some v else m.lookup k := by
  split_ifs with h
  · rw [h, AList.lookup_insert]
  · exact AList.lookup_insert_ne (Ne.symm h)

theorem lookup_insertNew (m : AList fun _ : α => β) (k' : α) (v : β) :
    (insertNew m k' v).lookup k = (m.lookup k).or (if k' = k then some v else none) := by
  unfold insertNew
  split_ifs with hmem hk hk
  · obtain ⟨b, hb⟩ := Option.isSome_iff_exists.1 (AList.lookup_isSome.2 hmem)
    rw [← hk, hb, Option.some_or]
  · rw [Option.or_none]
  · rw [← hk, AList.lookup_eq_none.2 hmem, AList.lookup_insert, Option.none_or]
  · rw [AList.lookup_insert_ne (Ne.symm hk), Option.or_none]

/-- Writes that replace leave the latest values. -/
theorem lookup_foldl_insert (ws : List (α × β)) (m : AList fun _ : α => β) :
    (ws.foldl (fun m w => m.insert w.1 w.2) m).lookup k = (latest k ws).or (m.lookup k) := by
  induction ws generalizing m with
  | nil => rfl
  | cons w ws ih =>
    rw [List.foldl_cons, ih, lookup_insert, latest, Option.or_assoc]
    split_ifs <;> rfl

/-- Writes that keep leave the first values. -/
theorem lookup_foldl_insertNew (ws : List (α × β)) (m : AList fun _ : α => β) :
    (ws.foldl (fun m w => insertNew m w.1 w.2) m).lookup k = (m.lookup k).or (first k ws) := by
  induction ws generalizing m with
  | nil => rw [List.foldl_nil, first_nil, Option.or_none]
  | cons w ws ih =>
    rw [List.foldl_cons, ih, lookup_insertNew, first, Option.or_assoc]
    split_ifs <;> rfl

/-- The latest value has been written. -/
theorem mem_of_latest {ws : List (α × β)} {v : β} (h : latest k ws = some v) : (k, v) ∈ ws := by
  induction ws with
  | nil => cases h
  | cons w ws ih =>
    rw [latest, Option.or_eq_some_iff] at h
    rcases h with hlater | ⟨-, hw⟩
    · exact List.mem_cons_of_mem w (ih hlater)
    · split_ifs at hw with hk
      obtain rfl := Option.some.inj hw
      exact hk ▸ List.mem_cons_self

/-- Where all the writes of a key have the same value, the first and the latest one agree. -/
theorem first_eq_latest {ws : List (α × β)}
    (h : ∀ w ∈ ws, ∀ w' ∈ ws, w.1 = w'.1 → w.2 = w'.2) : first k ws = latest k ws := by
  induction ws with
  | nil => rfl
  | cons w ws ih =>
    have hrest : first k ws = latest k ws := ih fun w₁ h₁ w₂ h₂ =>
      h w₁ (List.mem_cons_of_mem w h₁) w₂ (List.mem_cons_of_mem w h₂)
    rw [first, latest, hrest]
    split_ifs with hk
    · cases hlatest : latest k ws with
      | none => rfl
      | some v =>
        -- The later writes of the key have the value of this one.
        have hmem := List.mem_cons_of_mem w (mem_of_latest hlatest)
        exact congrArg some (h w List.mem_cons_self _ hmem hk)
    · rw [Option.or_none]

end Writes
