import Mathlib.Algebra.GroupWithZero.Nat
import Mathlib.Algebra.Order.Group.Nat
import Mathlib.Data.List.Nodup
import Mathlib.Data.List.Perm.Subperm
import Mathlib.Tactic.Common

/-!
# Drawing without replacement

Items are drawn from a list of them, each once, until none is left; then all of them may
be drawn again. What has been drawn so far is then made of *rounds*, in each of which
every item is drawn once, and of the items of the current one.

* `Fair`: a list, cut into blocks as long as the items, has all of them in each full block,
  and no item twice in the last one.
* `Drawn`: what has been drawn before the current round, and in it. What has been drawn is
  fair (`Drawn.fair`).
* `Drawn.exists_left`: as long as the round is not complete, there is something to draw.
-/

namespace Draws

variable {α : Type*} {items used block l : List α}

/-- The block number `k` of a list, cut into blocks of length `n`. -/
def blockAt (n k : ℕ) (l : List α) : List α := (l.drop (k * n)).take n

/-- The full blocks of the list are the items in some order, and no block has an item twice. -/
structure Fair (items l : List α) : Prop where
  full : ∀ k, (blockAt items.length k l).length = items.length →
    (blockAt items.length k l).Perm items
  nodup : ∀ k, (blockAt items.length k l).Nodup

theorem blockAt_zero (n : ℕ) (l : List α) : blockAt n 0 l = l.take n := by
  simp [blockAt]

theorem blockAt_append_zero (hblock : block.length = items.length) :
    blockAt items.length 0 (block ++ l) = block := by
  rw [blockAt_zero, ← hblock, List.take_left]

theorem blockAt_append_succ (hblock : block.length = items.length) (k : ℕ) :
    blockAt items.length (k + 1) (block ++ l) = blockAt items.length k l := by
  have hdrop : (block ++ l).drop ((k + 1) * items.length) = l.drop (k * items.length) := by
    rw [List.drop_append, hblock, List.drop_eq_nil_of_le (by rw [hblock, Nat.succ_mul]; omega),
      List.nil_append, Nat.succ_mul, Nat.add_sub_cancel]
  rw [blockAt, hdrop, blockAt]

/-- As many different items as there are, are all the items. -/
theorem perm_of_length_eq (hnodup : used.Nodup) (hsub : used ⊆ items)
    (hlength : used.length = items.length) : used.Perm items :=
  (List.subperm_of_subset hnodup hsub).perm_of_length_le hlength.ge

/-- A round that is not over is fair. -/
theorem fair_of_nodup (hnodup : used.Nodup) (hsub : used ⊆ items) : Fair items used := by
  have hle : used.length ≤ items.length := (List.subperm_of_subset hnodup hsub).length_le
  have hfirst : blockAt items.length 0 used = used := by
    rw [blockAt_zero, List.take_of_length_le hle]
  have hnext : ∀ k, blockAt items.length (k + 1) used = [] := fun k => by
    rw [blockAt, List.drop_eq_nil_of_le (hle.trans (Nat.le_mul_of_pos_left _ (Nat.succ_pos k))),
      List.take_nil]
  constructor
  · intro k hlength
    cases k with
    | zero =>
      rw [hfirst] at hlength ⊢
      exact perm_of_length_eq hnodup hsub hlength
    | succ k =>
      rw [hnext] at hlength ⊢
      rw [List.length_eq_zero_iff.1 hlength.symm]
  · intro k
    cases k with
    | zero => rwa [hfirst]
    | succ k => rw [hnext]; exact List.nodup_nil

/-- Whole rounds keep what follows fair. -/
theorem Fair.append (hitems : items.Nodup) (hblock : block.Perm items) (h : Fair items l) :
    Fair items (block ++ l) := by
  constructor
  · intro k hlength
    cases k with
    | zero => rwa [blockAt_append_zero hblock.length_eq]
    | succ k =>
      rw [blockAt_append_succ hblock.length_eq] at hlength ⊢
      exact h.full k hlength
  · intro k
    cases k with
    | zero => rw [blockAt_append_zero hblock.length_eq]; exact hblock.nodup_iff.2 hitems
    | succ k => rw [blockAt_append_succ hblock.length_eq]; exact h.nodup k

/-- What has been drawn: whole rounds, and then some of the items, each once. -/
structure Drawn (items used l : List α) : Prop where
  rounds : ∃ full : List (List α), (∀ block ∈ full, block.Perm items) ∧ l = full.flatten ++ used
  nodup : used.Nodup
  subset : used ⊆ items

namespace Drawn

theorem nil (items : List α) : Drawn items [] [] :=
  ⟨⟨[], by simp, rfl⟩, List.nodup_nil, List.nil_subset _⟩

/-- What has been drawn is fair. -/
theorem fair (hitems : items.Nodup) (h : Drawn items used l) : Fair items l := by
  obtain ⟨⟨full, hfull, rfl⟩, hnodup, hsub⟩ := h
  induction full with
  | nil => exact fair_of_nodup hnodup hsub
  | cons block full ih =>
    rw [List.flatten_cons, List.append_assoc]
    exact (ih fun b hb => hfull b (List.mem_cons_of_mem _ hb)).append hitems
      (hfull block List.mem_cons_self)

/-- A complete round is followed by another one. -/
theorem restart (h : Drawn items used l) (hlength : used.length = items.length) :
    Drawn items [] l := by
  obtain ⟨⟨full, hfull, rfl⟩, hnodup, hsub⟩ := h
  refine ⟨⟨full ++ [used], ?_, by simp⟩, List.nodup_nil, List.nil_subset _⟩
  intro block hblock
  rcases List.mem_append.1 hblock with hblock | hblock
  · exact hfull block hblock
  · rw [List.mem_singleton.1 hblock]
    exact perm_of_length_eq hnodup hsub hlength

/-- An item is drawn that has not been drawn in this round. -/
theorem draw {a : α} (h : Drawn items used l) (ha : a ∈ items) (hnew : a ∉ used) :
    Drawn items (used ++ [a]) (l ++ [a]) := by
  obtain ⟨⟨full, hfull, rfl⟩, hnodup, hsub⟩ := h
  refine ⟨⟨full, hfull, List.append_assoc _ _ _⟩, ?_, ?_⟩
  · exact List.nodup_append.2 ⟨hnodup, List.nodup_singleton a, fun b hb c hc hbc =>
      hnew (List.mem_singleton.1 hc ▸ hbc ▸ hb)⟩
  · exact List.append_subset.2 ⟨hsub, fun b hb => List.mem_singleton.1 hb ▸ ha⟩

/-- As long as the round is not complete, there is something to draw. -/
theorem exists_left (hitems : items.Nodup) (h : Drawn items used l)
    (hlength : used.length ≠ items.length) : ∃ a ∈ items, a ∉ used := by
  by_contra hnone
  push Not at hnone
  have hle : used.length ≤ items.length := (List.subperm_of_subset h.nodup h.subset).length_le
  have hge : items.length ≤ used.length := (List.subperm_of_subset hitems hnone).length_le
  exact hlength (hle.antisymm hge)

end Drawn

end Draws
