import Mathlib.Data.List.DropRight
import Mathlib.Data.List.Infix
import Mathlib.Tactic.Common

/-!
# The pieces of a list

A list is cut at the occurrences of a delimiter, which is a list too. The occurrences may
overlap each other; what comes before the first one has none.

* `find_eq_some_iff`, `find_eq_none_iff`: the position of the first occurrence.
* `not_infix_take_of_find`: there is no occurrence before it.
* `IsSplit`: the pieces, joined with the delimiter, are the list, and no piece has an occurrence
  of the delimiter.
* `IsSplit.getLast_eq`: the last piece is what follows the last occurrence, if the delimiter has
  one element.
-/

namespace Pieces

universe u

variable {α : Type u} {d p s : List α} {pieces : List (List α)} {n : ℕ}

/-! ## Occurrences -/

section Find

variable [DecidableEq α]

/-- The position of the first occurrence of `d` in `s`. -/
def find (d s : List α) : Option ℕ :=
  (List.range (s.length + 1)).find? fun n => d.isPrefixOf (s.drop n)

theorem find_eq_some_iff :
    find d s = some n ↔ n ≤ s.length ∧ d <+: s.drop n ∧ ∀ m < n, ¬ d <+: s.drop m := by
  simp only [find, List.find?_range_eq_some, List.isPrefixOf_iff_prefix, List.mem_range,
    Nat.lt_succ_iff, Bool.not_eq_true', ← Bool.not_eq_true]
  tauto

theorem find_eq_none_iff : find d s = none ↔ ¬ d <:+: s := by
  rw [find, List.find?_range_eq_none]
  constructor
  · rintro hnone ⟨before, after, rfl⟩
    have hoccurs : d.isPrefixOf ((before ++ d ++ after).drop before.length) = true := by
      rw [List.append_assoc, List.drop_left, List.isPrefixOf_iff_prefix]
      exact List.prefix_append d after
    have hlt : before.length < (before ++ d ++ after).length + 1 := by
      rw [List.length_append, List.length_append]
      omega
    have hfalse := hnone before.length hlt
    rw [hoccurs] at hfalse
    exact absurd hfalse (by decide)
  · intro hnone n _
    rw [Bool.not_eq_true', ← Bool.not_eq_true, List.isPrefixOf_iff_prefix]
    exact fun hoccurs => hnone (hoccurs.isInfix.trans (List.drop_suffix n s).isInfix)

/-- The list is what comes before the occurrence, the delimiter, and what follows. -/
theorem append_of_find (h : find d s = some n) :
    s.take n ++ (d ++ s.drop (n + d.length)) = s := by
  obtain ⟨-, ⟨after, hafter⟩, -⟩ := find_eq_some_iff.1 h
  rw [← List.drop_drop, ← hafter, List.drop_left, hafter, List.take_append_drop]

/-- An occurrence that came earlier would have been found. -/
theorem not_infix_take_of_find (hd : d ≠ []) (h : find d s = some n) : ¬ d <:+: s.take n := by
  obtain ⟨hn, -, hfirst⟩ := find_eq_some_iff.1 h
  rintro ⟨before, after, heq⟩
  have hlength := congrArg List.length heq
  rw [List.length_append, List.length_append, List.length_take_of_le hn] at hlength
  have hpos : 0 < d.length := List.length_pos_of_ne_nil hd
  have hdrop : s.drop before.length = d ++ (after ++ s.drop n) := by
    conv_lhs => rw [← List.take_append_drop n s, ← heq, List.append_assoc, List.append_assoc,
      List.drop_left]
  exact hfirst before.length (by omega) (hdrop ▸ List.prefix_append d _)

end Find

/-! ## Cutting -/

/-- The pieces, joined with the delimiter, are the list, and none has an occurrence of it. -/
structure IsSplit (d s : List α) (pieces : List (List α)) : Prop where
  join : d.intercalate pieces = s
  free : ∀ piece ∈ pieces, ¬ d <:+: piece

theorem IsSplit.singleton (h : ¬ d <:+: s) : IsSplit d s [s] :=
  ⟨List.intercalate_singleton, by simpa using h⟩

theorem IsSplit.cons (h : IsSplit d s pieces) (hne : pieces ≠ []) (hp : ¬ d <:+: p) :
    IsSplit d (p ++ (d ++ s)) (p :: pieces) := by
  refine ⟨?_, fun piece hpiece => ?_⟩
  · rw [List.intercalate_cons_of_ne_nil hne, h.join, List.append_assoc]
  · rcases List.mem_cons.1 hpiece with rfl | hpiece
    · exact hp
    · exact h.free piece hpiece

/-- The list ends with its last piece, after a delimiter if there are others. -/
theorem IsSplit.eq_append_getLast (h : IsSplit d s pieces) (hne : pieces ≠ []) :
    s = pieces.getLast hne ∨ ∃ before, s = before ++ (d ++ pieces.getLast hne) := by
  induction pieces generalizing s with
  | nil => exact absurd rfl hne
  | cons p pieces ih =>
    by_cases hnil : pieces = []
    · subst hnil
      exact .inl (h.join.symm.trans List.intercalate_singleton)
    · have hjoin := h.join
      rw [List.intercalate_cons_of_ne_nil hnil, List.append_assoc] at hjoin
      rw [List.getLast_cons hnil]
      have hrest : IsSplit d (d.intercalate pieces) pieces :=
        ⟨rfl, fun piece hpiece => h.free piece (List.mem_cons_of_mem _ hpiece)⟩
      rcases ih hrest hnil with heq | ⟨before, heq⟩
      · exact .inr ⟨p, by rw [← hjoin, ← heq]⟩
      · exact .inr ⟨p ++ (d ++ before), by rw [← hjoin, heq]; simp⟩

theorem rtakeWhile_append_cons {f : α → Bool} {before last : List α} {c : α}
    (hlast : ∀ x ∈ last, f x) (hc : f c = false) :
    (before ++ c :: last).rtakeWhile f = last := by
  have hreverse : ∀ x ∈ last.reverse, f x := fun x hx => hlast x (List.mem_reverse.1 hx)
  rw [List.rtakeWhile, List.reverse_append, List.reverse_cons, List.append_assoc,
    List.takeWhile_append_of_pos hreverse, List.singleton_append, List.takeWhile_cons_of_neg
      (Bool.eq_false_iff.1 hc), List.append_nil, List.reverse_reverse]

/-- The last piece is what follows the last occurrence of a delimiter of one element. -/
theorem IsSplit.getLast_eq [DecidableEq α] {c : α} (h : IsSplit [c] s pieces) (hne : pieces ≠ []) :
    pieces.getLast hne = s.rtakeWhile (· ≠ c) := by
  have hlast : ∀ x ∈ pieces.getLast hne, decide (x ≠ c) = true := by
    intro x hx
    refine decide_eq_true fun hxc => h.free _ (List.getLast_mem hne) ?_
    exact (List.singleton_infix_iff _ _).2 (hxc ▸ hx)
  rcases h.eq_append_getLast hne with heq | ⟨before, heq⟩
  · rw [heq]
    exact (List.rtakeWhile_eq_self_iff.2 (heq ▸ hlast)).symm
  · rw [heq, List.singleton_append]
    exact (rtakeWhile_append_cons hlast (by simp)).symm

end Pieces
