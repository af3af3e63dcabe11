import Mathlib.Data.List.MinMax
import Mathlib.Data.List.Nodup
import Mathlib.Data.List.TakeWhile
import Mathlib.Tactic.Common

/-!
# Who comes first

The elements of a list with the highest value (`maxima`), and those at the front
of the list that have the same value (`leadingRun`).

They are the same elements exactly if those with the highest value are at the
front of the list (`leadingRun_iff_maxima`), which sorting would ensure.
-/

namespace Ranking

variable {α β : Type*}

/-- The elements at the front that have the value of the first one. -/
def leadingRun [DecidableEq β] (f : α → β) : List α → List α
  | [] => []
  | a :: l => a :: l.takeWhile fun b => f b = f a

/-- The elements with the highest value. -/
def maxima [LE β] [DecidableLE β] (f : α → β) (l : List α) : List α :=
  l.filter fun a => ∀ b ∈ l, f b ≤ f a

section LeadingRun

variable [DecidableEq β] (f : α → β)

theorem leadingRun_isPrefix : ∀ l : List α, leadingRun f l <+: l
  | [] => List.prefix_rfl
  | _ :: _ => List.cons_prefix_cons.2 ⟨rfl, List.takeWhile_prefix _⟩

/-- Leading runs only depend on which values are the same. -/
theorem leadingRun_congr {γ : Type*} [DecidableEq γ] {g : α → γ}
    (h : ∀ a b, f a = f b ↔ g a = g b) (l : List α) : leadingRun f l = leadingRun g l := by
  cases l with
  | nil => rfl
  | cons a l => simp only [leadingRun, h]

/-- The elements of a leading run have the value of the first one. -/
theorem eq_of_mem_leadingRun {f : α → β} {a b : α} {l : List α}
    (h : b ∈ leadingRun f (a :: l)) : f b = f a := by
  rcases List.mem_cons.1 h with rfl | h
  · rfl
  · simpa using List.mem_takeWhile_imp h

/-- A leading run has two elements if the first two have the same value. -/
theorem one_lt_length_leadingRun_iff {l : List α} :
    1 < (leadingRun f l).length ↔ ∃ a b rest, l = a :: b :: rest ∧ f a = f b := by
  rcases l with _ | ⟨a, _ | ⟨b, l⟩⟩
  · simp [leadingRun]
  · simp [leadingRun]
  · by_cases h : f b = f a
    · simp [leadingRun, h, eq_comm]
    · simpa [leadingRun, h] using fun h' => h h'.symm

/-- The elements after a leading run do not continue it. -/
theorem prefix_leadingRun {p l : List α} (hp : p <+: l)
    (heq : ∀ a ∈ p, ∀ b ∈ p, f a = f b) : p <+: leadingRun f l := by
  rcases p with _ | ⟨a, p⟩
  · exact List.nil_prefix
  · obtain ⟨rest, rfl⟩ := hp
    have htake : ∀ b ∈ p, f b = f a := fun b hb =>
      heq b (List.mem_cons_of_mem _ hb) a List.mem_cons_self
    rw [List.cons_append, leadingRun, List.takeWhile_append_of_pos (by simpa using htake)]
    exact List.cons_prefix_cons.2 ⟨rfl, List.prefix_append _ _⟩

end LeadingRun

section Maxima

variable [LinearOrder β] {f : α → β} {l : List α}

theorem mem_maxima {a : α} : a ∈ maxima f l ↔ a ∈ l ∧ ∀ b ∈ l, f b ≤ f a := by
  simp [maxima]

/-- All the elements with the highest value have the same value. -/
theorem eq_of_mem_maxima {a b : α} (ha : a ∈ maxima f l) (hb : b ∈ maxima f l) : f a = f b :=
  le_antisymm ((mem_maxima.1 hb).2 a (mem_maxima.1 ha).1)
    ((mem_maxima.1 ha).2 b (mem_maxima.1 hb).1)

/-- Being as good as one of the best is being one of the best. -/
theorem mem_maxima_of_eq {a b : α} (ha : a ∈ maxima f l) (hb : b ∈ l) (h : f b = f a) :
    b ∈ maxima f l :=
  mem_maxima.2 ⟨hb, h ▸ (mem_maxima.1 ha).2⟩

/-- Some element has the highest value. -/
theorem maxima_ne_nil (h : l ≠ []) : maxima f l ≠ [] := by
  obtain ⟨a, ha⟩ := Option.ne_none_iff_exists'.1 (mt (List.argmax_eq_none (f := f)).1 h)
  exact List.ne_nil_of_mem
    (mem_maxima.2 ⟨List.argmax_mem ha, fun b hb => List.le_of_mem_argmax hb ha⟩)

/-- When the best are at the front, and several, the first two are among them. -/
theorem one_lt_leadingRun_of_prefix (hp : maxima f l <+: l) (h : 1 < (maxima f l).length) :
    1 < (leadingRun f l).length :=
  lt_of_lt_of_le h
    (prefix_leadingRun f hp fun _ ha _ hb => eq_of_mem_maxima ha hb).length_le

/-- The leading run is made of the best exactly if the best are at the front. -/
theorem leadingRun_iff_maxima (hl : l.Nodup) :
    (∀ a, a ∈ leadingRun f l ↔ a ∈ maxima f l) ↔ maxima f l <+: l := by
  rcases l with _ | ⟨first, l⟩
  · simp [leadingRun, maxima]
  have hfirst : first ∈ leadingRun f (first :: l) := List.mem_cons_self
  constructor
  · intro h
    obtain ⟨rest, hrest⟩ := leadingRun_isPrefix f (first :: l)
    have hmax : maxima f (first :: l) = leadingRun f (first :: l) := by
      -- No best comes after the leading run: it would be in it, and occur twice.
      have hfilter : ∀ p : α → Bool, (first :: l).filter p =
          (leadingRun f (first :: l)).filter p ++ rest.filter p := fun p => by
        rw [← List.filter_append, hrest]
      rw [← hrest, List.nodup_append] at hl
      rw [maxima, hfilter, List.filter_eq_self.2, List.filter_eq_nil_iff.2, List.append_nil]
      · intro a ha hbest
        have ha' : a ∈ maxima f (first :: l) :=
          mem_maxima.2 ⟨hrest ▸ List.mem_append_right _ ha, by simpa using hbest⟩
        exact hl.2.2 a ((h a).2 ha') a ha rfl
      · intro a ha
        simpa using (mem_maxima.1 ((h a).1 ha)).2
    exact hmax ▸ leadingRun_isPrefix f _
  · intro hp a
    -- The first of the list is one of the best, and all that have its value are.
    obtain ⟨best, rest, hbest⟩ := List.exists_cons_of_ne_nil
      (maxima_ne_nil (f := f) (List.cons_ne_nil first l))
    obtain ⟨-, hp'⟩ : best = first ∧ rest <+: l := by
      rw [hbest] at hp
      exact List.cons_prefix_cons.1 hp
    have hmem : first ∈ maxima f (first :: l) := by
      have hhead := List.cons_prefix_cons.1 (hbest ▸ hp)
      rw [hbest, hhead.1]
      exact List.mem_cons_self
    constructor
    · intro ha
      exact mem_maxima_of_eq hmem ((leadingRun_isPrefix f _).subset ha) (eq_of_mem_leadingRun ha)
    · intro ha
      exact (prefix_leadingRun f hp fun _ ha _ hb => eq_of_mem_maxima ha hb).subset ha

end Maxima

end Ranking
