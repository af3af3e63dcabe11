import Mathlib.Logic.Relation
import Mathlib.Logic.Function.Basic
import Mathlib.Tactic.Common

/-!
# Threads that wait for each other

A thread that joins another one waits until the other is over, which never
happens if the other waits for it in turn. The joins that have begun are logged.

`Joins.cycle_iff`: threads wait for each other in a cycle exactly if the log has a
cycle. The log only grows, and only the joins of threads that are not over are
logged, so the cycles of a whole run can be read from its log.
-/

/-- The threads wait (`waits`), and some are over; the joins that have begun are
    logged. -/
structure Joins {τ : Type*} (waits : τ → Option τ) (ended : τ → Prop) (log : τ → τ → Prop) :
    Prop where
  logged : ∀ t k, waits t = some k → log t k
  waits_or_over : ∀ t k, log t k → waits t = some k ∨ ended k
  not_waits : ∀ t, ended t → waits t = none
  not_over : ∀ t, Relation.TransGen log t t → ¬ended t

namespace Joins

open Relation

variable {τ : Type*} {waits : τ → Option τ} {ended : τ → Prop} {log : τ → τ → Prop}

/-- Nobody has joined anybody. -/
theorem init {ended : τ → Prop} : Joins (fun _ : τ => none) ended fun _ _ => False where
  logged _ _ h := by simp at h
  waits_or_over _ _ h := h.elim
  not_waits _ _ := rfl
  not_over t h := by
    obtain ⟨_, hfalse, -⟩ := TransGen.head'_iff.1 h
    exact hfalse.elim

variable (h : Joins waits ended log)
include h

/-- Whom a thread that is over has joined is over. -/
theorem over_of_log {t k : τ} (ht : ended t) (hlog : log t k) : ended k := by
  rcases h.waits_or_over t k hlog with hw | hk
  · rw [h.not_waits t ht] at hw
    exact absurd hw (by simp)
  · exact hk

theorem over_of_transGen {t k : τ} (ht : ended t) (hlog : TransGen log t k) : ended k := by
  induction hlog with
  | single hlog => exact h.over_of_log ht hlog
  | tail _ hlog ih => exact h.over_of_log ih hlog

/-- Threads wait for each other in a cycle exactly if the log has a cycle. -/
theorem cycle_iff : (∃ t, TransGen (fun t k => waits t = some k) t t) ↔
    ∃ t, TransGen log t t := by
  constructor
  · rintro ⟨t, ht⟩
    exact ⟨t, TransGen.mono h.logged t t ht⟩
  · rintro ⟨t, ht⟩
    -- Nobody on the cycle is over, so that everybody on it waits.
    have hpath : ∀ k, TransGen log t k → TransGen log k t →
        TransGen (fun t k => waits t = some k) t k := by
      intro k htk
      induction htk with
      | @single k hlog =>
        intro hkt
        exact .single ((h.waits_or_over t k hlog).resolve_right
          (h.not_over k (hkt.trans (.single hlog))))
      | @tail k l htk hlog ih =>
        intro hlt
        refine (ih (.head hlog hlt)).tail ((h.waits_or_over k l hlog).resolve_right ?_)
        exact h.not_over l (hlt.trans (htk.tail hlog))
    exact ⟨t, hpath t ht ht⟩

variable [DecidableEq τ]

/-- A thread that does not wait joins a thread that is not over. -/
theorem wait {t k : τ} (ht : waits t = none) (htover : ¬ended t) (hk : ¬ended k) :
    Joins (Function.update waits t (some k)) ended fun a b => log a b ∨ a = t ∧ b = k where
  logged a b hab := by
    by_cases ha : a = t
    · subst ha
      rw [Function.update_self] at hab
      exact .inr ⟨rfl, (Option.some.inj hab).symm⟩
    · rw [Function.update_of_ne ha] at hab
      exact .inl (h.logged a b hab)
  waits_or_over a b hab := by
    -- An old join of `t` is over, as `t` does not wait; the new one is what `t` waits for.
    rcases hab with hab | ⟨rfl, rfl⟩
    · by_cases ha : a = t
      · subst ha
        refine .inr ((h.waits_or_over a b hab).resolve_left ?_)
        simp [ht]
      · rw [Function.update_of_ne ha]
        exact h.waits_or_over a b hab
    · exact .inl (Function.update_self ..)
  not_waits a ha := by
    have hne : a ≠ t := fun heq => htover (heq ▸ ha)
    rw [Function.update_of_ne hne]
    exact h.not_waits a ha
  not_over a hcycle ha := by
    -- From a thread that is over, the new edge cannot be reached.
    have hold : ∀ b, TransGen (fun a b => log a b ∨ a = t ∧ b = k) a b → TransGen log a b := by
      intro b hab
      induction hab with
      | single hlog =>
        rcases hlog with hlog | ⟨rfl, -⟩
        · exact .single hlog
        · exact absurd ha htover
      | tail _ hlog ih =>
        rcases hlog with hlog | ⟨rfl, -⟩
        · exact ih.tail hlog
        · exact absurd (h.over_of_transGen ha ih) htover
    exact h.not_over a (hold a hcycle) ha

/-- The wait for a thread that is over ends. -/
theorem wake {t k : τ} (ht : waits t = some k) (hk : ended k) :
    Joins (Function.update waits t none) ended log where
  logged a b hab := by
    by_cases ha : a = t
    · subst ha
      simp at hab
    · rw [Function.update_of_ne ha] at hab
      exact h.logged a b hab
  waits_or_over a b hab := by
    by_cases ha : a = t
    · subst ha
      -- What `t` waited for is over.
      rcases h.waits_or_over a b hab with hw | hb
      · rw [ht] at hw
        exact .inr (Option.some.inj hw ▸ hk)
      · exact .inr hb
    · rw [Function.update_of_ne ha]
      exact h.waits_or_over a b hab
  not_waits a ha := by
    by_cases heq : a = t
    · subst heq
      exact Function.update_self ..
    · rw [Function.update_of_ne heq]
      exact h.not_waits a ha
  not_over := h.not_over

omit [DecidableEq τ] in
/-- A thread that does not wait ends. -/
theorem finish {t : τ} (ht : waits t = none) : Joins waits (fun a => ended a ∨ a = t) log where
  logged := h.logged
  waits_or_over a b hab := (h.waits_or_over a b hab).imp_right .inl
  not_waits a ha := by
    rcases ha with ha | rfl
    · exact h.not_waits a ha
    · exact ht
  not_over a hcycle ha := by
    rcases ha with ha | rfl
    · exact h.not_over a hcycle ha
    · -- The thread that it joins is over, and on the same cycle.
      obtain ⟨b, hab, hba⟩ := TransGen.head'_iff.1 hcycle
      have hb : ended b := by
        refine (h.waits_or_over a b hab).resolve_left ?_
        simp [ht]
      exact h.not_over b (.trans_right hba (.single hab)) hb

end Joins
