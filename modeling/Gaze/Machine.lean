import Mathlib.Data.List.Infix
import Mathlib.Tactic.Common

/-!
# Runs of a machine

A machine has initial states, and moves from a state to the next with the events
of its environment, each of which may happen only in some of the states. A run
is a list of events.

* `Along P s es`: each event of the run satisfies `P`, in the state in which it
  happens.
* `Reachable.invariant`: what holds initially and is preserved by the steps holds
  in every reachable state.
* `IsRun.invariant_of_along`: what is only preserved by the steps satisfying a
  condition holds along the runs all of whose steps satisfy it.
* `IsRun.along_of_invariant`: and so does what this implies for each step.
* `IsRun.always_iff_of_invariant`, `IsRun.always_iff`: what exactly the steps satisfying a
  condition preserve holds all along a run exactly if all its steps satisfy it.
* `IsRun.invariant_trace`: the invariant rule for a state and what the steps have
  recorded.
* `Reachable.invariant_traces`: the invariant rule for a state and two records, from a
  reachable state on.
* `IsRun.invariant_total`: the invariant rule for a state and what the steps have
  counted.
* `conservation`: what the steps take out of a quantity and put in it explains how
  it changes along a run.
* `rank_add_total_le`: what the steps count is at most a rank that decreases as much.
* `recording`: the machine with a history, which its steps update.
* `IsRun.along_congr`: two properties of steps, equivalent in the reachable states,
  hold along the same runs.
-/

/-- A machine with states in `σ`, moved by events in `ε`. -/
structure Machine (σ ε : Type*) where
  /-- The initial states. -/
  Init : σ → Prop
  /-- The event may happen in the state. -/
  Enabled : σ → ε → Prop
  /-- The state after the event. -/
  step : σ → ε → σ

namespace Machine

variable {σ ε : Type*} (M : Machine σ ε)

/-- The state after some events. -/
def after (s : σ) (es : List ε) : σ := es.foldl M.step s

/-- Each event satisfies `P`, in the state in which it happens. -/
def Along (P : σ → ε → Prop) : σ → List ε → Prop
  | _, [] => True
  | s, e :: es => P s e ∧ Along P (M.step s e) es

instance Along.decidable (P : σ → ε → Prop) [∀ s e, Decidable (P s e)] :
    ∀ s es, Decidable (M.Along P s es)
  | _, [] => inferInstanceAs (Decidable True)
  | s, e :: es =>
    have := Along.decidable P (M.step s e) es
    inferInstanceAs (Decidable (P s e ∧ M.Along P (M.step s e) es))

/-- The run is possible from the initial state `s`. -/
structure IsRun (s : σ) (es : List ε) : Prop where
  init : M.Init s
  enabled : M.Along M.Enabled s es

/-- The states reached by the runs. -/
inductive Reachable : σ → Prop
  | init {s : σ} : M.Init s → Reachable s
  | step {s : σ} {e : ε} : Reachable s → M.Enabled s e → Reachable (M.step s e)

/-- What the steps of a run record, in order. -/
def trace {γ : Type*} (f : σ → ε → List γ) : σ → List ε → List γ
  | _, [] => []
  | s, e :: es => f s e ++ trace f (M.step s e) es

/-- The sum of what the steps of a run count. -/
def total (f : σ → ε → ℕ) : σ → List ε → ℕ
  | _, [] => 0
  | s, e :: es => f s e + total f (M.step s e) es

variable {M} {P Q : σ → ε → Prop} {s : σ} {es es' : List ε}

@[simp] theorem after_nil : M.after s [] = s := rfl

@[simp] theorem after_cons (e : ε) : M.after s (e :: es) = M.after (M.step s e) es := rfl

theorem after_append : M.after s (es ++ es') = M.after (M.after s es) es' :=
  List.foldl_append

@[simp] theorem along_nil : M.Along P s [] := trivial

@[simp] theorem along_cons {e : ε} :
    M.Along P s (e :: es) ↔ P s e ∧ M.Along P (M.step s e) es := .rfl

theorem along_append :
    M.Along P s (es ++ es') ↔ M.Along P s es ∧ M.Along P (M.after s es) es' := by
  induction es generalizing s with
  | nil => simp
  | cons e es ih => simp [ih, and_assoc]

theorem Along.mono (hPQ : ∀ s e, P s e → Q s e) (h : M.Along P s es) : M.Along Q s es := by
  induction es generalizing s with
  | nil => trivial
  | cons e es ih => exact ⟨hPQ _ _ h.1, ih h.2⟩

theorem Along.and (hP : M.Along P s es) (hQ : M.Along Q s es) :
    M.Along (fun s e => P s e ∧ Q s e) s es := by
  induction es generalizing s with
  | nil => trivial
  | cons e es ih => exact ⟨⟨hP.1, hQ.1⟩, ih hP.2 hQ.2⟩

/-- What the steps preserve holds after them, from any state on. -/
theorem Along.invariant {I : σ → Prop} (h : M.Along P s es) (hI : I s)
    (hstep : ∀ s e, I s → P s e → I (M.step s e)) : I (M.after s es) := by
  induction es generalizing s with
  | nil => exact hI
  | cons e es ih => exact ih h.2 (hstep s e hI h.1)

/-- What holds of the events in all states holds along their run. -/
theorem along_of_forall (h : ∀ e ∈ es, ∀ s, P s e) : M.Along P s es := by
  induction es generalizing s with
  | nil => trivial
  | cons e es ih =>
    obtain ⟨he, hes⟩ := List.forall_mem_cons.1 h
    exact ⟨he s, ih hes⟩

/-- Properties of steps that are equivalent along a run hold along it together. -/
theorem Along.congr (h : M.Along (fun s e => P s e ↔ Q s e) s es) :
    M.Along P s es ↔ M.Along Q s es := by
  induction es generalizing s with
  | nil => simp
  | cons e es ih => exact and_congr h.1 (ih h.2)

/-- Each event happens in the state after those before it. -/
theorem along_iff_forall :
    M.Along P s es ↔ ∀ before e rest, es = before ++ e :: rest → P (M.after s before) e := by
  induction es generalizing s with
  | nil => exact ⟨fun _ before e rest h => by simp at h, fun _ => trivial⟩
  | cons e es ih =>
    rw [along_cons, ih]
    constructor
    · rintro ⟨he, hes⟩ before e' rest heq
      cases before with
      | nil => exact (List.cons.inj heq).1 ▸ he
      | cons b before =>
        obtain ⟨rfl, htail⟩ := List.cons.inj heq
        exact hes before e' rest htail
    · intro h
      exact ⟨h [] e es rfl, fun before e' rest heq => h (e :: before) e' rest (heq ▸ rfl)⟩

/-- What happens along a run happens along its beginnings. -/
theorem Along.of_prefix (h : M.Along P s es) (hes : es' <+: es) : M.Along P s es' := by
  obtain ⟨rest, rfl⟩ := hes
  exact (along_append.1 h).1

theorem Reachable.after (hs : M.Reachable s) (h : M.Along M.Enabled s es) :
    M.Reachable (M.after s es) := by
  induction es generalizing s with
  | nil => exact hs
  | cons e es ih => exact ih (.step hs h.1) h.2

theorem IsRun.reachable (h : M.IsRun s es) : M.Reachable (M.after s es) :=
  (Reachable.init h.init).after h.enabled

theorem IsRun.of_prefix (h : M.IsRun s es) (hes : es' <+: es) : M.IsRun s es' :=
  ⟨h.init, h.enabled.of_prefix hes⟩

/-- The invariant rule. -/
theorem Reachable.invariant {I : σ → Prop} (hinit : ∀ s, M.Init s → I s)
    (hstep : ∀ s e, I s → M.Enabled s e → I (M.step s e)) (hs : M.Reachable s) : I s := by
  induction hs with
  | init h => exact hinit _ h
  | step _ he ih => exact hstep _ _ ih he

/-- The invariant rule for the runs whose steps satisfy a condition. -/
theorem IsRun.invariant_of_along {I : σ → Prop} (h : M.IsRun s es) (hP : M.Along P s es)
    (hinit : ∀ s, M.Init s → I s)
    (hstep : ∀ s e, M.Reachable s → I s → M.Enabled s e → P s e → I (M.step s e)) :
    I (M.after s es) := by
  have hreach : M.Reachable s := .init h.init
  have hI := hinit s h.init
  obtain ⟨-, henabled⟩ := h
  induction es generalizing s with
  | nil => exact hI
  | cons e es ih =>
    exact ih hP.2 (.step hreach henabled.1) (hstep s e hreach hI henabled.1 hP.1) henabled.2

/-- What the invariant of the runs whose steps satisfy a condition implies for each step
    happens along them. -/
theorem IsRun.along_of_invariant {I : σ → Prop} (h : M.IsRun s es) (hP : M.Along P s es)
    (hinit : ∀ s, M.Init s → I s)
    (hstep : ∀ s e, M.Reachable s → I s → M.Enabled s e → P s e → I (M.step s e))
    (hQ : ∀ s e, M.Reachable s → I s → M.Enabled s e → P s e → Q s e) : M.Along Q s es := by
  refine along_iff_forall.2 fun before e rest heq => ?_
  subst heq
  obtain ⟨hPbefore, hPe, -⟩ := along_append.1 hP
  obtain ⟨hbefore, henabled, -⟩ := along_append.1 h.enabled
  have hrun : M.IsRun s before := ⟨h.init, hbefore⟩
  exact hQ _ e hrun.reachable (hrun.invariant_of_along hPbefore hinit hstep) henabled hPe

/-- The exact invariant rule, for a property `J` that an invariant `I` implies: the steps that
    satisfy a condition keep the invariant, and the others break the property. -/
theorem IsRun.always_iff_of_invariant {I J : σ → Prop} (h : M.IsRun s es) (hinit : I s)
    (himp : ∀ s, I s → J s)
    (hkeep : ∀ s e, M.Reachable s → I s → M.Enabled s e → P s e → I (M.step s e))
    (hbreak : ∀ s e, M.Reachable s → I s → M.Enabled s e → ¬ P s e → ¬ J (M.step s e)) :
    (∀ es', es' <+: es → J (M.after s es')) ↔ M.Along P s es := by
  have hreach : M.Reachable s := .init h.init
  obtain ⟨-, henabled⟩ := h
  induction es generalizing s with
  | nil => simpa using himp s hinit
  | cons e es ih =>
    have hrest := fun hP : P s e => ih (s := M.step s e)
      (hkeep s e hreach hinit henabled.1 hP) (.step hreach henabled.1) henabled.2
    constructor
    · intro hall
      have hP : P s e := by
        by_contra hP
        exact hbreak s e hreach hinit henabled.1 hP (hall [e] (by simp))
      exact ⟨hP, (hrest hP).1 fun es' hes' => hall (e :: es') ((List.prefix_cons_inj e).2 hes')⟩
    · rintro ⟨hP, halong⟩ es' hes'
      cases es' with
      | nil => exact himp s hinit
      | cons e' es' =>
        obtain ⟨rfl, hrest'⟩ := List.cons_prefix_cons.1 hes'
        exact (hrest hP).2 halong es' hrest'

/-- The exact invariant rule: what holds initially, and is kept by the steps that satisfy a
    condition and by no other, holds all along a run exactly if they all satisfy it. -/
theorem IsRun.always_iff {I : σ → Prop} (h : M.IsRun s es)
    (hstep : ∀ s e, M.Reachable s → I s → M.Enabled s e → (I (M.step s e) ↔ P s e)) :
    (∀ es', es' <+: es → I (M.after s es')) ↔ I s ∧ M.Along P s es := by
  have hrule := fun hI : I s => h.always_iff_of_invariant hI (fun _ hs => hs)
    (fun s e hs hIs he hP => (hstep s e hs hIs he).2 hP)
    fun s e hs hIs he hP hnext => hP ((hstep s e hs hIs he).1 hnext)
  constructor
  · intro hall
    have hI : I s := hall [] List.nil_prefix
    exact ⟨hI, (hrule hI).1 hall⟩
  · rintro ⟨hI, halong⟩
    exact (hrule hI).2 halong

/-- The invariant rule for a state and two counts. -/
theorem IsRun.invariant_total {I : σ → ℕ → ℕ → Prop} {f g : σ → ε → ℕ} (h : M.IsRun s es)
    (hinit : ∀ s, M.Init s → I s 0 0)
    (hstep : ∀ s e m n, M.Reachable s → I s m n → M.Enabled s e →
      I (M.step s e) (m + f s e) (n + g s e)) :
    I (M.after s es) (M.total f s es) (M.total g s es) := by
  have hgen : ∀ m n, I s m n → I (M.after s es) (m + M.total f s es) (n + M.total g s es) := by
    have hreach : M.Reachable s := .init h.init
    obtain ⟨-, henabled⟩ := h
    induction es generalizing s with
    | nil => exact fun m n hI => hI
    | cons e es ih =>
      intro m n hI
      have hrest := ih (.step hreach henabled.1) henabled.2 _ _
        (hstep s e m n hreach hI henabled.1)
      rwa [Nat.add_assoc, Nat.add_assoc] at hrest
  simpa using hgen 0 0 (hinit s h.init)

/-- The conservation rule: what the steps take out of `w` and put in it explains how it
    changes. -/
theorem conservation {w : σ → ℕ} {f g : σ → ε → ℕ} (h : M.Along M.Enabled s es)
    (hstep : ∀ s e, M.Enabled s e → w (M.step s e) + f s e = w s + g s e) :
    w (M.after s es) + M.total f s es = w s + M.total g s es := by
  induction es generalizing s with
  | nil => rfl
  | cons e es ih =>
    have he := hstep s e h.1
    have hes := ih h.2
    simp only [after_cons, total]
    omega

/-- The ranking rule: what the steps count is taken out of the rank. -/
theorem rank_add_total_le {r : σ → ℕ} {f : σ → ε → ℕ} (h : M.Along M.Enabled s es)
    (hstep : ∀ s e, M.Enabled s e → r (M.step s e) + f s e ≤ r s) :
    r (M.after s es) + M.total f s es ≤ r s := by
  induction es generalizing s with
  | nil => exact Nat.le_refl _
  | cons e es ih =>
    have he := hstep s e h.1
    have hes := ih h.2
    simp only [after_cons, total]
    omega

theorem total_add {f g : σ → ε → ℕ} :
    M.total (fun s e => f s e + g s e) s es = M.total f s es + M.total g s es := by
  induction es generalizing s with
  | nil => rfl
  | cons e es ih =>
    simp only [total, ih]
    omega

theorem total_eq_zero_iff {f : σ → ε → ℕ} :
    M.total f s es = 0 ↔ M.Along (fun s e => f s e = 0) s es := by
  induction es generalizing s with
  | nil => simp [total]
  | cons e es ih => rw [total, Nat.add_eq_zero_iff, along_cons, ih]

section Trace

variable {γ : Type*} {f : σ → ε → List γ}

theorem trace_append :
    M.trace f s (es ++ es') = M.trace f s es ++ M.trace f (M.after s es) es' := by
  induction es generalizing s with
  | nil => rfl
  | cons e es ih => simp [trace, ih]

/-- What has been recorded comes from an event. -/
theorem exists_of_mem_trace {x : γ} (h : x ∈ M.trace f s es) : ∃ s', ∃ e ∈ es, x ∈ f s' e := by
  induction es generalizing s with
  | nil => cases h
  | cons e es ih =>
    rcases List.mem_append.1 h with hx | hx
    · exact ⟨s, e, List.mem_cons_self, hx⟩
    · obtain ⟨s', e', he', hx'⟩ := ih hx
      exact ⟨s', e', List.mem_cons_of_mem e he', hx'⟩

/-- The invariant rule for a state and what has been recorded, for the runs whose steps
    satisfy a condition. -/
theorem IsRun.invariant_trace_of_along {I : σ → List γ → Prop} (h : M.IsRun s es)
    (hP : M.Along P s es) (hinit : ∀ s, M.Init s → I s [])
    (hstep : ∀ s e l, M.Reachable s → I s l → M.Enabled s e → P s e → I (M.step s e) (l ++ f s e)) :
    I (M.after s es) (M.trace f s es) := by
  -- What has been recorded before the rest of the run is generalized.
  have hgen : ∀ l, I s l → I (M.after s es) (l ++ M.trace f s es) := by
    have hreach : M.Reachable s := .init h.init
    obtain ⟨-, henabled⟩ := h
    induction es generalizing s with
    | nil => exact fun l hl => by simpa [trace] using hl
    | cons e es ih =>
      intro l hl
      have hrest := ih hP.2 (.step hreach henabled.1) henabled.2 (l ++ f s e)
        (hstep s e l hreach hl henabled.1 hP.1)
      rwa [List.append_assoc] at hrest
  exact hgen [] (hinit s h.init)

/-- The invariant rule for a state and what has been recorded. -/
theorem IsRun.invariant_trace {I : σ → List γ → Prop} (h : M.IsRun s es)
    (hinit : ∀ s, M.Init s → I s [])
    (hstep : ∀ s e l, I s l → M.Enabled s e → I (M.step s e) (l ++ f s e)) :
    I (M.after s es) (M.trace f s es) :=
  h.invariant_trace_of_along (P := M.Enabled) h.enabled hinit fun s e l _ hl he _ =>
    hstep s e l hl he

/-- The invariant rule for a state and two records, from a reachable state on. -/
theorem Reachable.invariant_traces {δ : Type*} {I : σ → List γ → List δ → Prop}
    {g : σ → ε → List δ} (hs : M.Reachable s) (h : M.Along M.Enabled s es) (hI : I s [] [])
    (hstep : ∀ s e l m, M.Reachable s → I s l m → M.Enabled s e →
      I (M.step s e) (l ++ f s e) (m ++ g s e)) :
    I (M.after s es) (M.trace f s es) (M.trace g s es) := by
  have hgen : ∀ l m, I s l m → I (M.after s es) (l ++ M.trace f s es) (m ++ M.trace g s es) := by
    clear hI
    induction es generalizing s with
    | nil => exact fun l m hI => by simpa [trace] using hI
    | cons e es ih =>
      intro l m hI
      have hrest := ih (.step hs h.1) h.2 _ _ (hstep s e l m hs hI h.1)
      rwa [List.append_assoc, List.append_assoc] at hrest
  exact hgen [] [] hI

/-- There is as much to record as there is to count. -/
theorem length_trace_le_total {g : σ → ε → ℕ} (hfg : ∀ s e, (f s e).length ≤ g s e) :
    (M.trace f s es).length ≤ M.total g s es := by
  induction es generalizing s with
  | nil => exact Nat.le_refl 0
  | cons e es ih =>
    rw [trace, List.length_append]
    exact Nat.add_le_add (hfg s e) ih

end Trace

/-- Properties of steps that are equivalent in the reachable states hold along the
    same runs. -/
theorem IsRun.along_congr (h : M.IsRun s es)
    (hPQ : ∀ s e, M.Reachable s → M.Enabled s e → (P s e ↔ Q s e)) :
    M.Along P s es ↔ M.Along Q s es :=
  (h.along_of_invariant (I := fun _ => True) h.enabled (fun _ _ => trivial)
    (fun _ _ _ _ _ _ => trivial) fun s e hs _ he _ => hPQ s e hs he).congr

/-! ## Histories -/

section Recording

variable {η : Type*}

/-- The machine with a history, which is `h₀` initially, and which the steps update. -/
def recording (M : Machine σ ε) (update : σ → ε → η → η) (h₀ : η) : Machine (σ × η) ε where
  Init x := M.Init x.1 ∧ x.2 = h₀
  Enabled x e := M.Enabled x.1 e
  step x e := (M.step x.1 e, update x.1 e x.2)

/-- A history takes no part in what happens to the states. -/
theorem along_recording {update : σ → ε → η → η} {h₀ : η} {x : σ × η} :
    (M.recording update h₀).Along (fun x e => P x.1 e) x es ↔ M.Along P x.1 es := by
  induction es generalizing x with
  | nil => exact Iff.rfl
  | cons e es ih => exact and_congr Iff.rfl ih

theorem IsRun.recording {update : σ → ε → η → η} {h₀ : η} (h : M.IsRun s es) :
    (M.recording update h₀).IsRun (s, h₀) es :=
  ⟨⟨h.init, rfl⟩, along_recording.2 h.enabled⟩

@[simp] theorem after_recording_fst (update : σ → ε → η → η) (h₀ : η) (x : σ × η) :
    ((M.recording update h₀).after x es).1 = M.after x.1 es := by
  induction es generalizing x with
  | nil => rfl
  | cons e es ih => exact ih _

end Recording

end Machine
