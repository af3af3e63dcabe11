import Gaze.Java.Prog
import Mathlib.Data.List.Basic

/-!
# Calls that may throw

A method makes calls one after the other, and ends with the first that throws.
Each call is an output, answered by an update of the state and a result.

* `exec_calls_append`: calls are made in two parts.
* `emitted_calls_isPrefix`: those made are the first ones.
* `emitted_calls_eq_iff`: all are made exactly if none but the last throws.

A block `finally` (`Outcome.andFinally`) is executed after a method that returns
or throws; what it throws takes the place of what the method has thrown.
-/

namespace Java

namespace Prog

variable {σ γ : Type} (answer : γ → σ → σ × Except Throwable Unit)

/-- A call, and its answer. -/
def call (c : γ) : Prog σ γ Unit :=
  .emit c (.read fun s => .write (fun _ => (answer c s).1) (.lift (answer c s).2))

/-- Calls, one after the other. -/
def calls : List γ → Prog σ γ Unit
  | [] => return
  | c :: cs => do
    call answer c
    calls cs

/-- None of the calls throws. -/
def Quiet (cs : List γ) (s : σ) : Prop := ((calls answer cs).exec s).result = .ok ()

instance (cs : List γ) (s : σ) : Decidable (Quiet answer cs s) :=
  inferInstanceAs (Decidable (_ = _))

@[simp] theorem exec_call (c : γ) (s : σ) :
    (call answer c).exec s = ⟨(answer c s).1, [c], (answer c s).2⟩ := by
  simp [call, exec]

@[simp] theorem exec_calls_nil (s : σ) : (calls answer []).exec s = ⟨s, [], .ok ()⟩ := rfl

theorem exec_calls_cons (c : γ) (cs : List γ) (s : σ) :
    (calls answer (c :: cs)).exec s = ((call answer c).exec s).andThen fun _ => calls answer cs :=
  exec_bind _ _ _

@[simp] theorem exec_calls_singleton (c : γ) (s : σ) :
    (calls answer [c]).exec s = (call answer c).exec s := by
  rw [exec_calls_cons, exec_call]
  cases h : (answer c s).2 <;> simp

theorem exec_calls_append (cs ds : List γ) (s : σ) :
    (calls answer (cs ++ ds)).exec s =
      ((calls answer cs).exec s).andThen fun _ => calls answer ds := by
  induction cs generalizing s with
  | nil => rfl
  | cons c cs ih =>
    rw [List.cons_append, exec_calls_cons, exec_calls_cons, exec_call]
    cases hanswer : (answer c s).2 with
    | error e => rfl
    | ok u =>
      rw [Outcome.andThen_ok, Outcome.andThen_ok, ih]
      cases hrest : ((calls answer cs).exec (answer c s).1).result <;>
        simp [Outcome.andThen, Outcome.after, hrest]

variable {answer}

/-- The calls after one that throws are not made. -/
theorem exec_calls_append_of_throws {cs : List γ} {s : σ} (h : ¬Quiet answer cs s) (ds : List γ) :
    (calls answer (cs ++ ds)).exec s = (calls answer cs).exec s := by
  rw [exec_calls_append]
  rw [Quiet] at h
  generalize (calls answer cs).exec s = o at h ⊢
  obtain ⟨s', os, e | u⟩ := o
  · rfl
  · exact absurd rfl h

theorem quiet_append_iff {cs ds : List γ} {s : σ} :
    Quiet answer (cs ++ ds) s ↔
      Quiet answer cs s ∧ Quiet answer ds ((calls answer cs).exec s).state := by
  simp only [Quiet, exec_calls_append]
  generalize (calls answer cs).exec s = o
  obtain ⟨s', os, e | u⟩ := o <;> simp [Outcome.after]

theorem emitted_calls_isPrefix (cs : List γ) (s : σ) :
    ((calls answer cs).exec s).emitted <+: cs := by
  induction cs generalizing s with
  | nil => exact List.prefix_rfl
  | cons c cs ih =>
    rw [exec_calls_cons, exec_call]
    cases (answer c s).2 with
    | error e => exact ⟨cs, rfl⟩
    | ok u => exact (List.prefix_cons_inj c).2 (ih _)

theorem emitted_calls_of_quiet {cs : List γ} {s : σ} (h : Quiet answer cs s) :
    ((calls answer cs).exec s).emitted = cs := by
  induction cs generalizing s with
  | nil => rfl
  | cons c cs ih =>
    rw [Quiet, exec_calls_cons, exec_call] at h
    rw [exec_calls_cons, exec_call]
    cases hanswer : (answer c s).2 with
    | error e => simp [hanswer] at h
    | ok u =>
      rw [hanswer, Outcome.andThen_ok] at h
      exact congrArg (c :: ·) (ih h)

theorem emitted_calls_eq_iff {cs : List γ} {s : σ} :
    ((calls answer cs).exec s).emitted = cs ↔ Quiet answer cs.dropLast s := by
  rcases cs.eq_nil_or_concat with rfl | ⟨cs, c, rfl⟩
  · simp [Quiet]
  · rw [List.concat_eq_append, List.dropLast_concat]
    constructor
    · intro h
      by_contra hthrows
      rw [exec_calls_append_of_throws hthrows] at h
      have hle : ((calls answer cs).exec s).emitted.length ≤ cs.length :=
        (emitted_calls_isPrefix cs s).length_le
      rw [h, List.length_append, List.length_singleton] at hle
      omega
    · intro h
      have hemitted := emitted_calls_of_quiet h
      rw [Quiet] at h
      rw [exec_calls_append]
      generalize (calls answer cs).exec s = o at h hemitted ⊢
      obtain ⟨s', os, e | u⟩ := o
      · exact absurd h (by simp)
      · rw [Outcome.andThen_ok, exec_calls_singleton, exec_call, Outcome.after_mk]
        exact congrArg (· ++ [c]) hemitted

/-- If only the last of the first calls may throw, they are made, and some of the others. -/
theorem emitted_calls_append {cs : List γ} {s : σ} (h : Quiet answer cs.dropLast s) (ds : List γ) :
    ∃ rest, ((calls answer (cs ++ ds)).exec s).emitted = cs ++ rest ∧ rest <+: ds := by
  have hcs := emitted_calls_eq_iff.2 h
  by_cases hquiet : Quiet answer cs s
  · refine ⟨((calls answer ds).exec ((calls answer cs).exec s).state).emitted, ?_,
      emitted_calls_isPrefix _ _⟩
    rw [Quiet] at hquiet
    rw [exec_calls_append, Outcome.andThen, hquiet]
    exact congrArg (· ++ _) hcs
  · exact ⟨[], by rw [exec_calls_append_of_throws hquiet, hcs, List.append_nil],
      List.nil_prefix⟩

/-- If the first calls are all made, only the last of them may throw. -/
theorem quiet_dropLast_of_isPrefix {cs ds : List γ} {s : σ}
    (h : cs <+: ((calls answer (cs ++ ds)).exec s).emitted) : Quiet answer cs.dropLast s := by
  rw [← emitted_calls_eq_iff]
  by_cases hquiet : Quiet answer cs s
  · exact emitted_calls_of_quiet hquiet
  · rw [exec_calls_append_of_throws hquiet] at h
    exact (emitted_calls_isPrefix cs s).eq_of_length_le h.length_le

end Prog

namespace Outcome

variable {σ ω α : Type}

/-- After a method, whatever it has thrown, a block `finally`: what the block
    throws is thrown instead. -/
def andFinally (o : Outcome σ ω α) (p : Prog σ ω Unit) : Outcome σ ω α :=
  { state := (p.exec o.state).state
    emitted := o.emitted ++ (p.exec o.state).emitted
    result := match (p.exec o.state).result with
      | .ok () => o.result
      | .error e => .error e }

@[simp] theorem emitted_andFinally (o : Outcome σ ω α) (p : Prog σ ω Unit) :
    (o.andFinally p).emitted = o.emitted ++ (p.exec o.state).emitted := rfl

/-- A method that throws still throws after its block `finally`. -/
theorem andFinally_throws {o : Outcome σ ω α} {e : Throwable} (h : o.result = .error e)
    (p : Prog σ ω Unit) : ∃ e', (o.andFinally p).result = .error e' := by
  rw [andFinally]
  split
  · exact ⟨e, h⟩
  · next e' _ => exact ⟨e', rfl⟩

end Outcome

end Java
