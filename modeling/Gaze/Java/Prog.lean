/-!
# Programs over a shared state

What a method of a multithreaded Java program does, as a tree: it reads and
writes the state it shares with the other threads, emits outputs (writes to
sockets), and returns or throws. Every node is one atomic action, so the same
program can be run alone (`exec`) or interleaved with others.

* `exec` runs a program without interference: it gives the final state, the
  outputs in order, and what is returned or thrown. What was done before an
  exception stays done.
* `forEach` is the loop over a list that only ever grows, whose iterator fails
  as soon as it finds that something has been added (`exec_forEach_output`:
  without interference, it does not).
-/

namespace Java

/-- The unchecked exceptions a program may throw. -/
inductive Throwable
  | arrayIndexOutOfBounds
  | illegalArgument
  | numberFormat
  | nullPointer
  | concurrentModification
  deriving DecidableEq

/-- A program over a state `σ`, with outputs in `ω`, returning an `α`. -/
inductive Prog (σ ω α : Type)
  | pure (a : α)
  | throw (e : Throwable)
  | read (k : σ → Prog σ ω α)
  | write (f : σ → σ) (k : Prog σ ω α)
  | emit (o : ω) (k : Prog σ ω α)

/-- What a program has done when it is over. -/
structure Outcome (σ ω α : Type) where
  /-- The final state. -/
  state : σ
  /-- The outputs, in order. -/
  emitted : List ω
  /-- What is returned, or thrown. -/
  result : Except Throwable α

namespace Prog

variable {σ ω α β : Type}

/-- Sequencing. -/
def bind : Prog σ ω α → (α → Prog σ ω β) → Prog σ ω β
  | pure a, f => f a
  | throw e, _ => throw e
  | read k, f => read fun s => bind (k s) f
  | write g k, f => write g (bind k f)
  | emit o k, f => emit o (bind k f)

instance : Monad (Prog σ ω) where
  pure := pure
  bind := bind

/-- A value computed from the state. -/
def reads (f : σ → α) : Prog σ ω α := read fun s => pure (f s)

/-- An update of the state. -/
def modify (f : σ → σ) : Prog σ ω Unit := write f (pure ())

/-- An output. -/
def output (o : ω) : Prog σ ω Unit := emit o (pure ())

/-- The value of a computation that may throw. -/
def lift : Except Throwable α → Prog σ ω α
  | .ok a => pure a
  | .error e => throw e

/-- Run without interference. -/
def exec : Prog σ ω α → σ → Outcome σ ω α
  | pure a, s => ⟨s, [], .ok a⟩
  | throw e, s => ⟨s, [], .error e⟩
  | read k, s => (k s).exec s
  | write f k, s => k.exec (f s)
  | emit o k, s => { k.exec s with emitted := o :: (k.exec s).emitted }

end Prog

namespace Outcome

variable {σ ω α β : Type}

/-- The same, after some outputs. -/
def after (os : List ω) (o : Outcome σ ω α) : Outcome σ ω α :=
  { o with emitted := os ++ o.emitted }

/-- What follows, if nothing was thrown. -/
def andThen (o : Outcome σ ω α) (f : α → Prog σ ω β) : Outcome σ ω β :=
  match o.result with
  | .ok a => ((f a).exec o.state).after o.emitted
  | .error e => ⟨o.state, o.emitted, .error e⟩

@[simp] theorem after_mk (os os' : List ω) (s : σ) (r : Except Throwable α) :
    after os ⟨s, os', r⟩ = ⟨s, os ++ os', r⟩ := rfl

@[simp] theorem after_nil (o : Outcome σ ω α) : o.after [] = o := rfl

@[simp] theorem andThen_ok (s : σ) (os : List ω) (a : α) (f : α → Prog σ ω β) :
    andThen ⟨s, os, .ok a⟩ f = ((f a).exec s).after os := rfl

@[simp] theorem andThen_error (s : σ) (os : List ω) (e : Throwable) (f : α → Prog σ ω β) :
    andThen ⟨s, os, .error e⟩ f = ⟨s, os, .error e⟩ := rfl

end Outcome

namespace Prog

variable {σ ω α β : Type}

@[simp] theorem exec_pure (a : α) (s : σ) :
    (Pure.pure a : Prog σ ω α).exec s = ⟨s, [], .ok a⟩ := rfl

@[simp] theorem exec_throw (e : Throwable) (s : σ) :
    (throw e : Prog σ ω α).exec s = ⟨s, [], .error e⟩ := rfl

@[simp] theorem exec_reads (f : σ → α) (s : σ) :
    (reads f : Prog σ ω α).exec s = ⟨s, [], .ok (f s)⟩ := rfl

@[simp] theorem exec_modify (f : σ → σ) (s : σ) :
    (modify f : Prog σ ω Unit).exec s = ⟨f s, [], .ok ()⟩ := rfl

@[simp] theorem exec_output (o : ω) (s : σ) :
    (output o : Prog σ ω Unit).exec s = ⟨s, [o], .ok ()⟩ := rfl

@[simp] theorem exec_lift (x : Except Throwable α) (s : σ) :
    (lift x : Prog σ ω α).exec s = ⟨s, [], x⟩ := by
  cases x <;> rfl

@[simp] theorem exec_bind (p : Prog σ ω α) (f : α → Prog σ ω β) (s : σ) :
    (p >>= f).exec s = (p.exec s).andThen f := by
  change (p.bind f).exec s = _
  induction p generalizing s with
  | pure a => rfl
  | throw e => rfl
  | read k ih => exact ih s s
  | write g k ih => exact ih (g s)
  | emit o k ih =>
    rw [bind, exec, exec, ih]
    cases hr : (k.exec s).result <;> simp [Outcome.andThen, Outcome.after, hr]

/-- The loop over a list that only ever grows: the iterator throws when it finds
    that the list is longer than when the loop began. -/
def forEach (list : σ → List β) (body : β → Prog σ ω Unit) : Prog σ ω Unit := do
  let snapshot ← reads list
  loop snapshot.length snapshot
where
  /-- The rest of the loop. -/
  loop (size : Nat) : List β → Prog σ ω Unit
    | [] => check size
    | x :: xs => do
      check size
      body x
      loop size xs
  /-- The check for a concurrent modification. -/
  check (size : Nat) : Prog σ ω Unit := do
    let now ← reads fun s => (list s).length
    if now = size then Pure.pure () else throw .concurrentModification

/-- Without interference, a loop of outputs makes them all, in order. -/
theorem exec_forEach_output (list : σ → List β) (out : β → ω) (s : σ) :
    (forEach list fun x => output (out x)).exec s = ⟨s, (list s).map out, .ok ()⟩ := by
  have hloop : ∀ xs, (forEach.loop list (fun x => output (out x)) (list s).length xs).exec s =
      ⟨s, xs.map out, .ok ()⟩ := by
    intro xs
    induction xs with
    | nil => simp [forEach.loop, forEach.check]
    | cons x xs ih => simp [forEach.loop, forEach.check, ih]
  simp [forEach, hloop]

end Prog

end Java
