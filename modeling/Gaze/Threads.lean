import Gaze.Joins
import Gaze.Server.Runs

/-!
# The threads of the server

The thread that accepts connections, and one thread for each handler, run the
methods of the server one action at a time, interleaved in any way. A write to a
socket may fail: the thread then closes the handler it was writing to, that is,
it waits until the thread of this handler is over.

* `acts_exec`: a thread that runs a method alone does what `exec` says.
* `waits_acyclic_iff`: the threads never wait for each other in a cycle exactly in
  the runs where no chain of failed writes leads from a handler to itself.
-/

namespace Gaze

open Java Protocol Relation

namespace Threads

/-- The threads: the one that accepts connections, and those of the handlers. -/
inductive Thread
  | accept
  | handler (handler : ClientHandler)
  deriving DecidableEq

/-- What a thread is about to do. -/
inductive Task
  /-- The accept loop, or the head of the loop of a handler. -/
  | loop
  /-- `readLine`. -/
  | reading
  /-- The start of the thread of a handler that has just been accepted. -/
  | starting (handler : ClientHandler)
  /-- The rest of a method; it is the last one the thread runs if `last`. -/
  | method (rest : Server.Method Unit) (last : Bool)
  /-- The loop that closes the handlers, once the server has been stopped. -/
  | closing (handlers : List ClientHandler)

/-- The status of a thread. -/
inductive Status
  /-- Not started yet. -/
  | fresh
  | active (task : Task)
  /-- In `close`: waiting for the thread of `handler` to be over. -/
  | joining (handler : ClientHandler) (task : Task)
  | ended

/-- The thread is alive: joining it is waiting. -/
def Status.alive : Status → Bool
  | .active _ | .joining _ _ => true
  | .fresh | .ended => false

/-- The handler whose thread is waited for. -/
def Status.waitsFor : Status → Option ClientHandler
  | .joining handler _ => some handler
  | _ => none

/-- The server and its threads. -/
structure State where
  server : Server
  status : Thread → Status
  /-- The flags `running` of the handlers. -/
  running : ClientHandler → Bool

namespace State

/-- The state with another status of a thread. -/
def withStatus (s : State) (t : Thread) (status : Status) : State :=
  { s with status := Function.update s.status t status }

/-- `ClientHandler.close`, called by a thread, which then goes on with a task. -/
def close (s : State) (t : Thread) (handler : ClientHandler) (task : Task) : State :=
  { s with running := Function.update s.running handler false }.withStatus t
    (if (s.status (.handler handler)).alive then .joining handler task else .active task)

/-- What a thread does when it has run a method: the last one ends it, except that the
    accept loop then closes the handlers. -/
def returned (s : State) (t : Thread) (last : Bool) : State :=
  match t with
  | .accept => s.withStatus t (.active (.closing s.server.clients))
  | .handler _ => s.withStatus t (if last then .ended else .active .loop)

/-- What a thread does when a method has thrown: a handler still runs
    `onClientDisconnected`, once. -/
def threw (s : State) (t : Thread) (last : Bool) : State :=
  match t with
  | .accept => s.withStatus t .ended
  | .handler handler => s.withStatus t
      (if last then .ended else .active (.method (Server.onClientDisconnected handler) true))

/-- One action of a method, in which writes succeed. -/
def act (s : State) (t : Thread) (last : Bool) : Server.Method Unit → State
  | .pure _ => s.returned t last
  | .throw _ => s.threw t last
  | .read k => s.withStatus t (.active (.method (k s.server) last))
  | .write f k => { s with server := f s.server }.withStatus t (.active (.method k last))
  | .emit _ k => s.withStatus t (.active (.method k last))

end State

/-- What happens next. -/
inductive Event
  /-- A connection is accepted, and its handler is added to the clients. -/
  | accepts (handler : ClientHandler)
  /-- The constructor of a handler throws: the accept loop is over. -/
  | acceptFails
  /-- The thread of the handler that has just been added is started. -/
  | starts
  /-- The accept loop finds that it must stop. -/
  | stops
  /-- A handler goes on reading, since it is running. -/
  | goesOn (handler : ClientHandler)
  /-- A handler stops reading, since it is not running. -/
  | leaves (handler : ClientHandler)
  /-- `readLine` times out. -/
  | timesOut (handler : ClientHandler)
  /-- `readLine` returns a line, or `null` at the end of the stream. -/
  | receives (handler : ClientHandler) (message : Option Text) (choice : Choice)
  /-- `readLine` throws, for the socket is broken. -/
  | breaks (handler : ClientHandler)
  /-- A thread does the next action of its method; a write succeeds. -/
  | acts (t : Thread)
  /-- A thread writes to a socket, and fails. -/
  | fails (t : Thread)
  /-- The accept loop closes the next handler. -/
  | closes
  /-- The thread that was waited for is over. -/
  | wakes (t : Thread)

/-- The state after an event, if it may happen. -/
def next (s : State) : Event → Option State
  | .accepts handler =>
    match s.status .accept with
    | .active .loop =>
      if handler ∈ s.server.clients then none
      else some ({ s with
        server := { s.server with clients := s.server.clients ++ [handler] }
        running := Function.update s.running handler true }.withStatus .accept
          (.active (.starting handler)))
    | _ => none
  | .acceptFails =>
    match s.status .accept with
    | .active .loop => some (s.withStatus .accept .ended)
    | _ => none
  | .starts =>
    match s.status .accept with
    | .active (.starting handler) =>
      match s.status (.handler handler) with
      | .fresh =>
        some ((s.withStatus (.handler handler) (.active .loop)).withStatus .accept (.active .loop))
      | _ => none
    | _ => none
  | .stops =>
    match s.status .accept with
    | .active .loop => some (s.withStatus .accept (.active (.method Server.onServerStopped true)))
    | _ => none
  | .goesOn handler =>
    match s.status (.handler handler) with
    | .active .loop =>
      if s.running handler then some (s.withStatus (.handler handler) (.active .reading)) else none
    | _ => none
  | .leaves handler =>
    match s.status (.handler handler) with
    | .active .loop =>
      if s.running handler then none
      else some (s.withStatus (.handler handler)
        (.active (.method (Server.onClientDisconnected handler) true)))
    | _ => none
  | .timesOut handler =>
    match s.status (.handler handler) with
    | .active .reading => some (s.withStatus (.handler handler) (.active .loop))
    | _ => none
  | .receives handler message choice =>
    match s.status (.handler handler) with
    | .active .reading => some (s.withStatus (.handler handler)
        (.active (.method (Server.onMessageReceived handler message choice) false)))
    | _ => none
  | .breaks handler =>
    match s.status (.handler handler) with
    | .active .reading => some (s.withStatus (.handler handler)
        (.active (.method (Server.onClientDisconnected handler) true)))
    | _ => none
  | .acts t =>
    match s.status t with
    | .active (.method rest last) => some (s.act t last rest)
    | _ => none
  | .fails t =>
    match s.status t with
    | .active (.method (.emit (handler, _) k) last) => some (s.close t handler (.method k last))
    | _ => none
  | .closes =>
    match s.status .accept with
    | .active (.closing (handler :: handlers)) =>
      some (s.close .accept handler (.closing handlers))
    | .active (.closing []) => some (s.withStatus .accept .ended)
    | _ => none
  | .wakes t =>
    match s.status t with
    | .joining handler task =>
      match s.status (.handler handler) with
      | .ended => some (s.withStatus t (.active task))
      | _ => none
    | _ => none

/-- The threads as a machine, from a server that has accepted nobody. -/
def machine : Machine State Event where
  Init s := s.server.clients = [] ∧ s.status .accept = .active .loop ∧
    ∀ handler, s.status (.handler handler) = .fresh
  Enabled s e := (next s e).isSome
  step s e := (next s e).getD s

instance (s : State) (e : Event) : Decidable (machine.Enabled s e) :=
  inferInstanceAs (Decidable ((next s e).isSome = true))

/-- The writes of handlers that fail, each with the handler it was meant for, if the
    thread of the latter is alive. -/
def failures (s : State) : Event → List (ClientHandler × ClientHandler)
  | .fails (.handler handler) =>
    match s.status (.handler handler) with
    | .active (.method (.emit (target, _) _) _) =>
      if (s.status (.handler target)).alive then [(handler, target)] else []
    | _ => []
  | _ => []

/-- The thread `t` waits for the thread `t'` to be over. -/
def WaitsFor (s : State) (t t' : Thread) : Prop :=
  ∃ handler, (s.status t).waitsFor = some handler ∧ t' = .handler handler

/-! ## A thread alone -/

/-- What a thread has done when the method it was running is over. -/
def finished (s : State) (t : Thread) (last : Bool) (o : Outcome Server Sent Unit) : State :=
  match o.result with
  | .ok _ => { s with server := o.state }.returned t last
  | .error _ => { s with server := o.state }.threw t last

theorem finished_withStatus (s : State) (t : Thread) (status : Status) (last : Bool)
    (o : Outcome Server Sent Unit) : finished (s.withStatus t status) t last o =
      finished s t last o := by
  cases t <;> cases hr : o.result <;>
    simp [finished, hr, State.returned, State.threw, State.withStatus]

/-- A thread that runs a method alone, and whose writes succeed, does what `exec`
    says. -/
theorem acts_exec {s : State} {t : Thread} {p : Server.Method Unit} {last : Bool}
    (ht : s.status t = .active (.method p last)) : ∃ n,
      machine.after s (List.replicate n (.acts t)) = finished s t last (p.exec s.server) := by
  have hstep : machine.step s (.acts t) = s.act t last p := by
    change (next s (.acts t)).getD s = _
    simp [next, ht]
  -- By induction on the method: each of its actions is one step of the thread.
  induction p generalizing s with
  | pure a => exact ⟨1, hstep⟩
  | throw e => exact ⟨1, hstep⟩
  | read k ih =>
    obtain ⟨n, hn⟩ := @ih s.server (s.withStatus t (.active (.method (k s.server) last)))
      (by simp [State.withStatus]) (by simp [machine, next, State.withStatus])
    refine ⟨n + 1, ?_⟩
    rw [List.replicate_succ, Machine.after_cons, hstep, State.act, hn, finished_withStatus]
    rfl
  | write f k ih =>
    obtain ⟨n, hn⟩ := @ih ({ s with server := f s.server }.withStatus t (.active (.method k last)))
      (by simp [State.withStatus]) (by simp [machine, next, State.withStatus])
    refine ⟨n + 1, ?_⟩
    rw [List.replicate_succ, Machine.after_cons, hstep, State.act, hn, finished_withStatus]
    rfl
  | emit o k ih =>
    obtain ⟨n, hn⟩ := @ih (s.withStatus t (.active (.method k last)))
      (by simp [State.withStatus]) (by simp [machine, next, State.withStatus])
    refine ⟨n + 1, ?_⟩
    rw [List.replicate_succ, Machine.after_cons, hstep, State.act, hn, finished_withStatus]
    rfl

/-! ## The invariant -/

/-- The handlers that the handlers wait for. -/
def waits (s : State) (handler : ClientHandler) : Option ClientHandler :=
  (s.status (.handler handler)).waitsFor

/-- The handlers whose threads are over. -/
def IsOver (s : State) (handler : ClientHandler) : Prop := s.status (.handler handler) = .ended

/-- The state and the failures that have been recorded. -/
def Inv (s : State) (log : List (ClientHandler × ClientHandler)) : Prop :=
  Joins (waits s) (IsOver s) fun h k => (h, k) ∈ log

variable {s : State} {log : List (ClientHandler × ClientHandler)}

theorem waits_withStatus (x : ClientHandler) (status : Status) :
    waits (s.withStatus (.handler x) status) = Function.update (waits s) x status.waitsFor := by
  funext h
  by_cases hx : h = x
  · subst hx
    simp [waits, State.withStatus]
  · simp [waits, State.withStatus, hx]

theorem isOver_withStatus {x : ClientHandler} {status : Status} (h : ClientHandler) :
    IsOver (s.withStatus (.handler x) status) h ↔
      if h = x then status = .ended else IsOver s h := by
  by_cases hx : h = x
  · subst hx
    simp [IsOver, State.withStatus]
  · simp [IsOver, State.withStatus, hx]

section Handler

variable {x : ClientHandler} (h : Inv s log) (hwaits : waits s x = none)
include h hwaits

/-- A handler that does not wait goes on. -/
theorem Inv.goOn (hover : ¬IsOver s x) {status : Status} (hstatus : status.waitsFor = none)
    (hnot : status ≠ .ended) : Inv (s.withStatus (.handler x) status) log := by
  have hw : waits (s.withStatus (.handler x) status) = waits s := by
    rw [waits_withStatus, hstatus, ← hwaits, Function.update_eq_self]
  have ho : IsOver (s.withStatus (.handler x) status) = IsOver s := by
    funext y
    rw [isOver_withStatus]
    by_cases hy : y = x
    · subst hy
      simp [hnot, hover]
    · simp [hy]
  rw [Inv, hw, ho]
  exact h

/-- A handler that does not wait ends. -/
theorem Inv.finish : Inv (s.withStatus (.handler x) .ended) log := by
  have hw : waits (s.withStatus (.handler x) .ended) = waits s := by
    rw [waits_withStatus, show Status.ended.waitsFor = waits s x from hwaits.symm,
      Function.update_eq_self]
  have ho : IsOver (s.withStatus (.handler x) .ended) = fun y => IsOver s y ∨ y = x := by
    funext y
    rw [isOver_withStatus]
    by_cases hy : y = x <;> simp [hy]
  rw [Inv, hw, ho]
  exact Joins.finish h hwaits

/-- A handler that closes another one waits for it, if it is alive. -/
theorem Inv.close (hover : ¬IsOver s x) (k : ClientHandler) (task : Task) :
    Inv (s.close (.handler x) k task)
      (log ++ if (s.status (.handler k)).alive then [(x, k)] else []) := by
  let s' : State := { s with running := Function.update s.running k false }
  have h' : Inv s' log := h
  -- A thread that has not started, or is over, is not joined.
  by_cases hk : (s.status (.handler k)).alive
  · have hkover : ¬IsOver s' k := by
      intro hko
      have halive : (s'.status (.handler k)).alive = true := hk
      rw [show s'.status (.handler k) = .ended from hko] at halive
      exact absurd halive (by decide)
    have hjoins := Joins.wait h' hwaits hover hkover
    have hclose : s.close (.handler x) k task =
        s'.withStatus (.handler x) (.joining k task) := by
      rw [State.close, if_pos hk]
    have ho : IsOver (s'.withStatus (.handler x) (.joining k task)) = IsOver s' := by
      funext y
      rw [isOver_withStatus]
      by_cases hy : y = x
      · subst hy
        rw [if_pos rfl]
        exact propext (iff_of_false (by simp) hover)
      · simp [hy]
    rw [if_pos hk, hclose, Inv, waits_withStatus, ho]
    simp only [List.mem_append, List.mem_singleton, Prod.mk.injEq]
    exact hjoins
  · have hclose : s.close (.handler x) k task = s'.withStatus (.handler x) (.active task) := by
      rw [State.close, if_neg hk]
    rw [if_neg hk, hclose, List.append_nil]
    exact Inv.goOn h' hwaits hover rfl (by simp)

omit hwaits in
/-- A handler goes on when the one it waited for is over. -/
theorem Inv.wake {k : ClientHandler} {task : Task} (hwaits : waits s x = some k)
    (hk : IsOver s k) : Inv (s.withStatus (.handler x) (.active task)) log := by
  have ho : IsOver (s.withStatus (.handler x) (.active task)) = IsOver s := by
    funext y
    rw [isOver_withStatus]
    by_cases hy : y = x
    · subst hy
      have hover : ¬IsOver s y := by
        intro hover
        rw [waits, show s.status (.handler y) = .ended from hover] at hwaits
        exact absurd hwaits (by simp [Status.waitsFor])
      simp [hover]
    · simp [hy]
  rw [Inv, waits_withStatus, ho]
  exact Joins.wake h hwaits hk

end Handler

/-- An action of a method keeps the invariant. -/
theorem Inv.act (h : Inv s log) {t : Thread} {rest : Server.Method Unit} {last : Bool}
    (ht : s.status t = .active (.method rest last)) : Inv (s.act t last rest) log := by
  cases t with
  | accept => cases rest <;> exact h
  | handler x =>
    have hwaits : waits s x = none := by rw [waits, ht]; rfl
    have hover : ¬IsOver s x := by simp [IsOver, ht]
    cases rest with
    -- Only the end of the method that a closed handler runs last ends the thread.
    | pure a =>
      rw [State.act, State.returned]
      split_ifs
      · exact h.finish hwaits
      · exact h.goOn hwaits hover rfl (by simp)
    | throw e =>
      rw [State.act, State.threw]
      split_ifs
      · exact h.finish hwaits
      · exact h.goOn hwaits hover rfl (by simp)
    | read k => exact h.goOn hwaits hover rfl (by simp)
    | write f k =>
      exact Inv.goOn (s := { s with server := f s.server }) h hwaits hover rfl (by simp)
    | emit o k => exact h.goOn hwaits hover rfl (by simp)

/-- Every step keeps the invariant, its failure being recorded. -/
theorem Inv.next (h : Inv s log) {e : Event} {s' : State} (he : next s e = some s') :
    Inv s' (log ++ failures s e) := by
  have hquiet : ∀ {s'}, Inv s' log → Inv s' (log ++ []) := fun h => by rwa [List.append_nil]
  have hidle : ∀ {x task}, s.status (.handler x) = .active task →
      waits s x = none ∧ ¬IsOver s x := fun hx => ⟨by rw [waits, hx]; rfl, by simp [IsOver, hx]⟩
  cases e with
  | accepts x =>
    simp only [Threads.next] at he
    split at he
    · split_ifs at he
      obtain rfl := Option.some.inj he
      exact hquiet h
    · exact absurd he (by simp)
  | acceptFails | stops =>
    simp only [Threads.next] at he
    split at he
    · obtain rfl := Option.some.inj he
      exact hquiet h
    · exact absurd he (by simp)
  | starts =>
    simp only [Threads.next] at he
    split at he
    · rename_i x _
      split at he
      · rename_i hfresh
        obtain rfl := Option.some.inj he
        have hwaits : waits s x = none := by rw [waits, hfresh]; rfl
        exact hquiet (h.goOn hwaits (by simp [IsOver, hfresh]) rfl (by simp))
      · exact absurd he (by simp)
    · exact absurd he (by simp)
  | goesOn x | leaves x | timesOut x | receives x message choice | breaks x =>
    simp only [Threads.next] at he
    split at he
    · rename_i hx
      obtain ⟨hwaits, hover⟩ := hidle hx
      first | obtain rfl := Option.some.inj he | (split_ifs at he; obtain rfl := Option.some.inj he)
      exact hquiet (h.goOn hwaits hover rfl (by simp))
    · exact absurd he (by simp)
  | acts t =>
    simp only [Threads.next] at he
    split at he
    · rename_i ht
      obtain rfl := Option.some.inj he
      exact hquiet (h.act ht)
    · exact absurd he (by simp)
  | fails t =>
    simp only [Threads.next] at he
    split at he
    · rename_i k text rest last ht
      obtain rfl := Option.some.inj he
      cases t with
      -- The thread that accepts connections waits for handlers, and no handler for it.
      | accept => exact hquiet h
      | handler x =>
        obtain ⟨hwaits, hover⟩ := hidle ht
        simp only [failures, ht]
        exact h.close hwaits hover k _
    · exact absurd he (by simp)
  | closes =>
    simp only [Threads.next] at he
    split at he
    · obtain rfl := Option.some.inj he
      exact hquiet h
    · obtain rfl := Option.some.inj he
      exact hquiet h
    · exact absurd he (by simp)
  | wakes t =>
    simp only [Threads.next] at he
    split at he
    · rename_i k task ht
      split at he
      · rename_i hk
        obtain rfl := Option.some.inj he
        cases t with
        | accept => exact hquiet h
        | handler x =>
          have hwaits : waits s x = some k := by rw [waits, ht]; rfl
          exact hquiet (h.wake hwaits hk)
      · exact absurd he (by simp)
    · exact absurd he (by simp)

/-! ## Cycles -/

/-- The invariant holds along every run. -/
theorem inv_of_isRun {es : List Event} (h : machine.IsRun s es) :
    Inv (machine.after s es) (machine.trace failures s es) := by
  refine h.invariant_trace (fun s hs => ?_) fun s e log hinv he => ?_
  · obtain ⟨-, -, hfresh⟩ := hs
    have hwaits : waits s = fun _ => none := by
      funext x
      rw [waits, hfresh]
      rfl
    have hlog : (fun h k => (h, k) ∈ ([] : List (ClientHandler × ClientHandler))) =
        fun _ _ => False := by simp
    rw [Inv, hwaits, hlog]
    exact Joins.init
  · obtain ⟨s', hs'⟩ := Option.isSome_iff_exists.1 he
    have hstep : machine.step s e = s' := by
      change (Threads.next s e).getD s = s'
      rw [hs', Option.getD_some]
    rw [hstep]
    exact hinv.next hs'

theorem waits_of_waitsFor {t t' : Thread} (h : TransGen (WaitsFor s) t t') :
    ∀ x, t = .handler x → ∃ y, t' = .handler y ∧
      TransGen (fun h k => waits s h = some k) x y := by
  rintro x rfl
  induction h with
  | single hstep =>
    obtain ⟨y, hy, rfl⟩ := hstep
    exact ⟨y, rfl, .single hy⟩
  | tail _ hstep ih =>
    obtain ⟨y, rfl, hxy⟩ := ih
    obtain ⟨z, hz, rfl⟩ := hstep
    exact ⟨z, rfl, hxy.tail hz⟩

/-- Only handlers are waited for, so that only handlers wait in a cycle. -/
theorem cycle_waitsFor_iff : (∃ t, TransGen (WaitsFor s) t t) ↔
    ∃ x, TransGen (fun h k => waits s h = some k) x x := by
  constructor
  · rintro ⟨t, ht⟩
    obtain ⟨_, -, x, -, rfl⟩ := TransGen.tail'_iff.1 ht
    obtain ⟨y, heq, hxy⟩ := waits_of_waitsFor ht x rfl
    obtain rfl := Thread.handler.inj heq
    exact ⟨x, hxy⟩
  · rintro ⟨x, hx⟩
    exact ⟨.handler x, hx.lift Thread.handler fun _ k hk => ⟨k, hk, rfl⟩⟩

/-- No threads ever wait for each other in a cycle exactly in the runs where the
    writes that fail do not lead from a handler back to itself. -/
theorem waits_acyclic_iff {es : List Event} (h : machine.IsRun s es) :
    (∀ es', es' <+: es → ∀ t, ¬TransGen (WaitsFor (machine.after s es')) t t) ↔
      ∀ x, ¬TransGen (fun h k => (h, k) ∈ machine.trace failures s es) x x := by
  have hcycle : ∀ {es'}, es' <+: es → ((∃ t, TransGen (WaitsFor (machine.after s es')) t t) ↔
      ∃ x, TransGen (fun h k => (h, k) ∈ machine.trace failures s es') x x) := fun hes =>
    cycle_waitsFor_iff.trans (Joins.cycle_iff (inv_of_isRun (h.of_prefix hes)))
  constructor
  · intro hacyclic x hx
    obtain ⟨t, ht⟩ := (hcycle List.prefix_rfl).2 ⟨x, hx⟩
    exact hacyclic es List.prefix_rfl t ht
  · rintro hacyclic es' hes t ht
    obtain ⟨x, hx⟩ := (hcycle hes).1 ⟨t, ht⟩
    -- What has been recorded stays recorded.
    obtain ⟨rest, rfl⟩ := hes
    refine hacyclic x (TransGen.mono (fun a b hab => ?_) x x hx)
    rw [Machine.trace_append]
    exact List.mem_append_left _ hab

/-- The threads of a new server. -/
def sampleState : State where
  server := Server.sampleServer
  status
    | .accept => .active .loop
    | .handler _ => .fresh
  running _ := false

/-- A player connects, and the write of the list of players to another handler fails: the thread of
    the player waits until this handler is over, and goes on. -/
def brokenGuest : List Event :=
  [.accepts ⟨0, false⟩, .starts, .accepts ⟨1, false⟩, .starts, .goesOn ⟨0, false⟩,
    .goesOn ⟨1, false⟩,
    .receives ⟨0, false⟩ (some "CONNECT player".toList) (Server.sampleChoice 0)] ++
    List.replicate 12 (.acts (.handler ⟨0, false⟩)) ++
    [.fails (.handler ⟨0, false⟩), .timesOut ⟨1, false⟩, .leaves ⟨1, false⟩] ++
    List.replicate 2 (.acts (.handler ⟨1, false⟩)) ++ [.wakes (.handler ⟨0, false⟩)] ++
    List.replicate 2 (.acts (.handler ⟨0, false⟩))

/-- The only write that fails leads from a handler to another one. -/
theorem brokenGuest_acyclic : machine.IsRun sampleState brokenGuest ∧
    machine.trace failures sampleState brokenGuest = [(⟨0, false⟩, ⟨1, false⟩)] ∧
    ∀ es', es' <+: brokenGuest → ∀ t,
      ¬TransGen (WaitsFor (machine.after sampleState es')) t t := by
  have hrun : machine.IsRun sampleState brokenGuest := ⟨⟨rfl, rfl, fun _ => rfl⟩, by decide +kernel⟩
  have htrace : machine.trace failures sampleState brokenGuest = [(⟨0, false⟩, ⟨1, false⟩)] := by
    decide +kernel
  refine ⟨hrun, htrace, (waits_acyclic_iff hrun).2 fun x hx => ?_⟩
  rw [htrace] at hx
  obtain ⟨y, hfirst, -⟩ := TransGen.head'_iff.1 hx
  obtain ⟨z, -, hlast⟩ := TransGen.tail'_iff.1 hx
  rw [List.mem_singleton, Prod.mk.injEq] at hfirst hlast
  exact absurd (hfirst.1.symm.trans hlast.2) (by decide)

/-- A player connects, and then its connection breaks: its handler is about to write
    the list of players to its own socket. -/
def brokenConnection : List Event :=
  [.accepts ⟨0, false⟩, .starts, .goesOn ⟨0, false⟩,
    .receives ⟨0, false⟩ (some "CONNECT player".toList) (Server.sampleChoice 0)] ++
    List.replicate 13 (.acts (.handler ⟨0, false⟩)) ++
    [.goesOn ⟨0, false⟩, .breaks ⟨0, false⟩] ++ List.replicate 4 (.acts (.handler ⟨0, false⟩))

/-- The write fails: the thread of the handler waits for itself. -/
theorem joins_itself :
    machine.IsRun sampleState (brokenConnection ++ [.fails (.handler ⟨0, false⟩)]) ∧
    TransGen (WaitsFor (machine.after sampleState
      (brokenConnection ++ [.fails (.handler ⟨0, false⟩)])))
      (.handler ⟨0, false⟩) (.handler ⟨0, false⟩) :=
  ⟨⟨⟨rfl, rfl, fun _ => rfl⟩, by decide⟩, .single ⟨⟨0, false⟩, by decide, rfl⟩⟩

end Threads

end Gaze
