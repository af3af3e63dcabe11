import Gaze.Machine
import Gaze.Server.Phases

/-!
# The loop that accepts the clients

`ServerBase.run` accepts the clients, until `stopListening` clears `listening`; it then tells
them all that the server is stopped, and closes their handlers. Two `try` blocks are nested in
it: the inner one, in the loop, only catches the timeout of `accept`; any other `IOException` is
caught around the loop, which is then over, as is what comes after it.

* `round_eq_ok_iff`: the loop goes on after all that a round may raise but the exception of the
  constructor of `ClientHandler`.
* `accepting_sound_iff`: the loop goes on until `stopListening`, and in the end every handler has
  been told and closed, exactly if no constructor raises, unless the server has been stopped and
  has no client, and the loop does not begin before `startListening` has set `listening`.

The other threads change the server meanwhile, but for its list of clients, which is private to
`ServerBase`. What is done in `finally` (the room is not announced anymore, the socket is closed)
is done in any case, and is left out.
-/

namespace Gaze.ServerBase

open Protocol Server

/-! ## A round of the loop -/

/-- The exceptions that the loop tells apart. -/
inductive IOException
  | socketTimeout
  /-- Any other `IOException`, as is the `SocketException` of a socket that has been reset. -/
  | other
  deriving DecidableEq

/-- What happens in a round. -/
inductive Attempt
  /-- `accept` times out, after a second. -/
  | timesOut
  /-- A client is accepted, and its handler is constructed. -/
  | accepts (handler : ClientHandler)
  /-- A client is accepted, and is gone before its handler is constructed: `setSoTimeout` or
      `getOutputStream` raises an exception. -/
  | setupFails
  deriving DecidableEq

/-- `new ClientHandler(listeningSocket.accept())`. -/
def Attempt.client : Attempt → Except IOException ClientHandler
  | .timesOut => .error .socketTimeout
  | .accepts handler => .ok handler
  | .setupFails => .error .other

/-- The body of the loop of `ServerBase.run`, with its own `try`. -/
def round (server : Server) (a : Attempt) : Except IOException Server :=
  tryCatch
    (do
      let client ← a.client
      return { server with clients := server.clients ++ [client] })
    fun
      | .socketTimeout => return server
      | e => throw e

@[simp] theorem round_timesOut (server : Server) : round server .timesOut = .ok server := rfl

@[simp] theorem round_accepts (server : Server) (handler : ClientHandler) :
    round server (.accepts handler) =
      .ok { server with clients := server.clients ++ [handler] } := rfl

@[simp] theorem round_setupFails (server : Server) :
    round server .setupFails = .error .other := rfl

/-- Only the exception of a constructor ends the loop. -/
theorem round_eq_ok_iff {server : Server} {a : Attempt} :
    (∃ server', round server a = .ok server') ↔ a ≠ .setupFails := by
  cases a <;> simp

/-! ## The thread of the server -/

/-- Where the thread of the server is, in `ServerBase.run`. -/
inductive Stage
  /-- It is about to read `listening`. -/
  | loop
  /-- It is in a round of the loop. -/
  | accepting
  /-- It closes the handlers, of which these are left. -/
  | closing (left : List ClientHandler)
  /-- It is over. -/
  | ended
  deriving DecidableEq

/-- The server, its thread, and what its thread has done. -/
structure Accepting where
  server : Server
  /-- `ServerBase.listening`. -/
  listening : Bool
  /-- Has `stopListening` cleared `listening`? -/
  stopped : Bool
  stage : Stage
  /-- The handlers that have been constructed. -/
  created : List ClientHandler
  /-- What `onServerStopped` has sent. -/
  sent : List Sent
  /-- The handlers that have been closed. -/
  closed : List ClientHandler

/-- What the thread of the server does, and what the others do. -/
inductive Event
  /-- `startListening`, which has started the thread, sets `listening`. -/
  | startListening
  | stopListening
  /-- A round of the loop begins. -/
  | enters
  | attempts (a : Attempt)
  /-- The loop ends, and `onServerStopped` is called. -/
  | leaves
  /-- The next handler is closed, or there is none left. -/
  | closes
  /-- The other threads change the server. -/
  | others (server : Server)

namespace Accepting

variable {s : Accepting} {e : Event}

/-- Is the thread in the loop? -/
def InLoop (s : Accepting) : Prop := s.stage = .loop ∨ s.stage = .accepting

/-- The handlers that an event constructs. -/
def creates : Event → List ClientHandler
  | .attempts (.accepts handler) => [handler]
  | _ => []

/-- The state after a round. -/
def attempt (s : Accepting) (a : Attempt) : Accepting :=
  match round s.server a with
  | .ok server =>
    { s with server, stage := .loop, created := s.created ++ creates (.attempts a) }
  | .error _ => { s with stage := .ended }

/-- The state after the loop: `onServerStopped` has been called. -/
def leave (s : Accepting) : Accepting :=
  let outcome := onServerStopped.exec s.server
  { s with
    server := outcome.state
    sent := s.sent ++ outcome.emitted
    stage := .closing outcome.state.clients }

/-- The state after the next handler has been closed. -/
def close (s : Accepting) : Accepting :=
  match s.stage with
  | .closing (handler :: left) =>
    { s with stage := .closing left, closed := s.closed ++ [handler] }
  | _ => { s with stage := .ended }

/-- When the events may happen. Only the thread of the server changes `clients`. -/
def Enabled (s : Accepting) : Event → Prop
  | .startListening => s.listening = false ∧ s.stopped = false
  | .stopListening => s.listening = true
  | .enters => s.stage = .loop ∧ s.listening = true
  | .attempts _ => s.stage = .accepting
  | .leaves => s.stage = .loop ∧ s.listening = false
  | .closes => ∃ left, s.stage = .closing left
  | .others server => server.clients = s.server.clients

instance (stage : Stage) : Decidable (∃ left, stage = .closing left) :=
  match stage with
  | .closing left => .isTrue ⟨left, rfl⟩
  | .loop | .accepting | .ended => .isFalse nofun

instance (s : Accepting) : ∀ e, Decidable (s.Enabled e)
  | .startListening => inferInstanceAs (Decidable (s.listening = false ∧ s.stopped = false))
  | .stopListening => inferInstanceAs (Decidable (s.listening = true))
  | .enters => inferInstanceAs (Decidable (s.stage = .loop ∧ s.listening = true))
  | .attempts _ => inferInstanceAs (Decidable (s.stage = .accepting))
  | .leaves => inferInstanceAs (Decidable (s.stage = .loop ∧ s.listening = false))
  | .closes => inferInstanceAs (Decidable (∃ left, s.stage = .closing left))
  | .others server => inferInstanceAs (Decidable (server.clients = s.server.clients))

/-- The state after an event. -/
def next (s : Accepting) : Event → Accepting
  | .startListening => { s with listening := true }
  | .stopListening => { s with listening := false, stopped := true }
  | .enters => { s with stage := .accepting }
  | .attempts a => s.attempt a
  | .leaves => s.leave
  | .closes => s.close
  | .others server => { s with server }

/-- A server whose thread has just been started. -/
def machine : Machine Accepting Event where
  Init s := ∃ server, s = ⟨server, false, false, .loop, [], [], []⟩
  Enabled := Enabled
  step := next

instance (s : Accepting) (e : Event) : Decidable (machine.Enabled s e) :=
  inferInstanceAs (Decidable (s.Enabled e))

/-- The handler has been told that the server is stopped. -/
def Told (s : Accepting) (handler : ClientHandler) : Prop :=
  (handler, buildServerStoppedInstruction) ∈ s.sent

/-- The loop goes on until `stopListening`; when the thread is over, it has told all the handlers
    that it has constructed that the server is stopped, and has closed them. -/
structure Sound (s : Accepting) : Prop where
  accepts : s.InLoop ∨ s.stopped = true
  dismisses : s.stage = .ended → ∀ handler ∈ s.created, s.Told handler ∧ handler ∈ s.closed

/-- No constructor raises an exception, unless the server is stopped and no handler has been
    constructed; the loop does not end before `startListening` has set `listening`. -/
def Harmless (s : Accepting) : Event → Prop
  | .attempts .setupFails => s.stopped = true ∧ s.created = []
  | .leaves => s.stopped = true
  | _ => True

instance (s : Accepting) : ∀ e, Decidable (s.Harmless e)
  | .attempts .setupFails => inferInstanceAs (Decidable (s.stopped = true ∧ s.created = []))
  | .leaves => inferInstanceAs (Decidable (s.stopped = true))
  | .attempts .timesOut | .attempts (.accepts _) | .startListening | .stopListening | .enters
  | .closes | .others _ => .isTrue trivial

/-! ## The invariant -/

/-- What the thread has done, and what is left to do. -/
def Progress (s : Accepting) : Stage → Prop
  | .loop | .accepting => s.sent = []
  | .closing left => s.stopped = true ∧
      ∀ handler ∈ s.created, s.Told handler ∧ (handler ∈ s.closed ∨ handler ∈ left)
  | .ended => s.stopped = true ∧
      ∀ handler ∈ s.created, s.Told handler ∧ handler ∈ s.closed

/-- The handlers that have been constructed are among the clients, and the thread is where what
    it has done says. -/
structure Invariant (s : Accepting) : Prop where
  clients : ∀ handler ∈ s.created, handler ∈ s.server.clients
  progress : s.Progress s.stage

theorem Invariant.sound (hs : s.Invariant) : s.Sound := by
  obtain ⟨-, hprogress⟩ := hs
  cases hstage : s.stage with
  | loop => exact ⟨.inl (.inl hstage), fun h => by simp [hstage] at h⟩
  | accepting => exact ⟨.inl (.inr hstage), fun h => by simp [hstage] at h⟩
  | closing left =>
    rw [hstage] at hprogress
    exact ⟨.inr hprogress.1, fun h => by simp [hstage] at h⟩
  | ended =>
    rw [hstage] at hprogress
    exact ⟨.inr hprogress.1, fun _ => hprogress.2⟩

/-- No one is told anything before the loop ends. -/
theorem Invariant.sent_eq_nil (hs : s.Invariant) (hloop : s.InLoop) : s.sent = [] := by
  have hprogress := hs.progress
  rcases hloop with hstage | hstage <;> rwa [hstage] at hprogress

/-- Where the thread is only depends on what it has done. -/
theorem Progress.congr {s' : Accepting} {stage : Stage} (hcreated : s'.created = s.created)
    (hsent : s'.sent = s.sent) (hclosed : s'.closed = s.closed)
    (hstopped : s.stopped = true → s'.stopped = true) (hs : s.Progress stage) :
    s'.Progress stage := by
  cases stage with
  | loop | accepting => exact hsent.trans hs
  | closing left =>
    refine ⟨hstopped hs.1, ?_⟩
    rw [hcreated]
    simpa only [Told, hsent, hclosed] using hs.2
  | ended =>
    refine ⟨hstopped hs.1, ?_⟩
    rw [hcreated]
    simpa only [Told, hsent, hclosed] using hs.2

theorem Invariant.init (hinit : machine.Init s) : s.Invariant := by
  obtain ⟨server, rfl⟩ := hinit
  exact ⟨by simp, rfl⟩

/-- A round keeps the invariant, unless a constructor raises. -/
theorem Invariant.attempt {a : Attempt} (hs : s.Invariant) (hstage : s.stage = .accepting)
    (ha : s.Harmless (.attempts a)) : (s.attempt a).Invariant := by
  have hsent : s.sent = [] := hs.sent_eq_nil (.inr hstage)
  cases a with
  | timesOut =>
    refine ⟨fun handler hmem => hs.clients handler ?_, hsent⟩
    simpa [Accepting.attempt, creates] using hmem
  | accepts handler =>
    refine ⟨fun created hmem => ?_, hsent⟩
    rcases List.mem_append.1 hmem with hmem | hmem
    · exact List.mem_append_left _ (hs.clients created hmem)
    · exact List.mem_append_right _ hmem
  | setupFails =>
    obtain ⟨hstopped, hcreated⟩ := ha
    refine ⟨hs.clients, hstopped, fun handler hmem => ?_⟩
    exact absurd (hcreated ▸ hmem) List.not_mem_nil

/-- When the loop ends, all the clients are told. -/
theorem Invariant.leave (hs : s.Invariant) (hstopped : s.stopped = true) :
    s.leave.Invariant := by
  refine ⟨?_, hstopped, fun handler hmem => ?_⟩
  · rw [Accepting.leave, exec_onServerStopped]
    exact hs.clients
  · have hclient : handler ∈ s.server.clients := hs.clients handler hmem
    simp only [Told, Accepting.leave, exec_onServerStopped]
    exact ⟨List.mem_append_right _ (mem_broadcast.2 ⟨hclient, rfl⟩), .inr hclient⟩

/-- A handler that is closed is left no more. -/
theorem Invariant.close {left : List ClientHandler} (hs : s.Invariant)
    (hstage : s.stage = .closing left) : s.close.Invariant := by
  obtain ⟨hclients, hprogress⟩ := hs
  rw [hstage] at hprogress
  obtain ⟨hstopped, hdone⟩ := hprogress
  cases left with
  | nil =>
    rw [Accepting.close, hstage]
    refine ⟨hclients, hstopped, fun handler hmem => ?_⟩
    obtain ⟨htold, hclosed | hleft⟩ := hdone handler hmem
    · exact ⟨htold, hclosed⟩
    · exact absurd hleft List.not_mem_nil
  | cons next left =>
    rw [Accepting.close, hstage]
    refine ⟨hclients, hstopped, fun handler hmem => ?_⟩
    obtain ⟨htold, hclosed | hleft⟩ := hdone handler hmem
    · exact ⟨htold, .inl (List.mem_append_left _ hclosed)⟩
    · rcases List.mem_cons.1 hleft with rfl | hleft
      · exact ⟨htold, .inl (by simp)⟩
      · exact ⟨htold, .inr hleft⟩

/-- A harmless event keeps the invariant. -/
theorem Invariant.next (hs : s.Invariant) (he : s.Enabled e) (hharmless : s.Harmless e) :
    (s.next e).Invariant := by
  cases e with
  | startListening => exact ⟨hs.clients, hs.progress.congr rfl rfl rfl id⟩
  | stopListening =>
    exact ⟨hs.clients, Progress.congr (s := s) rfl rfl rfl (fun _ => rfl) hs.progress⟩
  | enters =>
    have hsent : s.sent = [] := hs.sent_eq_nil (.inl he.1)
    exact ⟨hs.clients, hsent⟩
  | attempts a => exact hs.attempt he hharmless
  | leaves => exact hs.leave hharmless
  | closes =>
    obtain ⟨left, hstage⟩ := he
    exact hs.close hstage
  | others server =>
    refine ⟨fun handler hmem => ?_, hs.progress.congr rfl rfl rfl id⟩
    have hclients : server.clients = s.server.clients := he
    exact hclients ▸ hs.clients handler hmem

/-- A constructor that raises ends the loop while the server is listening, or leaves handlers
    that nobody has told; a loop that ends before it begins accepts no one. -/
theorem not_sound_next (hs : s.Invariant) (he : s.Enabled e) (hharm : ¬ s.Harmless e) :
    ¬ (s.next e).Sound := by
  intro hsound
  cases e with
  | attempts a =>
    cases a with
    | setupFails =>
      have hsent : s.sent = [] := hs.sent_eq_nil (.inr he)
      have hstopped : s.stopped = true := by
        rcases hsound.accepts with (h | h) | h
        · cases h
        · cases h
        · exact h
      -- No handler has been told anything, so there is none.
      refine hharm ⟨hstopped, List.eq_nil_iff_forall_not_mem.2 fun handler hmem => ?_⟩
      have htold : (handler, _) ∈ s.sent := (hsound.dismisses rfl handler hmem).1
      rw [hsent] at htold
      exact List.not_mem_nil htold
    | timesOut | accepts => exact hharm trivial
  | leaves =>
    rcases hsound.accepts with (h | h) | h
    · cases h
    · cases h
    · exact hharm h
  | _ => exact hharm trivial

/-- All along a run, the loop goes on until `stopListening` and its end dismisses every handler,
    exactly if the events are harmless. -/
theorem accepting_sound_iff {es : List Event} (h : machine.IsRun s es) :
    (∀ es', es' <+: es → (machine.after s es').Sound) ↔ machine.Along Harmless s es :=
  h.always_iff_of_invariant (.init h.init) (fun _ hs => hs.sound)
    (fun _ _ _ hs he hharmless => hs.next he hharmless)
    fun _ _ _ hs he hharm => not_sound_next hs he hharm

/-- A server whose thread has just been started. -/
def started : Accepting := ⟨.new [] (.new []), false, false, .loop, [], [], []⟩

theorem init_started : machine.Init started := ⟨_, rfl⟩

/-- It accepts a client, and is stopped. -/
def stops : List Event :=
  [.startListening, .enters, .attempts .timesOut, .enters, .attempts (.accepts ⟨0, true⟩),
    .stopListening, .leaves, .closes, .closes]

theorem accepting_sound_stops : (machine.after started stops).Sound :=
  (accepting_sound_iff ⟨init_started, by decide⟩).2 (by decide) stops
    List.prefix_rfl

/-- A client that is gone before its handler is constructed ends the service for the one that has
    been accepted. -/
theorem not_accepting_sound_reset : ¬ ∀ es, machine.IsRun started es →
    (machine.after started es).Sound := by
  intro h
  obtain ⟨haccepts, -⟩ := h
    [.startListening, .enters, .attempts (.accepts ⟨0, true⟩), .enters, .attempts .setupFails]
    ⟨init_started, by decide⟩
  rcases haccepts with (h | h) | h <;> cases h

end Accepting

end Gaze.ServerBase
