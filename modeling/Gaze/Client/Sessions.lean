import Gaze.Client
import Gaze.Machine

/-!
# The connections of a client

A client may be told to connect several times, to several servers (`connectServer`).
Its thread opens a connection, introduces itself, and reads messages. After an
exception, it sleeps, and starts another thread, which connects again, with a
`RECONNECT`. The threads share the fields of the client.

Before it starts a thread, `connectServer` waits for the last one to be over, and
keeps the client locked: a thread that is to notify the listener, of a line that it has
read, of an introduction that it could not write or of an exception, waits for the lock
meanwhile. But a thread that sleeps starts the next one all the same, and two threads are
then running.

* `along_of_inv`: as long as `connectServer` is not called while a thread sleeps, a
  single thread is running, and the id of the client is one that its server has given.
* `reconnects_iff`: in the runs where `connectServer` is not called at such a time, the
  client only reconnects with ids of its server exactly if it has read an id before each
  time it reconnects.
-/

namespace Gaze

open Java Protocol

namespace Sessions

/-- Where a thread of a client is. -/
inductive ThreadStage
  /-- About to open a socket. -/
  | opening
  /-- The streams are those of a new connection. -/
  | opened
  /-- In `sendInstruction`: the introduction could not be written, and the listener is to be
      notified of it. -/
  | stalled
  /-- In `readLine`, after the introduction. -/
  | listening
  /-- After a line, of which the listener is to be notified. -/
  | notifying
  /-- In the `catch`, before the listener is notified of the exception. -/
  | failing
  /-- Before it starts another thread. -/
  | sleeping
  | ended
  deriving DecidableEq

/-- The streams are those of a connection of the thread. -/
def ThreadStage.isConnected : ThreadStage → Bool
  | .opened | .stalled | .listening | .notifying => true
  | .opening | .failing | .sleeping | .ended => false

/-- The thread has introduced the client. -/
def ThreadStage.isSettled : ThreadStage → Bool
  | .listening | .notifying => true
  | .opening | .opened | .stalled | .failing | .sleeping | .ended => false

/-- A call of `connectServer`, which waits for a thread to be over. -/
structure Call (A : Type) where
  playerName : Text
  serverAddress : A
  joined : Option ℕ

end Sessions

/-- A `Client` and its threads, by the order in which they have started; the servers
    have addresses in `A`. `none` stands for `null`. -/
structure Sessions (A : Type) where
  playerName : Text
  serverAddress : Option A
  playerId : Option Text
  running : Bool
  reconnecting : Bool
  /-- The server at the other end of the stream `in`. -/
  input : Option A
  /-- The server at the other end of the stream `out`. -/
  out : Option A
  /-- The thread in the field `thread`. -/
  thread : Option ℕ
  threads : List Sessions.ThreadStage
  call : Option (Sessions.Call A)

namespace Sessions

variable {A : Type}

/-- A new client. -/
def new : Sessions A where
  playerName := []
  serverAddress := none
  playerId := none
  running := false
  reconnecting := false
  input := none
  out := none
  thread := none
  threads := []
  call := none

/-- The client as its messages see it. -/
def client (s : Sessions A) : Client :=
  { Client.new with
    playerName := s.playerName
    playerId := s.playerId
    running := s.running
    reconnecting := s.reconnecting }

/-- What happens to a client. -/
inductive Event (A : Type)
  /-- `connectServer` is called. -/
  | called (playerName : Text) (serverAddress : A)
  /-- The thread it has joined is over: it starts another one. -/
  | connects
  /-- A thread opens a socket. -/
  | opens (t : ℕ)
  /-- A thread introduces the client. -/
  | introduces (t : ℕ)
  /-- A thread cannot write its introduction, and is to notify the listener. -/
  | stalls (t : ℕ)
  /-- It has notified it, and goes on. -/
  | resumes (t : ℕ)
  /-- A thread reads a line, and notifies the listener of it if it has to. -/
  | reads (t : ℕ) (l : Text)
  /-- A thread reads a line, of which it is to notify the listener. -/
  | consumes (t : ℕ) (l : Text)
  /-- It has notified it. -/
  | notifies (t : ℕ)
  /-- A thread is in its `catch`, and is to notify the listener. -/
  | throws (t : ℕ)
  /-- An exception ends the round of a thread, maybe from the listener that is notified of
      a line; the listener, notified of the exception, may throw another one. -/
  | fails (t : ℕ) (l : Option Text) (notified : Bool)
  /-- A thread that has slept starts another one. -/
  | restarts (t : ℕ)
  /-- `disconnect` is called. -/
  | disconnects

/-- The client after a message. -/
def processed (s : Sessions A) (l : Text) : Sessions A :=
  match s.client.onMessage l with
  | .ok (c, _) => { s with playerId := c.playerId, running := c.running }
  | .error _ => s

/-- The event of which the listener is notified. -/
def notification (s : Sessions A) (l : Text) : Except Throwable (Option GameEvent) :=
  match s.client.onMessage l with
  | .ok (_, event) => .ok event
  | .error e => .error e

/-- The `finally` of `Client.run`, until the thread sleeps. -/
def closed (s : Sessions A) (t : ℕ) : Sessions A :=
  { s with
    out := none
    threads := s.threads.set t (if s.reconnecting then .sleeping else .ended) }

/-- The `catch` of `Client.run`: the client will reconnect, unless the listener throws. -/
def failed (s : Sessions A) (t : ℕ) (notified : Bool) : Sessions A :=
  if notified then ({ s with reconnecting := true }).closed t else s.closed t

/-- The end of a round of the loop. -/
def looped (s : Sessions A) (t : ℕ) : Sessions A :=
  if s.running then { s with threads := s.threads.set t .listening } else s.closed t

/-- What the client does. -/
def next (s : Sessions A) : Event A → Sessions A
  | .called playerName serverAddress =>
    { s with call := some ⟨playerName, serverAddress, s.thread⟩ }
  | .connects =>
    match s.call with
    | some call =>
      { s with
        playerName := call.playerName
        serverAddress := some call.serverAddress
        playerId := none
        running := true
        reconnecting := false
        thread := some s.threads.length
        threads := s.threads ++ [.opening]
        call := none }
    | none => s
  | .opens t =>
    { s with
      input := s.serverAddress
      out := s.serverAddress
      threads := s.threads.set t .opened }
  | .introduces t | .resumes t => ({ s with reconnecting := false }).looped t
  | .stalls t => { s with threads := s.threads.set t .stalled }
  | .reads t l => (s.processed l).looped t
  | .consumes t l => { s.processed l with threads := (s.processed l).threads.set t .notifying }
  | .notifies t => s.looped t
  | .throws t => { s with threads := s.threads.set t .failing }
  | .fails t l notified => (l.elim s s.processed).failed t notified
  | .restarts t =>
    { s with
      thread := some s.threads.length
      threads := s.threads.set t .ended ++ [.opening] }
  | .disconnects => { s with running := false }

/-- The introduction that is sent, and to which server; without stream, none is. -/
def sent (s : Sessions A) : Event A → Option (A × Command)
  | .introduces _ => s.out.map fun address => (address, s.client.introduction)
  | _ => none

/-- A call locks the client until its thread is over: the listener is not notified. -/
def Enabled (s : Sessions A) : Event A → Prop
  | .called _ _ => s.call.isNone
  | .connects => ∃ call ∈ s.call, ∀ t ∈ call.joined, s.threads[t]? = some .ended
  | .opens t => s.threads[t]? = some .opening
  | .introduces t | .stalls t => s.threads[t]? = some .opened
  | .resumes t => s.call.isNone ∧ s.threads[t]? = some .stalled
  | .reads t l => s.threads[t]? = some .listening ∧
      (s.notification l = .ok none ∨ s.call.isNone ∧ (s.notification l).isOk)
  | .consumes t l =>
    s.threads[t]? = some .listening ∧ ∃ event, s.notification l = .ok (some event)
  | .notifies t => s.call.isNone ∧ s.threads[t]? = some .notifying
  | .throws t => s.threads[t]? = some .opening ∨ s.threads[t]? = some .listening
  | .fails t l _ => s.call.isNone ∧ match l with
    | none => ∃ stage ∈ [.opening, .listening, .notifying, .failing], s.threads[t]? = some stage
    | some l => s.threads[t]? = some .listening ∧ ∃ event, s.notification l = .ok (some event)
  | .restarts t => s.threads[t]? = some .sleeping
  | .disconnects => True

/-- The client as a machine. -/
def machine : Machine (Sessions A) (Event A) where
  Init s := s = new
  Enabled := Enabled
  step := next

/-! ## The ids that servers give -/

/-- The ids read since the end of the last `connectServer`, with the servers that have
    given them. -/
def issued (s : Sessions A) : Event A → List (A × Text) → List (A × Text)
  | .connects, _ => []
  | .reads _ l, ids | .consumes _ l, ids | .fails _ (some l) _, ids =>
    if parseInstructionType l = .ok playerIdInstructionType then
      (s.input.map fun address => (address, parseInstructionData l)).toList ++ ids
    else ids
  | _, ids => ids

/-- The client, and the ids it has been given. -/
def issuing : Machine (Sessions A × List (A × Text)) (Event A) := machine.recording issued []

/-- A `RECONNECT` carries an id that the server it is sent to has given. -/
def ReconnectsKnown (x : Sessions A × List (A × Text)) (e : Event A) : Prop :=
  ∀ address playerId, x.1.sent e = some (address, .reconnect playerId) →
    ∃ id, playerId = some id ∧ (address, id) ∈ x.2

/-- The client has opened a connection to reconnect, but has not been given any id. -/
def Unregistered (x : Sessions A × List (A × Text)) : Event A → Prop
  | .introduces _ => x.1.reconnecting = true ∧ x.2 = []
  | _ => False

/-- `connectServer` is called while the last thread sleeps. -/
def Disturbs (s : Sessions A) : Event A → Prop
  | .called _ _ => ∃ t ∈ s.thread, s.threads[t]? = some .sleeping
  | _ => False

instance (s : Sessions A) (l : Text) : Decidable (∃ event, s.notification l = .ok (some event)) :=
  match s.notification l with
  | .ok (some event) => isTrue ⟨event, rfl⟩
  | .ok none => isFalse (by simp)
  | .error _ => isFalse (by simp)

instance (s : Sessions A) : ∀ e : Event A, Decidable (s.Enabled e)
  | .called _ _ => inferInstanceAs (Decidable (s.call.isNone = true))
  | .connects => inferInstanceAs
      (Decidable (∃ call ∈ s.call, ∀ t ∈ call.joined, s.threads[t]? = some .ended))
  | .opens t => inferInstanceAs (Decidable (s.threads[t]? = some .opening))
  | .introduces t | .stalls t => inferInstanceAs (Decidable (s.threads[t]? = some .opened))
  | .resumes t => inferInstanceAs (Decidable (s.call.isNone ∧ s.threads[t]? = some .stalled))
  | .reads t l => inferInstanceAs (Decidable (s.threads[t]? = some .listening ∧
      (s.notification l = .ok none ∨ s.call.isNone ∧ (s.notification l).isOk)))
  | .consumes t l => inferInstanceAs (Decidable (s.threads[t]? = some .listening ∧
      ∃ event, s.notification l = .ok (some event)))
  | .notifies t => inferInstanceAs (Decidable (s.call.isNone ∧ s.threads[t]? = some .notifying))
  | .throws t => inferInstanceAs
      (Decidable (s.threads[t]? = some .opening ∨ s.threads[t]? = some .listening))
  | .fails t none _ => inferInstanceAs (Decidable (s.call.isNone ∧
      ∃ stage ∈ [ThreadStage.opening, .listening, .notifying, .failing],
        s.threads[t]? = some stage))
  | .fails t (some l) _ => inferInstanceAs (Decidable (s.call.isNone ∧
      s.threads[t]? = some .listening ∧ ∃ event, s.notification l = .ok (some event)))
  | .restarts t => inferInstanceAs (Decidable (s.threads[t]? = some .sleeping))
  | .disconnects => inferInstanceAs (Decidable True)

instance (s : Sessions A) (e : Event A) : Decidable (machine.Enabled s e) :=
  inferInstanceAs (Decidable (s.Enabled e))

instance (s : Sessions A) : ∀ e : Event A, Decidable (s.Disturbs e)
  | .called _ _ => inferInstanceAs (Decidable (∃ t ∈ s.thread, s.threads[t]? = some .sleeping))
  | .connects | .opens _ | .introduces _ | .stalls _ | .resumes _ | .reads _ _ | .consumes _ _
  | .notifies _ | .throws _ | .fails _ _ _ | .restarts _ | .disconnects =>
    inferInstanceAs (Decidable False)

instance (x : Sessions A × List (A × Text)) : ∀ e : Event A, Decidable (Unregistered x e)
  | .introduces _ => inferInstanceAs (Decidable (x.1.reconnecting = true ∧ x.2 = []))
  | .called _ _ | .connects | .opens _ | .stalls _ | .resumes _ | .reads _ _ | .consumes _ _
  | .notifies _ | .throws _ | .fails _ _ _ | .restarts _ | .disconnects =>
    inferInstanceAs (Decidable False)

/-! ## What the messages do -/

theorem onMessage_id {c : Client} {l : Text}
    (hl : parseInstructionType l = .ok playerIdInstructionType) :
    c.onMessage l = .ok ({ c with playerId := some (parseInstructionData l) }, none) := by
  rw [Client.onMessage, hl]
  rfl

/-- Only an `ID` changes the id of the client. -/
theorem playerId_onMessage {c c' : Client} {l : Text} {event : Option GameEvent}
    (hl : parseInstructionType l ≠ .ok playerIdInstructionType)
    (h : c.onMessage l = .ok (c', event)) : c'.playerId = c.playerId := by
  rw [Client.onMessage] at h
  cases htype : parseInstructionType l with
  | error e => simp [htype, bind, Except.bind] at h
  | ok type =>
    have hne : type ≠ playerIdInstructionType := fun heq => hl (htype.trans (congrArg _ heq))
    simp only [htype, bind, Except.bind, pure, Except.pure, if_neg hne] at h
    split_ifs at h
    all_goals first
      | (obtain ⟨rfl, -⟩ := Prod.mk.inj (Except.ok.inj h); rfl)
      | (split at h
         · exact absurd h (by simp)
         · obtain ⟨rfl, -⟩ := Prod.mk.inj (Except.ok.inj h); rfl)

/-- The fields that a message leaves as they are. -/
theorem processed_eq (s : Sessions A) (l : Text) :
    ∃ playerId running, s.processed l = { s with playerId := playerId, running := running } := by
  rw [processed]
  split
  · exact ⟨_, _, rfl⟩
  · exact ⟨s.playerId, s.running, rfl⟩

/-- The id of a client after a message. -/
theorem playerId_processed (s : Sessions A) (l : Text) : (s.processed l).playerId =
    if parseInstructionType l = .ok playerIdInstructionType then some (parseInstructionData l)
    else s.playerId := by
  rw [processed]
  split_ifs with hl
  · rw [onMessage_id hl]
  · cases hm : s.client.onMessage l with
    | error e => rfl
    | ok r => exact playerId_onMessage hl hm

/-! ## The invariant -/

/-- A single thread is running, and the ids of the client are those of its server. -/
structure Inv (x : Sessions A × List (A × Text)) : Prop where
  alone : ∀ (t : ℕ) (st : ThreadStage), x.1.threads[t]? = some st → st ≠ .ended →
    x.1.thread = some t
  joined : ∀ call ∈ x.1.call, call.joined = x.1.thread
  awake : ∀ t : ℕ, x.1.call.isSome → x.1.threads[t]? ≠ some .sleeping
  addressed : ∀ t : ℕ, x.1.threads[t]? ≠ none → x.1.serverAddress.isSome
  connected : ∀ (t : ℕ) (st : ThreadStage), x.1.threads[t]? = some st → st.isConnected →
    x.1.input = x.1.serverAddress ∧ x.1.out = x.1.serverAddress
  settled : ∀ (t : ℕ) (st : ThreadStage), x.1.threads[t]? = some st → st.isSettled →
    x.1.reconnecting = false
  known : ∀ id ∈ x.1.playerId, ∃ address ∈ x.1.serverAddress, (address, id) ∈ x.2
  given : x.2 ≠ [] → x.1.playerId.isSome

variable {s s' : Sessions A} {ids ids' : List (A × Text)} {t : ℕ} {st st' : ThreadStage}
  {e : Event A} {es : List (Event A)}

/-- A thread of the client moves on, which is the only one. -/
theorem Inv.moved (h : Inv (s, ids)) (ht : s.threads[t]? = some st) (hlive : st ≠ .ended)
    (hthreads : s'.threads = s.threads.set t st') (hthread : s'.thread = s.thread)
    (haddress : s'.serverAddress = s.serverAddress) (hcall : s'.call = s.call)
    (hawake : st' = .sleeping → s.call = none)
    (hconnected : st'.isConnected → s'.input = s'.serverAddress ∧ s'.out = s'.serverAddress)
    (hsettled : st'.isSettled → s'.reconnecting = false)
    (hknown : ∀ id ∈ s'.playerId, ∃ address ∈ s'.serverAddress, (address, id) ∈ ids')
    (hgiven : ids' ≠ [] → s'.playerId.isSome) : Inv (s', ids') := by
  have hset : ∀ {t' : ℕ} {st'' : ThreadStage}, s'.threads[t']? = some st'' →
      t' = t ∧ st'' = st' ∨ st'' = .ended := by
    intro t' st'' h'
    rw [hthreads, List.getElem?_set] at h'
    split_ifs at h' with heq
    · exact .inl ⟨heq.symm, (Option.some.inj h').symm⟩
    · -- Two threads that are not over are the same.
      by_contra hnot
      rw [not_or] at hnot
      have hsame := (h.alone t st ht hlive).symm.trans (h.alone t' st'' h' hnot.2)
      exact heq (Option.some.inj hsame)
  refine ⟨fun t' st'' h' hne => ?_, fun call hc => ?_, fun t' hc h' => ?_, fun t' h' => ?_,
    fun t' st'' h' hst => ?_, fun t' st'' h' hst => ?_, hknown, hgiven⟩
  · rcases hset h' with ⟨rfl, -⟩ | hend
    · exact hthread.trans (h.alone t' st ht hlive)
    · exact absurd hend hne
  · exact (h.joined call (hcall ▸ hc)).trans hthread.symm
  · rcases hset h' with ⟨-, hsleeping⟩ | hend
    · rw [hcall, hawake hsleeping.symm] at hc
      exact absurd hc (by simp)
    · exact absurd hend (by simp)
  · exact haddress ▸ h.addressed t (by simp [ht])
  · rcases hset h' with ⟨-, rfl⟩ | rfl
    · exact hconnected hst
    · exact absurd hst (by decide)
  · rcases hset h' with ⟨-, rfl⟩ | rfl
    · exact hsettled hst
    · exact absurd hst (by decide)

/-- A thread leaves its connection. -/
theorem Inv.closed (h : Inv (s, ids)) (ht : s.threads[t]? = some st) (hlive : st ≠ .ended)
    (hthreads : s'.threads = s.threads) (hthread : s'.thread = s.thread)
    (haddress : s'.serverAddress = s.serverAddress) (hcall : s'.call = s.call)
    (hawake : s'.reconnecting = true → s.call = none)
    (hknown : ∀ id ∈ s'.playerId, ∃ address ∈ s'.serverAddress, (address, id) ∈ ids')
    (hgiven : ids' ≠ [] → s'.playerId.isSome) : Inv (s'.closed t, ids') := by
  have hnext : (s'.closed t).threads =
      s.threads.set t (if s'.reconnecting then .sleeping else .ended) := by
    rw [← hthreads]
    rfl
  refine h.moved ht hlive hnext hthread haddress hcall (fun hst => ?_) (fun hst => ?_)
    (fun hst => ?_) hknown hgiven
  · by_cases hr : s'.reconnecting = true
    · exact hawake hr
    · exact absurd hst (by simp [hr])
  · split_ifs at hst <;> exact absurd hst (by decide)
  · split_ifs at hst <;> exact absurd hst (by decide)

/-- A thread that has read a line goes on. -/
theorem Inv.looped (h : Inv (s, ids)) (ht : s.threads[t]? = some st) (hst : st.isSettled)
    (hthreads : s'.threads = s.threads) (hthread : s'.thread = s.thread)
    (haddress : s'.serverAddress = s.serverAddress) (hcall : s'.call = s.call)
    (hinput : s'.input = s.input) (hout : s'.out = s.out)
    (hreconnecting : s'.reconnecting = s.reconnecting)
    (hknown : ∀ id ∈ s'.playerId, ∃ address ∈ s'.serverAddress, (address, id) ∈ ids')
    (hgiven : ids' ≠ [] → s'.playerId.isSome) : Inv (s'.looped t, ids') := by
  have hlive : st ≠ .ended := by
    rintro rfl
    exact absurd hst (by decide)
  have hconnected : st.isConnected := by cases st <;> first | rfl | exact hst
  have hsettled : s'.reconnecting = false := hreconnecting.trans (h.settled t st ht hst)
  rw [Sessions.looped]
  split_ifs
  · refine h.moved ht hlive (by rw [← hthreads]) hthread haddress hcall (by simp) (fun _ => ?_)
      (fun _ => hsettled) hknown hgiven
    rw [hinput, hout, haddress]
    exact h.connected t st ht hconnected
  · refine h.closed ht hlive hthreads hthread haddress hcall (fun hr => ?_) hknown hgiven
    exact absurd (hsettled.symm.trans hr) (by simp)

/-- A thread that has introduced the client goes on. -/
theorem Inv.introduced (h : Inv (s, ids)) (ht : s.threads[t]? = some st) (hst : st.isConnected)
    (hlive : st ≠ .ended) : Inv (({ s with reconnecting := false }).looped t, ids) := by
  rw [Sessions.looped]
  split_ifs
  · exact h.moved ht hlive rfl rfl rfl rfl (by simp) (fun _ => h.connected t st ht hst)
      (fun _ => rfl) h.known h.given
  · exact h.closed ht hlive rfl rfl rfl rfl (by simp) h.known h.given

/-- A new thread starts when all the others are over. -/
theorem Inv.started {threads : List ThreadStage}
    (hended : ∀ (t : ℕ) (st : ThreadStage), threads[t]? = some st → st = .ended)
    (hthreads : s'.threads = threads ++ [.opening]) (hthread : s'.thread = some threads.length)
    (hcall : s'.call = none) (haddress : s'.serverAddress.isSome)
    (hknown : ∀ id ∈ s'.playerId, ∃ address ∈ s'.serverAddress, (address, id) ∈ ids')
    (hgiven : ids' ≠ [] → s'.playerId.isSome) : Inv (s', ids') := by
  -- The new thread is the last one of the list.
  have hget : ∀ {t : ℕ} {st : ThreadStage}, s'.threads[t]? = some st →
      st = .ended ∨ t = threads.length ∧ st = .opening := by
    intro t st ht
    rw [hthreads, List.getElem?_append] at ht
    split_ifs at ht with hlt
    · exact .inl (hended t st ht)
    · obtain ⟨hidx, hst⟩ := List.getElem?_eq_some_iff.1 ht
      simp only [List.length_cons, List.length_nil] at hidx
      refine .inr ⟨by omega, ?_⟩
      rw [← hst]
      simp
  refine ⟨fun t st ht hlive => ?_, by simp [hcall], by simp [hcall], fun _ _ => haddress,
    fun t st ht hst => ?_, fun t st ht hst => ?_, hknown, hgiven⟩
  · rcases hget ht with hst | ⟨rfl, -⟩
    · exact absurd hst hlive
    · exact hthread
  · rcases hget ht with rfl | ⟨-, rfl⟩ <;> exact absurd hst (by decide)
  · rcases hget ht with rfl | ⟨-, rfl⟩ <;> exact absurd hst (by decide)

/-- A message keeps what is known about the ids. -/
theorem Inv.processed (h : Inv (s, ids)) (ht : s.threads[t]? = some .listening) (l : Text)
    (notified : Bool) :
    (∀ id ∈ (s.processed l).playerId, ∃ address ∈ s.serverAddress,
      (address, id) ∈ issued s (.fails t (some l) notified) ids) ∧
    (issued s (.fails t (some l) notified) ids ≠ [] → (s.processed l).playerId.isSome) := by
  obtain ⟨hinput, -⟩ := h.connected t _ ht rfl
  obtain ⟨address, haddress⟩ := Option.isSome_iff_exists.1 (h.addressed t (by simp [ht]))
  rw [playerId_processed, issued, hinput, haddress]
  split_ifs with hl
  · -- The id has just been given, by the server of the client.
    refine ⟨fun id hid => ⟨address, rfl, ?_⟩, fun _ => rfl⟩
    obtain rfl := Option.some.inj hid
    simp
  · exact ⟨haddress ▸ h.known, h.given⟩

/-- Every event keeps the invariant, if `connectServer` is not called while a thread
    sleeps. -/
theorem Inv.next (h : Inv (s, ids)) (he : s.Enabled e) (hnot : ¬s.Disturbs e) :
    Inv (s.next e, issued s e ids) := by
  cases e with
  | called playerName serverAddress =>
    refine ⟨h.alone, fun call hcall => ?_, fun t _ ht => ?_, h.addressed, h.connected, h.settled,
      h.known, h.given⟩
    · obtain rfl := Option.some.inj hcall
      rfl
    · exact hnot ⟨t, h.alone t _ ht (by simp), ht⟩
  | connects =>
    obtain ⟨call, hcall, hended⟩ := he
    -- The thread that `connectServer` has joined was the only one.
    have hover : ∀ (t : ℕ) (st : ThreadStage), s.threads[t]? = some st → st = .ended := by
      intro t st ht
      by_contra hlive
      have hthread : call.joined = some t := (h.joined call hcall).trans (h.alone t st ht hlive)
      exact hlive (Option.some.inj (ht.symm.trans (hended t hthread)))
    rw [Sessions.next, hcall]
    exact .started hover rfl rfl rfl rfl (by simp) fun hne => absurd rfl hne
  | opens t =>
    exact h.moved he (by simp) rfl rfl rfl rfl (by simp) (fun _ => ⟨rfl, rfl⟩)
      (fun hst => absurd hst (by decide)) h.known h.given
  | introduces t => exact h.introduced he (by decide) (by decide)
  | resumes t => exact h.introduced he.2 (by decide) (by decide)
  | stalls t =>
    exact h.moved he (by simp) rfl rfl rfl rfl (by simp) (fun _ => h.connected t _ he rfl)
      (fun hst => absurd hst (by decide)) h.known h.given
  | reads t l =>
    obtain ⟨playerId, running, heq⟩ := processed_eq s l
    obtain ⟨hknown, hgiven⟩ := h.processed he.1 l true
    rw [heq] at hknown hgiven
    rw [Sessions.next, heq]
    exact h.looped he.1 rfl rfl rfl rfl rfl rfl rfl rfl hknown hgiven
  | consumes t l =>
    obtain ⟨playerId, running, heq⟩ := processed_eq s l
    obtain ⟨hknown, hgiven⟩ := h.processed he.1 l true
    rw [heq] at hknown hgiven
    rw [Sessions.next, heq]
    exact h.moved he.1 (by simp) rfl rfl rfl rfl (by simp) (fun _ => h.connected t _ he.1 rfl)
      (fun _ => h.settled t _ he.1 rfl) hknown hgiven
  | notifies t => exact h.looped he.2 rfl rfl rfl rfl rfl rfl rfl rfl h.known h.given
  | throws t =>
    obtain ⟨st, ht, hlive⟩ : ∃ st, s.threads[t]? = some st ∧ st ≠ .ended := by
      rcases he with ht | ht
      · exact ⟨_, ht, by simp⟩
      · exact ⟨_, ht, by simp⟩
    exact h.moved ht hlive rfl rfl rfl rfl (by simp) (fun hst => absurd hst (by decide))
      (fun hst => absurd hst (by decide)) h.known h.given
  | fails t l notified =>
    obtain ⟨hcall, hstage⟩ := he
    have hnone : s.call = none := Option.isNone_iff_eq_none.1 hcall
    -- The exception comes with a line that has been read, or without any.
    rw [Sessions.next, failed]
    cases l with
    | none =>
      obtain ⟨st, hmem, ht⟩ := hstage
      have hlive : st ≠ .ended := by
        rintro rfl
        simp at hmem
      split_ifs <;> exact h.closed ht hlive rfl rfl rfl rfl (fun _ => hnone) h.known h.given
    | some l =>
      obtain ⟨playerId, running, heq⟩ := processed_eq s l
      obtain ⟨hknown, hgiven⟩ := h.processed hstage.1 l notified
      rw [heq] at hknown hgiven
      rw [Option.elim_some, heq]
      split_ifs <;>
        exact h.closed hstage.1 (by simp) rfl rfl rfl rfl (fun _ => hnone) hknown hgiven
  | restarts t =>
    have hsleeps : s.threads[t]? = some .sleeping := he
    have hcall : s.call = none := by
      by_contra hsome
      exact h.awake t (Option.isSome_iff_ne_none.2 hsome) hsleeps
    -- The thread that slept was the only one.
    have hover : ∀ (t' : ℕ) (st : ThreadStage), (s.threads.set t .ended)[t']? = some st →
        st = .ended := by
      intro t' st ht'
      rw [List.getElem?_set] at ht'
      split_ifs at ht' with heq
      · exact (Option.some.inj ht').symm
      · refine by_contra fun hlive => heq ?_
        exact Option.some.inj ((h.alone t _ hsleeps (by simp)).symm.trans (h.alone t' st ht' hlive))
    refine .started hover rfl ?_ hcall (h.addressed t (by simp [hsleeps])) h.known h.given
    simp [Sessions.next]
  | disconnects =>
    exact ⟨h.alone, h.joined, h.awake, h.addressed, h.connected, h.settled, h.known, h.given⟩

theorem inv_new : Inv ((new, []) : Sessions A × List (A × Text)) :=
  ⟨by simp [new], by simp [new], by simp [new], by simp [new], by simp [new], by simp [new],
    by simp [new], by simp⟩

/-- What the invariant implies for each step happens along the runs where `connectServer` is
    not called while a thread sleeps. -/
theorem along_of_inv {P : Sessions A × List (A × Text) → Event A → Prop} (h : machine.IsRun s es)
    (hcalls : machine.Along (fun s e => ¬s.Disturbs e) s es)
    (hP : ∀ x e, Inv x → x.1.Enabled e → P x e) : issuing.Along P (s, []) es := by
  have hcalls' : issuing.Along (fun x e => ¬x.1.Disturbs e) (s, []) es :=
    (Machine.along_recording (P := fun (s : Sessions A) (e : Event A) => ¬s.Disturbs e)).2 hcalls
  refine h.recording.along_of_invariant hcalls' ?_ (fun x e _ hx he hnot => hx.next he hnot)
    fun x e _ hx he _ => hP x e hx he
  rintro ⟨s, ids⟩ ⟨rfl, rfl⟩
  exact inv_new

/-! ## The reconnections -/

theorem introduction_client (s : Sessions A) : s.client.introduction =
    if s.reconnecting = true then .reconnect s.playerId else .connect s.playerName := rfl

/-- A `RECONNECT` carries an id of the server exactly if the client has been given one. -/
theorem Inv.reconnectsKnown_iff {x : Sessions A × List (A × Text)} (h : Inv x)
    (he : x.1.Enabled e) : ReconnectsKnown x e ↔ ¬Unregistered x e := by
  constructor
  · intro hknown hunregistered
    cases e with
    | introduces t =>
      obtain ⟨hreconnecting, hids⟩ := hunregistered
      obtain ⟨address, haddress⟩ :=
        Option.isSome_iff_exists.1 (h.addressed t (by rw [show x.1.threads[t]? = _ from he]; simp))
      have hsent : x.1.sent (.introduces t) = some (address, .reconnect x.1.playerId) := by
        rw [sent, (h.connected t _ he rfl).2, haddress, introduction_client,
          if_pos hreconnecting]
        rfl
      -- No id has been given since `connectServer`: none can be known.
      obtain ⟨id, -, hmem⟩ := hknown address _ hsent
      rw [hids] at hmem
      exact absurd hmem List.not_mem_nil
    | _ => exact hunregistered
  · intro hnot address playerId hsent
    cases e with
    | introduces t =>
      obtain ⟨a, hout, heq⟩ := Option.map_eq_some_iff.1 hsent
      obtain ⟨rfl, hintroduction⟩ := Prod.mk.inj heq
      rw [(h.connected t _ he rfl).2] at hout
      by_cases hreconnecting : x.1.reconnecting = true
      · rw [introduction_client, if_pos hreconnecting] at hintroduction
        obtain rfl := Command.reconnect.inj hintroduction
        -- The client has been given an id, as it has registered.
        have hids : x.2 ≠ [] := fun hids => hnot ⟨hreconnecting, hids⟩
        obtain ⟨id, hid⟩ := Option.isSome_iff_exists.1 (h.given hids)
        obtain ⟨a', ha', hmem⟩ := h.known id hid
        obtain rfl := Option.some.inj (hout.symm.trans ha')
        exact ⟨id, hid, hmem⟩
      · rw [introduction_client, if_neg hreconnecting] at hintroduction
        exact absurd hintroduction (by simp)
    | _ => exact absurd hsent (by simp [sent])

/-- When `connectServer` is not called while a thread sleeps, the client only reconnects with
    ids of its server exactly if it has been given one before each time it reconnects. -/
theorem reconnects_iff (h : machine.IsRun s es)
    (hcalls : machine.Along (fun s e => ¬s.Disturbs e) s es) :
    issuing.Along ReconnectsKnown (s, []) es ↔
      issuing.Along (fun x e => ¬Unregistered x e) (s, []) es :=
  (along_of_inv h hcalls fun _ _ hx he => hx.reconnectsKnown_iff he).congr

/-- A client whose thread fails to connect to a server, and then manages to. -/
def lateConnection : List (Event ℕ) :=
  [.called "Bob".toList 0, .connects, .fails 0 none true, .restarts 0, .opens 1, .introduces 1]

/-- The client reconnects with the id `null`. -/
theorem late_connection : ¬∀ (s : Sessions ℕ) es, machine.IsRun s es →
    issuing.Along ReconnectsKnown (s, []) es := by
  intro h
  have hknown := h new lateConnection ⟨rfl, by decide⟩
  obtain ⟨id, hid, -⟩ := hknown.2.2.2.2.2.1 0 none (by decide)
  exact absurd hid (by simp)

/-- A client that loses its connection to a server after having read an id. -/
def lostConnection : List (Event ℕ) :=
  [.called "Bob".toList 0, .connects, .opens 0, .introduces 0, .reads 0 "ID 7".toList,
    .fails 0 none true, .restarts 0, .opens 1, .introduces 1]

theorem isRun_lostConnection : machine.IsRun new lostConnection := ⟨rfl, by decide⟩

/-- The client reconnects with its id. -/
theorem lost_connection : issuing.Along ReconnectsKnown (new, []) lostConnection :=
  (reconnects_iff isRun_lostConnection (by decide)).2 (by decide)

/-- A client that is told to connect to another server before it has reconnected to the first
    one. -/
def crossedConnections : List (Event ℕ) :=
  [.called "Bob".toList 0, .connects, .opens 0, .introduces 0, .reads 0 "ID 7".toList,
    .fails 0 none true, .called "Bob".toList 1, .restarts 0, .opens 1, .introduces 1, .connects,
    .reads 1 "ID 7".toList, .fails 1 none true, .restarts 1, .opens 3]

-- The client introduces itself to the second server with an id of the first one.
example : machine.IsRun new crossedConnections ∧
    (machine.after new crossedConnections).sent (.introduces 3) =
      some (1, .reconnect (some "7".toList)) ∧
    (issuing.after (new, []) crossedConnections).2 = [(0, "7".toList)] :=
  ⟨⟨rfl, by decide⟩, by decide, by decide⟩

end Sessions

end Gaze
