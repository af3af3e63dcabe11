import Gaze.ClientHandler
import Gaze.Java.Calls
import Gaze.Server.Exceptions

/-!
# The end of a handler

`ClientHandler.run` loops until somebody closes the handler, and then tells its
listeners that the client is disconnected. At the end of the stream, `readLine`
gives `null`; the loop does not end there: it passes `null` to the listeners, and
goes on. So a handler that nobody closes only ends when a listener throws.

* `closes_once_iff` says when the loop ends, and tells each listener once, after
  all the messages;
* with the server, which ignores `null`, it is when the last line, and no other,
  makes it throw (`closesOnce_serverListeners_iff`). The handler of a client that
  closes its socket otherwise loops forever (`run_serverListeners_eq_none`).

The loop makes the calls for the messages that `ClientHandler.run` passes
(`loop_eq_ended`).
-/

namespace Gaze

open Java

namespace ClientHandler

/-- A call of a handler to one of its listeners. -/
inductive Call (L : Type)
  | received (listener : L) (message : Option Text)
  | disconnected (listener : L)
  deriving DecidableEq

/-- The listeners of a handler, in the order in which they have been added before it
    runs. The state is all that they read and write; they may throw, but no
    `IOException`. -/
structure Listeners (L S : Type) where
  /-- The listeners. -/
  all : List L
  /-- `ClientHandlerListener.onMessageReceived`. -/
  onMessageReceived : L → Option Text → S → S × Except Throwable Unit
  /-- `ClientHandlerListener.onClientDisconnected`. -/
  onClientDisconnected : L → S → S × Except Throwable Unit

namespace Listeners

variable {L S : Type} (ls : Listeners L S)

/-- What a listener answers. -/
def answer : Call L → S → S × Except Throwable Unit
  | .received l message => ls.onMessageReceived l message
  | .disconnected l => ls.onClientDisconnected l

/-- A message is passed to each listener. -/
def pass (message : Option Text) : List (Call L) := ls.all.map (.received · message)

/-- Messages, one after the other. -/
def passAll (messages : List (Option Text)) : List (Call L) := messages.flatMap ls.pass

/-- Each listener is told that the client is disconnected. -/
def farewell : List (Call L) := ls.all.map .disconnected

/-- A message is passed, and then, if no listener throws, the loop goes on. -/
def passThen (message : Option Text) (s : S) (next : S → Option (Outcome S (Call L) Unit)) :
    Option (Outcome S (Call L) Unit) :=
  let o := (Prog.calls ls.answer (ls.pass message)).exec s
  match o.result with
  | .ok () => (next o.state).map (Outcome.after o.emitted)
  | .error _ => some o

/-- The loop of `ClientHandler.run`, nobody clearing `running`: what it has done when
    it is over, if it is after the given number of rounds. -/
def loop : ℕ → S → BufferedReader → Option (Outcome S (Call L) Unit)
  | 0, _, _ => none
  | n + 1, s, reader =>
    match reader.readLine with
    | (.line l, reader') => ls.passThen (some l) s fun s' => loop n s' reader'
    | (.endOfStream, reader') => ls.passThen none s fun s' => loop n s' reader'
    | (.timeout, reader') => loop n s reader'

/-- `ClientHandler.run`, up to `listeners.clear`. -/
def run (n : ℕ) (s : S) (reader : BufferedReader) : Option (Outcome S (Call L) Unit) :=
  (ls.loop n s reader).map (·.andFinally (Prog.calls ls.answer ls.farewell))

/-- The loop ends, and each listener is told once that the client is disconnected,
    after all the lines; `null` may be passed in between. -/
def ClosesOnce (s : S) (reader : BufferedReader) : Prop :=
  ∃ n o nulls, ls.run n s reader = some o ∧ (∀ c ∈ nulls, ∃ l, c = .received l none) ∧
    o.emitted = ls.passAll (reader.pending.map some) ++ nulls ++ ls.farewell

/-- The calls to the listeners for some lines, and then for `null`, that many times. -/
def linesThenNulls (lines : List Text) (k : ℕ) : List (Call L) :=
  ls.passAll (lines.map some ++ List.replicate k none)

/-- A listener throws, not before the last call for a line; then the others can be told
    that the client is disconnected. -/
structure ThrowsAtEnd (s : S) (lines : List Text) : Prop where
  /-- No call for a line throws, but perhaps the last. -/
  late : Prog.Quiet ls.answer (ls.passAll (lines.map some)).dropLast s
  /-- A call for a line or for `null` throws; afterwards, no listener but the last
      throws when it is told that the client is disconnected. -/
  throws : ∃ k, ¬Prog.Quiet ls.answer (ls.linesThenNulls lines k) s ∧
    Prog.Quiet ls.answer ls.farewell.dropLast
      ((Prog.calls ls.answer (ls.linesThenNulls lines k)).exec s).state

variable {ls} {s : S} {reader : BufferedReader} {n : ℕ} {o : Outcome S (Call L) Unit}

/-! ## The loop -/

/-- What follows a message that is passed. -/
theorem passThen_eq_some {message : Option Text} {next : S → Option (Outcome S (Call L) Unit)}
    {cs : List (Call L)}
    (hnext : ∀ s', ¬Prog.Quiet ls.answer cs s' →
      next s' = some ((Prog.calls ls.answer cs).exec s'))
    (hthrows : ¬Prog.Quiet ls.answer (ls.pass message ++ cs) s) :
    ls.passThen message s next =
      some ((Prog.calls ls.answer (ls.pass message ++ cs)).exec s) := by
  rw [Prog.quiet_append_iff, not_and] at hthrows
  rw [Prog.exec_calls_append, passThen]
  simp only [Prog.Quiet] at hthrows hnext
  generalize (Prog.calls ls.answer (ls.pass message)).exec s = o at hthrows ⊢
  obtain ⟨s', os, e | u⟩ := o
  · rfl
  · rw [Outcome.andThen_ok]
    simp only
    rw [hnext s' (hthrows rfl)]
    rfl

/-- What has been done when a message is passed and the loop ends. -/
theorem of_passThen_eq_some {message : Option Text}
    {next : S → Option (Outcome S (Call L) Unit)} {cs : ℕ → List (Call L)}
    (hnext : ∀ s' o', next s' = some o' →
      ∃ k, ¬Prog.Quiet ls.answer (cs k) s' ∧ (Prog.calls ls.answer (cs k)).exec s' = o')
    (h : ls.passThen message s next = some o) :
    ∃ k, ¬Prog.Quiet ls.answer (ls.pass message ++ cs k) s ∧
      (Prog.calls ls.answer (ls.pass message ++ cs k)).exec s = o := by
  simp only [Prog.quiet_append_iff, not_and, Prog.exec_calls_append]
  rw [passThen] at h
  simp only [Prog.Quiet] at hnext ⊢
  generalize (Prog.calls ls.answer (ls.pass message)).exec s = o' at h ⊢
  obtain ⟨s', os, e | u⟩ := o'
  · exact ⟨0, by simp, Option.some.inj h⟩
  · obtain ⟨o'', hnext', rfl⟩ := Option.map_eq_some_iff.1 h
    obtain ⟨k, hthrows, rfl⟩ := hnext s' o'' hnext'
    exact ⟨k, fun _ => hthrows, rfl⟩

/-- Once enough calls are made for one of them to throw, the loop is over. -/
theorem loop_of_throws (hline : reader.reader.line = []) {k : ℕ} (hn : reader.size + k < n)
    (hthrows : ¬Prog.Quiet ls.answer (ls.linesThenNulls reader.pending k) s) :
    ls.loop n s reader =
      some ((Prog.calls ls.answer (ls.linesThenNulls reader.pending k)).exec s) := by
  induction n generalizing s reader k with
  | zero => omega
  | succ n ih =>
    have hreads := BufferedReader.reads hline
    rw [loop]
    generalize reader.readLine = read at hreads ⊢
    cases hreads with
    | line l b' hpending hline' hsize =>
      rw [hpending] at hthrows ⊢
      exact passThen_eq_some (fun s' => ih hline' (by omega)) hthrows
    | endOfStream b' hpending hpending' hline' hover =>
      rw [hpending] at hthrows ⊢
      -- At the end of the stream, each round makes the calls for one `null`.
      cases k with
      | zero => exact absurd rfl hthrows
      | succ k =>
        have hnext : ∀ s', ¬Prog.Quiet ls.answer (ls.linesThenNulls [] k) s' →
            ls.loop n s' b' = some ((Prog.calls ls.answer (ls.linesThenNulls [] k)).exec s') := by
          rw [← hpending']
          exact fun s' => ih hline' (by omega)
        exact passThen_eq_some hnext hthrows
    | timeout b' hpending hline' hsize =>
      rw [hpending] at hthrows ⊢
      exact ih hline' (by omega) hthrows

/-- When the loop is over, one of the calls has thrown. -/
theorem of_loop_eq_some (hline : reader.reader.line = []) (h : ls.loop n s reader = some o) :
    ∃ k, ¬Prog.Quiet ls.answer (ls.linesThenNulls reader.pending k) s ∧
      (Prog.calls ls.answer (ls.linesThenNulls reader.pending k)).exec s = o := by
  induction n generalizing s reader o with
  | zero => simp [loop] at h
  | succ n ih =>
    have hreads := BufferedReader.reads hline
    rw [loop] at h
    generalize reader.readLine = read at hreads h
    cases hreads with
    | line l b' hpending hline' =>
      rw [hpending]
      exact of_passThen_eq_some (fun s' o' => ih hline') h
    | endOfStream b' hpending hpending' hline' =>
      rw [hpending]
      obtain ⟨k, hk⟩ := of_passThen_eq_some
        (fun s' o' hloop => by simpa only [hpending'] using ih hline' hloop) h
      exact ⟨k + 1, hk⟩
    | timeout b' hpending hline' =>
      rw [hpending]
      exact ih hline' h

/-- The loop never ends while no listener throws. -/
theorem loop_eq_none_of_quiet (hline : reader.reader.line = [])
    (h : ∀ k, Prog.Quiet ls.answer (ls.linesThenNulls reader.pending k) s) (n : ℕ) :
    ls.loop n s reader = none := by
  rw [Option.eq_none_iff_forall_ne_some]
  intro o ho
  obtain ⟨k, hthrows, -⟩ := of_loop_eq_some hline ho
  exact hthrows (h k)

/-- The loop only ends with an exception. -/
theorem result_of_run (hline : reader.reader.line = []) (h : ls.run n s reader = some o) :
    ∃ e, o.result = .error e := by
  obtain ⟨o', hloop, rfl⟩ := Option.map_eq_some_iff.1 h
  obtain ⟨k, hthrows, rfl⟩ := of_loop_eq_some hline hloop
  rw [Prog.Quiet] at hthrows
  cases hresult : ((Prog.calls ls.answer (ls.linesThenNulls reader.pending k)).exec s).result with
  | ok u => exact absurd hresult hthrows
  | error e => exact Outcome.andFinally_throws hresult _

/-! ## The calls -/

theorem linesThenNulls_eq (lines : List Text) (k : ℕ) :
    ls.linesThenNulls lines k =
      ls.passAll (lines.map some) ++ ls.passAll (List.replicate k none) := by
  simp only [linesThenNulls, passAll, List.flatMap_append]

theorem received_of_mem_passAll {messages : List (Option Text)} {c : Call L}
    (h : c ∈ ls.passAll messages) : ∃ l, ∃ m ∈ messages, c = .received l m := by
  obtain ⟨m, hm, hc⟩ := List.mem_flatMap.1 h
  obtain ⟨l, -, rfl⟩ := List.mem_map.1 hc
  exact ⟨l, m, hm, rfl⟩

/-- Messages and then farewells: which are which can be told from the calls. -/
theorem append_farewells_inj {cs cs' ds ds' : List (Call L)}
    (hcs : ∀ c ∈ cs, ∃ l m, c = .received l m) (hcs' : ∀ c ∈ cs', ∃ l m, c = .received l m)
    (hds : ∀ c ∈ ds, ∃ l, c = .disconnected l) (hds' : ∀ c ∈ ds', ∃ l, c = .disconnected l)
    (h : cs ++ ds = cs' ++ ds') : cs = cs' ∧ ds = ds' := by
  induction cs generalizing cs' with
  | nil =>
    cases cs' with
    | nil => exact ⟨rfl, h⟩
    | cons c cs' =>
      obtain ⟨l, m, rfl⟩ := hcs' c List.mem_cons_self
      have heq : ds = .received l m :: (cs' ++ ds') := h
      obtain ⟨l', hl'⟩ := hds (.received l m) (heq ▸ List.mem_cons_self)
      exact absurd hl' (by simp)
  | cons c cs ih =>
    cases cs' with
    | nil =>
      obtain ⟨l, m, rfl⟩ := hcs c List.mem_cons_self
      have heq : .received l m :: (cs ++ ds) = ds' := h
      obtain ⟨l', hl'⟩ := hds' (.received l m) (heq ▸ List.mem_cons_self)
      exact absurd hl' (by simp)
    | cons c' cs' =>
      obtain ⟨rfl, htail⟩ := List.cons.inj h
      obtain ⟨rfl, rfl⟩ := ih (fun c hc => hcs c (List.mem_cons_of_mem _ hc))
        (fun c hc => hcs' c (List.mem_cons_of_mem _ hc)) htail
      exact ⟨rfl, rfl⟩

theorem disconnected_of_mem_farewell {c : Call L} (h : c ∈ ls.farewell) :
    ∃ l, c = .disconnected l := by
  obtain ⟨l, -, rfl⟩ := List.mem_map.1 h
  exact ⟨l, rfl⟩

/-- A handler closes once exactly if a listener throws at the end of its lines. -/
theorem closesOnce_iff (hline : reader.reader.line = []) :
    ls.ClosesOnce s reader ↔ ls.ThrowsAtEnd s reader.pending := by
  constructor
  · rintro ⟨n, o, nulls, hrun, hnulls, hemitted⟩
    obtain ⟨o', hloop, rfl⟩ := Option.map_eq_some_iff.1 hrun
    obtain ⟨k, hthrows, rfl⟩ := of_loop_eq_some hline hloop
    rw [Outcome.emitted_andFinally] at hemitted
    obtain ⟨hmessages, hfarewell⟩ := append_farewells_inj
      (fun c hc => by
        obtain ⟨l, m, -, h⟩ :=
          received_of_mem_passAll ((Prog.emitted_calls_isPrefix _ _).subset hc)
        exact ⟨l, m, h⟩)
      (fun c hc => by
        rcases List.mem_append.1 hc with hc | hc
        · obtain ⟨l, m, -, h⟩ := received_of_mem_passAll hc
          exact ⟨l, m, h⟩
        · obtain ⟨l, h⟩ := hnulls c hc
          exact ⟨l, none, h⟩)
      (fun c hc => disconnected_of_mem_farewell ((Prog.emitted_calls_isPrefix _ _).subset hc))
      (fun c hc => disconnected_of_mem_farewell hc) hemitted
    refine ⟨?_, k, hthrows, Prog.emitted_calls_eq_iff.1 hfarewell⟩
    rw [linesThenNulls_eq] at hmessages
    exact Prog.quiet_dropLast_of_isPrefix ⟨nulls, hmessages.symm⟩
  · rintro ⟨hlate, k, hthrows, hfarewell⟩
    obtain ⟨nulls, hmessages, hnulls⟩ :=
      Prog.emitted_calls_append hlate (ls.passAll (List.replicate k none))
    rw [← linesThenNulls_eq] at hmessages
    refine ⟨reader.size + k + 1, _, nulls,
      by rw [run, loop_of_throws hline (Nat.lt_succ_self _) hthrows]; rfl, fun c hc => ?_, ?_⟩
    · obtain ⟨l, m, hm, rfl⟩ := received_of_mem_passAll (hnulls.subset hc)
      exact ⟨l, by rw [List.eq_of_mem_replicate hm]⟩
    · rw [Outcome.emitted_andFinally, hmessages, Prog.emitted_calls_eq_iff.2 hfarewell]

/-! ## The messages -/

/-- What the listeners answer to a message, as one. -/
def receive (ls : Listeners L S) (s : S) (message : Option Text) : Except Throwable S :=
  let o := (Prog.calls ls.answer (ls.pass message)).exec s
  match o.result with
  | .ok () => .ok o.state
  | .error e => .error e

/-- What the loop has done, if it is over because a call has thrown. -/
def ended (o : Outcome S (Call L) Unit) : Option (Outcome S (Call L) Unit) :=
  match o.result with
  | .ok () => none
  | .error _ => some o

theorem passThen_eq_ended (message : Option Text) (s : S)
    {next : S → Option (Outcome S (Call L) Unit)} {rest : S → List (Option Text)}
    (hnext : ∀ s', next s' = ended ((Prog.calls ls.answer (ls.passAll (rest s'))).exec s')) :
    ls.passThen message s next =
      ended ((Prog.calls ls.answer (ls.passAll (message ::
        match ls.receive s message with
        | .ok s' => rest s'
        | .error _ => []))).exec s) := by
  rw [passThen, receive]
  simp only [passAll, List.flatMap_cons, Prog.exec_calls_append]
  generalize (Prog.calls ls.answer (ls.pass message)).exec s = o
  obtain ⟨s', os, e | u⟩ := o
  · rfl
  · rw [Outcome.andThen_ok]
    simp only [hnext, passAll]
    generalize (Prog.calls ls.answer ((rest s').flatMap ls.pass)).exec s' = o
    obtain ⟨s'', os', e | u⟩ := o <;> rfl

/-- The loop makes the calls for the messages that `ClientHandler.run` passes, and is
    over exactly if one of them throws. -/
theorem loop_eq_ended (n : ℕ) (s : S) (reader : BufferedReader) :
    ls.loop n s reader =
      ended ((Prog.calls ls.answer
        (ls.passAll (ClientHandler.run ls.receive n s reader))).exec s) := by
  induction n generalizing s reader with
  | zero => rfl
  | succ n ih =>
    rw [loop, ClientHandler.run]
    obtain ⟨read, reader'⟩ := reader.readLine
    cases read with
    | line l =>
      have hended := passThen_eq_ended (some l) s fun s' => ih s' reader'
      cases hreceive : ls.receive s (some l) <;> simpa only [hreceive] using hended
    | endOfStream =>
      have hended := passThen_eq_ended none s fun s' => ih s' reader'
      cases hreceive : ls.receive s none <;> simpa only [hreceive] using hended
    | timeout => exact ih s reader'

end Listeners

/-- The messages of the client, and its orderly close: the loop of its handler only
    ends with an exception; it ends and each listener is told once that the client is
    disconnected, after all the messages, exactly if a listener throws at their end. -/
theorem closes_once_iff {σ L S : Type} (d : Decoder σ) (ls : Listeners L S) (s : S)
    (arrivals : List (Arrival UInt8)) :
    (∀ n o, ls.run n s (reader d arrivals) = some o → ∃ e, o.result = .error e) ∧
      (ls.ClosesOnce s (reader d arrivals) ↔ ls.ThrowsAtEnd s (reader d arrivals).pending) :=
  ⟨fun _ _ => Listeners.result_of_run rfl, Listeners.closesOnce_iff rfl⟩

/-! ## The server -/

/-- What happens between the calls of a handler to the server: what the other threads
    have done to the server before each call, and what is drawn in it. -/
abbrev Surroundings := ℕ → (Server → Server) × Choice

/-- The server is the only listener of its handlers. -/
def serverListeners (handler : ClientHandler) : Listeners Unit (Server × Surroundings) where
  all := [()]
  onMessageReceived _ message s :=
    let o := (Server.onMessageReceived handler message (s.2 0).2).exec ((s.2 0).1 s.1)
    ((o.state, fun n => s.2 (n + 1)), o.result)
  onClientDisconnected _ s :=
    let o := (Server.onClientDisconnected handler).exec ((s.2 0).1 s.1)
    ((o.state, fun n => s.2 (n + 1)), o.result)

variable {handler : ClientHandler}

theorem passAll_serverListeners (messages : List (Option Text)) :
    (serverListeners handler).passAll messages = messages.map (.received ()) := by
  rw [List.map_eq_flatMap]
  rfl

/-- The server throws on a line exactly if the line is not harmless in the state in
    which it is received. -/
theorem quiet_line_iff (l : Text) (s : Server × Surroundings) :
    Prog.Quiet (serverListeners handler).answer [.received () (some l)] s ↔
      ((s.2 0).1 s.1).Harmless handler l := by
  rw [Prog.Quiet, Prog.exec_calls_singleton, Prog.exec_call,
    ← Server.received_ok_iff _ _ _ (s.2 0).2]
  rfl

/-- The server ignores `null`. -/
theorem quiet_nulls (k : ℕ) (s : Server × Surroundings) :
    Prog.Quiet (serverListeners handler).answer
      ((serverListeners handler).passAll (List.replicate k none)) s := by
  induction k generalizing s with
  | zero => rfl
  | succ k ih =>
    rw [List.replicate_succ, Listeners.passAll, List.flatMap_cons, Prog.quiet_append_iff]
    exact ⟨rfl, ih _⟩

/-- The handler of a client of the server closes exactly if the last line, and no
    other, makes the server throw. -/
theorem closesOnce_serverListeners_iff {reader : BufferedReader} (hline : reader.reader.line = [])
    (s : Server × Surroundings) :
    (serverListeners handler).ClosesOnce s reader ↔
      Prog.Quiet (serverListeners handler).answer
        ((serverListeners handler).passAll (reader.pending.dropLast.map some)) s ∧
      ¬Prog.Quiet (serverListeners handler).answer
        ((serverListeners handler).passAll (reader.pending.map some)) s := by
  have hlast : ((serverListeners handler).passAll (reader.pending.map some)).dropLast =
      (serverListeners handler).passAll (reader.pending.dropLast.map some) := by
    rw [passAll_serverListeners, passAll_serverListeners, ← List.map_dropLast, ← List.map_dropLast]
  rw [Listeners.closesOnce_iff hline]
  constructor
  · rintro ⟨hlate, k, hthrows, -⟩
    refine ⟨hlast ▸ hlate, fun hquiet => hthrows ?_⟩
    rw [Listeners.linesThenNulls_eq, Prog.quiet_append_iff]
    exact ⟨hquiet, quiet_nulls k _⟩
  · rintro ⟨hlate, hthrows⟩
    exact ⟨hlast ▸ hlate, 0, by simpa [Listeners.linesThenNulls] using hthrows, rfl⟩

/-- A handler whose lines do not make the server throw never ends. -/
theorem run_serverListeners_eq_none {reader : BufferedReader} (hline : reader.reader.line = [])
    {s : Server × Surroundings}
    (h : Prog.Quiet (serverListeners handler).answer
      ((serverListeners handler).passAll (reader.pending.map some)) s) (n : ℕ) :
    (serverListeners handler).run n s reader = none := by
  rw [Listeners.run, Option.map_eq_none_iff]
  refine Listeners.loop_eq_none_of_quiet hline (fun k => ?_) n
  rw [Listeners.linesThenNulls_eq, Prog.quiet_append_iff]
  exact ⟨h, quiet_nulls k _⟩

/-- A client connects, and closes its socket. -/
def closingClient : List (Arrival UInt8) := [.data (encodeUtf8 "CONNECT guest\n".toList)]

/-- The server has accepted the client, and nothing else happens. -/
def acceptingServer : Server × Surroundings :=
  (Server.machine.after Server.sampleServer [.accepted ⟨1, false⟩],
    fun _ => (fun s => s, Server.sampleChoice 0))

/-- The handler of the client loops forever, and the server is not told that the client
    is disconnected. -/
theorem closed_client_kept :
    (∀ n, (serverListeners ⟨1, false⟩).run n acceptingServer
      (reader Utf8.decoder closingClient) = none) ∧
    ¬(serverListeners ⟨1, false⟩).ClosesOnce acceptingServer
      (reader Utf8.decoder closingClient) := by
  have hquiet : Prog.Quiet (serverListeners ⟨1, false⟩).answer
      ((serverListeners ⟨1, false⟩).passAll
        ((reader Utf8.decoder closingClient).pending.map some)) acceptingServer := by
    decide
  have hnone := run_serverListeners_eq_none rfl hquiet
  refine ⟨hnone, ?_⟩
  rintro ⟨n, o, -, hrun, -⟩
  rw [hnone n] at hrun
  exact absurd hrun (by simp)

end ClientHandler

end Gaze
