import Gaze.Client
import Gaze.Framing
import Gaze.Server.Runs

/-!
# Serving the commands of the clients

What the server does with the lines that clients write, and the messages it
answers with.

`served` is the handle for proofs: it relates a command to the next state of the
server, the messages it sends, and whether it is processed without exception.
-/

namespace Gaze

open Java Protocol

namespace Server

/-- A message for a handler. -/
abbrev Message := ClientHandler × ServerMessage

/-- The texts of messages. -/
def wire (ms : List Message) : List Sent := ms.map fun m => (m.1, m.2.text)

/-- A message for all the clients. -/
def announce (s : Server) (m : ServerMessage) : List Message :=
  s.clients.map fun client => (client, m)

theorem broadcast_eq_wire {s s' : Server} {m : ServerMessage} {text : Text}
    (hs : s.clients = s'.clients) (htext : text = m.text) :
    s.broadcast text = wire (s'.announce m) := by
  simp [wire, announce, broadcast, hs, htext]

/-- What serving a command from a handler may do: the next state, the messages, and
    whether no exception escapes. -/
inductive Served (s : Server) (handler : ClientHandler) (choice : Choice) :
    Command → Server → List Message → Bool → Prop
  | accepted (name : Text) : s.gameState = .lobby →
      Served s handler choice (.connect name) (s.connected handler name choice)
        ((handler, .id choice.uuid.text) :: (handler, .roomName s.roomName) ::
          (s.connected handler name choice).announce
            (.players (s.connected handler name choice).players.values)) true
  | late (name : Text) : s.gameState ≠ .lobby →
      Served s handler choice (.connect name) s [(handler, .alreadyStarted)] true
  | recognised (id : Option Text) (k : ClientHandler) (p : Player) : s.players.get k = some p →
      Command.format id = p.playerId →
      Served s handler choice (.reconnect id)
        (s.withPlayers ((s.players.remove k).put handler p choice.arrangement))
        [(handler, .id p.playerId)] true
  | unknown (id : Option Text) : (∀ p ∈ s.players.values, p.playerId ≠ Command.format id) →
      Served s handler choice (.reconnect id) s [(handler, .unknownId)] true
  | ignored (c : Command) : c.isIntroduction = false → s.players.get handler = none →
      Served s handler choice c s [] true
  | quit : Served s handler choice .quit s [] true
  | ready (id : Option Text) (p : Player) : s.players.get handler = some p →
      Served s handler choice (.ready id) (s.withPlayers (s.players.replace handler toggleReady))
        (s.announce (.players (s.players.replace handler toggleReady).values)) true
  | started (p : Player) : s.players.get handler = some p → s.areAllPlayerReady →
      Served s handler choice .start (s.withGameState .mainGame) (s.announce .start) true
  | notReady (p : Player) : s.players.get handler = some p → s.areAllPlayerReady = false →
      Served s handler choice .start s [(handler, .notReady)] true
  | roomNamed (name : Text) (p : Player) : s.players.get handler = some p →
      handler.isHost = true →
      Served s handler choice (.roomName name) (s.withRoomName name)
        (s.announce (.roomName name)) true
  | roomKept (name : Text) (p : Player) : s.players.get handler = some p →
      handler.isHost = false → Served s handler choice (.roomName name) s [] true
  /-- A find outside of the games is credited, but nobody is told. -/
  | foundOutside (a : Anamorphosis) (p : Player) : s.players.get handler = some p →
      s.gameState = .lobby ∨ s.gameState = .ended →
      Served s handler choice (.found a) (s.credited handler a.difficulty) [] true
  | foundUnscored (a : Anamorphosis) (p : Player) : s.players.get handler = some p →
      s.gameState = .deathMatch ∨ s.gameState = .mainGame ∧ p.nbFoundAnamorphosis + 1 ≥ 4 →
      (s.credited handler a.difficulty).unscored = true →
      Served s handler choice (.found a) (s.credited handler a.difficulty) [] false
  | found (a : Anamorphosis) (p : Player) : s.players.get handler = some p →
      s.gameState = .mainGame → ¬p.nbFoundAnamorphosis + 1 ≥ 4 →
      Served s handler choice (.found a) (s.credited handler a.difficulty)
        (s.announce (.players (s.credited handler a.difficulty).players.values)) true
  | foundLast (a : Anamorphosis) (p : Player) : s.players.get handler = some p →
      s.gameState = .mainGame ∨ s.gameState = .deathMatch →
      Served s handler choice (.found a) ((s.credited handler a.difficulty).withGameState .ended)
        (s.announce (.finished (s.credited handler a.difficulty).players.values)) true
  /-- When the first players have the same score, they play a death match: nobody is
      told the scores. -/
  | foundTied (a : Anamorphosis) (p : Player) (dict : AnamorphDictionary) (drawn : Anamorphosis) :
      s.players.get handler = some p → s.gameState = .mainGame → p.nbFoundAnamorphosis + 1 ≥ 4 →
      1 < (leaders (s.credited handler a.difficulty).players.values).length →
      (s.credited handler a.difficulty).unscored = false →
      s.anamorphDictionary.candidates .medium ≠ [] →
      Served s handler choice (.found a)
        (((s.credited handler a.difficulty).withGameState .deathMatch).withDictionary dict)
        (s.announce (.deathMatch (leaders (s.credited handler a.difficulty).players.values)
          drawn.id)) true
  | foundUndrawn (a : Anamorphosis) (p : Player) (dict : AnamorphDictionary) :
      s.players.get handler = some p → s.gameState = .mainGame → p.nbFoundAnamorphosis + 1 ≥ 4 →
      1 < (leaders (s.credited handler a.difficulty).players.values).length →
      Served s handler choice (.found a)
        (((s.credited handler a.difficulty).withGameState .deathMatch).withDictionary dict) [] false

variable {s : Server} {handler : ClientHandler} {choice : Choice}

/-- The server has served the command. -/
def HasServed (s : Server) (handler : ClientHandler) (choice : Choice) (c : Command)
    (o : Outcome Server Sent Unit) : Prop :=
  ∃ ms ok, o.emitted = wire ms ∧ (o.result = .ok () ↔ ok = true) ∧
    Served s handler choice c o.state ms ok

theorem Served.hasServed {c : Command} {s' : Server} {ms : List Message}
    (h : Served s handler choice c s' ms true) {sent : List Sent} (hsent : sent = wire ms) :
    HasServed s handler choice c ⟨s', sent, .ok ()⟩ :=
  ⟨ms, true, hsent, by simp, h⟩

theorem Served.hasServed_error {c : Command} {s' : Server}
    (h : Served s handler choice c s' [] false) (e : Throwable) :
    HasServed s handler choice c ⟨s', [], .error e⟩ :=
  ⟨[], false, rfl, by simp, h⟩

theorem hasServed_connect (name : Text) : HasServed s handler choice (.connect name)
    ((onMessageReceived handler (some (Command.connect name).line) choice).exec s) := by
  have htype := (Command.connect name).parseInstructionType_line
  have hname : parseConnectInstructionData
      (parseInstructionData (Command.connect name).line) = .ok name := by
    rw [Command.parseInstructionData_connect, parseConnectInstructionData, urlDecode,
      URLDecoder.decode_encode]
  have hdispatch : (onMessageReceived handler (some (Command.connect name).line) choice).exec s =
      (onConnect handler (parseInstructionData (Command.connect name).line) choice).exec s :=
    exec_received htype (by simp [Command.type])
  rw [hdispatch, exec_onConnect, hname]
  dsimp only
  split_ifs with hlobby
  · have hlist : (s.connected handler name choice).playerList =
        wire ((s.connected handler name choice).announce
          (.players (s.connected handler name choice).players.values)) :=
      broadcast_eq_wire rfl rfl
    rw [hlist]
    exact (Served.accepted name hlobby).hasServed rfl
  · exact (Served.late name hlobby).hasServed rfl

theorem hasServed_reconnect (id : Option Text) (hid : Plain (Command.format id)) :
    HasServed s handler choice (.reconnect id)
      ((onMessageReceived handler (some (Command.reconnect id).line) choice).exec s) := by
  have htype := (Command.reconnect id).parseInstructionType_line
  have hdispatch : (onMessageReceived handler (some (Command.reconnect id).line) choice).exec s =
      (onReconnect handler (parseInstructionData (Command.reconnect id).line) choice).exec s :=
    exec_received htype (by simp [Command.type])
  rw [hdispatch, Command.parseInstructionData_reconnect hid]
  cases hfind : s.getHandler (Command.format id) with
  | none =>
    rw [exec_onReconnect_of_unknown hfind]
    exact (Served.unknown id (getHandler_eq_none_iff.1 hfind)).hasServed rfl
  | some k =>
    obtain ⟨p, hp, hpid⟩ := getHandler_eq_some hfind
    rw [exec_onReconnect_of_known hfind hp, ← hpid]
    exact (Served.recognised id k p hp hpid.symm).hasServed rfl

theorem hasServed_found (a : Anamorphosis) {p : Player} (hp : s.players.get handler = some p) :
    HasServed s handler choice (.found a)
      ((onMessageReceived handler (some (Command.found a).line) choice).exec s) := by
  rw [exec_received_found hp (Command.found a).parseInstructionType_line,
    exec_onAnamorphosisFound hp (Command.parseAnamorphosisFoundMessage_found a)]
  cases hs : s.gameState with
  | lobby => exact (Served.foundOutside a p hp (.inl hs)).hasServed rfl
  | ended => exact (Served.foundOutside a p hp (.inr hs)).hasServed rfl
  | deathMatch =>
    dsimp only
    split_ifs with hunscored
    · exact (Served.foundUnscored a p hp (.inl hs) hunscored).hasServed_error _
    · exact (Served.foundLast a p hp (.inr hs)).hasServed (broadcast_eq_wire rfl rfl)
  | mainGame =>
    dsimp only
    split_ifs with hfour hunscored
    · exact (Served.foundUnscored a p hp (.inr ⟨hs, hfour⟩) hunscored).hasServed_error _
    · obtain ⟨first, rest, hplayers⟩ :=
        List.exists_cons_of_ne_nil (players_credited_ne_nil hp a.difficulty)
      have hexec :
          (finishMainGame (first :: rest) choice).exec (s.credited handler a.difficulty) = _ :=
        exec_finishMainGame first rest
      rw [← hplayers] at hexec
      rw [hexec]
      have hdraw := s.anamorphDictionary.getRandom_isSome_iff .medium false choice.random
      -- A death match needs an anamorphosis of medium difficulty, which may be missing.
      split_ifs with htie
      · split
        · rename_i dict drawn hdrawn
          have hdrawn' : (s.anamorphDictionary.getRandom .medium false choice.random).2 =
            some drawn := congrArg Prod.snd hdrawn
          exact (Served.foundTied a p dict drawn hp hs hfour htie (by simpa using hunscored)
            (hdraw.1 (by simp [hdrawn']))).hasServed (broadcast_eq_wire rfl rfl)
        · rename_i dict _
          exact (Served.foundUndrawn a p dict hp hs hfour htie).hasServed_error _
      · exact (Served.foundLast a p hp (.inl hs)).hasServed (broadcast_eq_wire rfl rfl)
    · exact (Served.found a p hp hs hfour).hasServed (broadcast_eq_wire rfl rfl)

/-- What serving a command does. -/
theorem served (c : Command) (hc : c.HasPlainId) : HasServed s handler choice c
    ((onMessageReceived handler (some c.line) choice).exec s) := by
  have htype := c.parseInstructionType_line
  by_cases hintro : c.isIntroduction = true
  · cases c with
    | connect name => exact hasServed_connect name
    | reconnect id => exact hasServed_reconnect id hc
    | _ => exact absurd hintro (by simp [Command.isIntroduction])
  · replace hintro : c.isIntroduction = false := by simpa using hintro
    -- A handler without player is only listened to when it introduces itself.
    cases hp : s.players.get handler with
    | none =>
      have hguard : s.players.get handler = none ∧
          c.type ≠ connectMessageType ∧ c.type ≠ reconnectMessageType := by
        refine ⟨hp, ?_⟩
        cases c with
        | connect | reconnect => exact absurd hintro (by simp [Command.isIntroduction])
        | _ => exact ⟨by simp only [Command.type]; decide, by simp only [Command.type]; decide⟩
      rw [exec_received_of_unbound htype hguard]
      exact (Served.ignored c hintro hp).hasServed rfl
    | some p =>
      have hdispatch : (onMessageReceived handler (some c.line) choice).exec s =
          (dispatch handler c.type (parseInstructionData c.line) choice).exec s :=
        exec_received htype (by simp [hp])
      cases c with
      | connect | reconnect => exact absurd hintro (by simp [Command.isIntroduction])
      | quit =>
        rw [hdispatch]
        exact Served.quit.hasServed rfl
      | ready id =>
        rw [hdispatch, show dispatch handler (Command.ready id).type _ choice = onReady handler
          from rfl, exec_onReady]
        exact (Served.ready id p hp).hasServed (broadcast_eq_wire rfl rfl)
      | start =>
        rw [exec_received_start hp htype, exec_onStart]
        split_ifs with hready
        · exact (Served.started p hp hready).hasServed (broadcast_eq_wire rfl rfl)
        · exact (Served.notReady p hp (by simpa using hready)).hasServed rfl
      | roomName name =>
        have hname : parseRoomNameInstruction
            (parseInstructionData (Command.roomName name).line) = .ok name := by
          rw [Command.parseInstructionData_roomName, parseRoomNameInstruction, urlDecode,
            URLDecoder.decode_encode]
        rw [hdispatch, show dispatch handler (Command.roomName name).type _ choice =
          onRoomName handler _ from rfl, exec_onRoomName, hname]
        split_ifs with hhost
        · exact (Served.roomNamed name p hp hhost).hasServed (broadcast_eq_wire rfl rfl)
        · exact (Served.roomKept name p hp (by simpa using hhost)).hasServed rfl
      | found a => exact hasServed_found a hp

end Server

end Gaze
