import Gaze.Server.Phases
import Gaze.System.Players

/-!
# Who the game starts with

A `START` is sent to all the connections the server has accepted, and not only to
those of its players: some may have been refused, or may not have introduced
themselves yet, or may have been left for another one.

* `System.sent_start_iff`: when a `START` is sent, and to whom.
* `System.starts_with_players_iff`: the runs in which every `START` is sent to
  players only, and in which the clients who enter the game are among the players,
  are those in which, whenever a `START` is accepted, a player is bound to every
  handler.
-/

namespace Gaze

open Java Protocol

/-- Only `start` is read as a `START`. -/
theorem Command.parseInstructionType_eq_start {c : Command} :
    parseInstructionType c.line = .ok startMessageType ↔ c = .start := by
  rw [c.parseInstructionType_line, Except.ok.injEq]
  cases c with
  | start => exact ⟨fun _ => rfl, fun _ => rfl⟩
  | connect | reconnect | ready | found | roomName | quit =>
    refine ⟨fun h => ?_, by simp⟩
    simp only [Command.type] at h
    exact absurd h (by decide)

theorem ServerMessage.eq_start_of_line {m : ServerMessage} (h : m.line = startInstructionType) :
    m = .start := by
  have htype : m.type = startInstructionType := by
    have hparse := m.parseInstructionType_line
    rw [h] at hparse
    exact (Except.ok.inj hparse).symm
  cases m with
  | start => rfl
  | id | roomName | players | notReady | alreadyStarted | unknownId | deathMatch | finished |
    serverStopped =>
    simp only [ServerMessage.type] at htype
    exact absurd htype (by decide)

/-- A client only enters the game when it reads a `START`. -/
theorem IsLine.eq_start {known : Text → Prop} {l : Text} (hl : IsLine known l) {c c' : Client}
    (h : c.onMessage l = .ok (c', some .gameStarted)) : l = startInstructionType := by
  rcases hl with hl | ⟨m, hread, -, rfl, -⟩
  · obtain ⟨event, h', hevent⟩ := Client.onMessage_swallowed hl (c := c)
    rw [h'] at h
    exact absurd (Prod.mk.inj (Except.ok.inj h)).2 hevent
  · rw [Client.onMessage_line hread] at h
    have hevent : (c.received m).2 = some .gameStarted := congrArg Prod.snd (Except.ok.inj h)
    cases m with
    | start => rfl
    | id | roomName | players | notReady | alreadyStarted | unknownId | deathMatch | finished |
      serverStopped => exact absurd hevent (by simp [Client.received])

namespace System

variable {ι : Type} [DecidableEq ι] {s s' : System ι} {owner : Text → Option ι}

/-! ## What is sent -/

/-- The command a handler reads next. -/
def nextCommand (s : System ι) (handler : ClientHandler) : Option Command :=
  (s.connections.get handler).bind fun c => c.toServer.head?

/-- What the server sends in an event. -/
def sent (s : System ι) : Event ι → List Sent
  | .serves handler choice =>
    match s.nextCommand handler with
    | none => []
    | some command =>
      let o := s.server.handle (.received handler command.line choice)
      match o.result with
      | .ok _ => o.emitted
      | .error _ => o.emitted ++ (o.state.handle (.disconnected handler)).emitted
  | .dropped handler => (s.server.handle (.disconnected handler)).emitted
  | .stopped => (s.server.handle .stopped).emitted
  | _ => []

/-- A `START` is accepted: a registered player asks for it, and all the players are
    ready. -/
def Starts (s : System ι) : Event ι → Prop
  | .serves handler _ => s.nextCommand handler = some .start ∧
      (s.server.players.get handler).isSome ∧ s.server.areAllPlayerReady
  | _ => False

instance (s : System ι) : ∀ e, Decidable (s.Starts e)
  | .serves handler _ => inferInstanceAs (Decidable (s.nextCommand handler = some .start ∧
      (s.server.players.get handler).isSome ∧ s.server.areAllPlayerReady))
  | .connectServer _ _ | .opens _ _ | .refused _ | .introduces _ | .reads _ | .hangsUp _
  | .toggleReady _ | .setFound _ _ | .startGame _ | .sendRoomName _ _ | .disconnect _ | .lost _
  | .accepted _ | .dropped _ | .stopped | .validated _ | .drawn _ _ =>
    inferInstanceAs (Decidable False)

omit [DecidableEq ι]

/-- When a `START` is sent, and to whom. -/
theorem sent_start_iff (e : Event ι) {k : ClientHandler} :
    (k, buildStartInstruction) ∈ s.sent e ↔ s.Starts e ∧ k ∈ s.server.clients := by
  cases e with
  | serves handler choice =>
    cases hnext : s.nextCommand handler with
    | none => simp [sent, Starts, hnext]
    | some command =>
      have hstarts : s.Starts (.serves handler choice) ↔
          s.server.Starts (.received handler command.line choice) := by
        simp only [Starts, Server.Starts, hnext, Option.some.injEq,
          Command.parseInstructionType_eq_start]
        tauto
      rw [hstarts, ← Server.starts_iff, sent, hnext]
      dsimp only
      split
      · rfl
      -- What the end of the handler sends is no `START`.
      · rw [List.mem_append, Server.starts_iff, Server.starts_iff]
        simp [Server.Starts]
  | dropped handler =>
    rw [sent, Server.starts_iff]
    simp [Server.Starts, Starts]
  | stopped =>
    rw [sent, Server.starts_iff]
    simp [Server.Starts, Starts]
  | _ => simp [sent, Starts]

/-! ## The `START`s on their way -/

/-- The `START`s on their way are for clients that have been admitted. -/
def StartsAdmitted (s : System ι) : Prop := ∀ k c, s.connections.get k = some c →
  startInstructionType ∈ c.toClient.lines → c.admitted = true

theorem StartsAdmitted.meanwhile (h : s.StartsAdmitted) (hm : Meanwhile s s') :
    s'.StartsAdmitted := by
  intro k c' hc' hl
  rcases hm.connection k c' hc' with ⟨-, hlines⟩ | ⟨c, hc, -, hadmitted, hlines⟩
  · exact absurd hl (by simp [hlines])
  · exact hadmitted.trans (h k c hc (hlines hl))

theorem StartsAdmitted.serverDoes (h : s.StartsAdmitted) (hs : Inv owner s) {server : Server}
    {ms : List Server.Message} (known : ι → Text → Prop)
    (htakes : ∀ k c, s.connections.get k = some c →
      c.Takes (known c.client) (s.client c.client).stage k (Server.messagesTo k ms))
    (hstart : ∀ k c, s.connections.get k = some c → (k, .start) ∈ ms → c.admitted = true) :
    (s.serverDoes server (Server.wire ms)).StartsAdmitted := by
  intro k c' hc' hl
  rw [get_serverDoes, textsTo_wire] at hc'
  obtain ⟨c, hc, rfl⟩ := Option.map_eq_some_iff.1 hc'
  rw [Connection.tell_admitted]
  rcases (hs.sound k c hc).mem_tell (htakes k c hc) hl with hl | hl | ⟨m, hm, hl⟩
  · exact h k c hc hl
  · exact absurd hl (by decide)
  · obtain rfl := ServerMessage.eq_start_of_line hl.symm
    exact hstart k c hc (Server.mem_messagesTo.1 hm)

theorem StartsAdmitted.congr (h : s.StartsAdmitted)
    (hget : ∀ k, s'.connections.get k = s.connections.get k) : s'.StartsAdmitted :=
  fun k c hc => h k c (hget k ▸ hc)

/-- The `START`s are only sent to players, in the event. -/
def StartsOnlyPlayers (s : System ι) (e : Event ι) : Prop :=
  ∀ handler, (handler, buildStartInstruction) ∈ s.sent e → (s.server.players.get handler).isSome

/-- If a `START` is accepted in the event, a player is bound to every handler. -/
def StartsWithPlayers (s : System ι) (e : Event ι) : Prop :=
  s.Starts e → ∀ handler ∈ s.server.clients, (s.server.players.get handler).isSome

instance (s : System ι) (e : Event ι) : Decidable (s.StartsWithPlayers e) :=
  inferInstanceAs (Decidable (s.Starts e → ∀ handler ∈ s.server.clients, _))

theorem startsOnlyPlayers_iff (e : Event ι) : s.StartsOnlyPlayers e ↔ s.StartsWithPlayers e := by
  simp only [StartsOnlyPlayers, sent_start_iff, StartsWithPlayers, and_imp]
  exact ⟨fun h hstarts k hk => h k hstarts hk, fun h k hstarts hk => h hstarts k hk⟩

/-- An event whose `START` finds a player bound to every handler. -/
theorem StartsAdmitted.next [DecidableEq ι] (hadmitted : s.StartsAdmitted) (hs : Inv owner s)
    {e : Event ι} (hstart : s.StartsWithPlayers e) (h : s.next e = some s') :
    s'.StartsAdmitted := by
  cases he : e.isOfServer with
  | false => exact hadmitted.meanwhile (hs.meanwhile he h)
  | true =>
    have hfarewell : ∀ {server : Server} (handler : ClientHandler), server.WellFormed →
        (s.serverDoes server (Server.wire (server.farewell handler))).StartsAdmitted := by
      intro server handler hwell
      refine hadmitted.serverDoes hs (fun _ _ => True) (fun k c _ => .inl fun m hm => .inl
        (hwell.farewell_isNews (Server.mem_messagesTo.1 hm))) fun k c _ hm => ?_
      rw [Server.farewell] at hm
      split_ifs at hm
      · exact absurd (Server.mem_announce.1 hm).2 (by simp)
      · exact absurd hm List.not_mem_nil
    cases hs.answering he h with
    | silent _ server => exact hadmitted.congr fun k => get_serverDoes_nil ..
    | served handler choice _ c command commands server ms ok hserving =>
      obtain ⟨owner', hnew, -, hs'⟩ := hs.exists_owner hserving.fresh c.client
      cases ok with
      | true =>
        rw [hserving.next, if_pos rfl]
        have hmid : (s.withServed handler commands server).StartsAdmitted := by
          intro k c' hc' hl
          rw [withServed, get_withConnection] at hc'
          split_ifs at hc'
          · obtain ⟨c₀, hc₀, rfl⟩ := Option.map_eq_some_iff.1 hc'
            simp [Connection.served, hadmitted k c₀ hc₀ hl]
          · exact hadmitted k c' hc' hl
        refine hmid.serverDoes (hserving.inv_withServed hs' hnew) _
          (fun k c' hc' => hserving.takes hs' hnew hc') fun k c' hc' hm => ?_
        -- A player is bound to the handler.
        obtain ⟨rfl, hbound, hready, hk, -⟩ := hserving.served.start hm
        have hcommand : s.nextCommand handler = some .start := by
          rw [nextCommand, hserving.get, Option.bind_some, hserving.toServer, List.head?_cons]
        obtain ⟨p, hp⟩ := Option.isSome_iff_exists.1 (hstart ⟨hcommand, hbound, hready⟩ k hk)
        obtain ⟨c₀, hc₀, hadmitted₀, -⟩ := hs.bound k p hp
        obtain ⟨c'', hc'', -, hadmitted'', -⟩ := hserving.get_withServed hc₀
        obtain rfl := Option.some.inj (hc'.symm.trans hc'')
        exact hadmitted'' hadmitted₀
      | false =>
        rw [hserving.next, if_neg (by decide)]
        refine ((hfarewell handler hserving.wellFormed).congr fun k => ?_).meanwhile
          (.finish handler)
        rw [get_serverDoes, get_serverDoes_nil, get_serverDoes]
    | dropped handler => exact (hfarewell handler hs.server).meanwhile (.finish handler)
    | stopped =>
      have hstop : (s.serverDoes (s.server.withPlayers .empty)
          (Server.wire (s.server.announce .serverStopped))).StartsAdmitted := by
        refine hadmitted.serverDoes hs (fun _ _ => True)
          (fun k c _ => .inl fun m hm => .inl ?_) fun k c _ hm => ?_
        · rw [(Server.mem_announce.1 (Server.mem_messagesTo.1 hm)).2]
          trivial
        · exact absurd (Server.mem_announce.1 hm).2 (by simp)
      exact hstop.congr fun k => rfl

/-! ## Entering the game -/

/-- The client that enters the game in an event, and the connection on which it reads
    the `START`. -/
def entering (s : System ι) : Event ι → Option (ι × Connection ι)
  | .reads i =>
    match (s.client i).stage with
    | .listening handler =>
      (s.connections.get handler).bind fun c => c.toClient.lines.head?.bind fun l =>
        match (s.client i).onMessage l with
        | .ok (_, some .gameStarted) => some (i, c)
        | _ => none
    | _ => none
  | _ => none

/-- The server counts the client as a player. -/
def Counts (s : System ι) (i : ι) : Prop := ∃ p, s.IsPlayerOf i p

/-- The client who enters the game in the event has been admitted, and the server, until
    it is stopped, counts it as a player. -/
def EntersAsPlayer (s : System ι) (e : Event ι) : Prop :=
  ∀ i c, s.entering e = some (i, c) → c.admitted = true ∧ (s.stopping = true ∨ s.Counts i)

theorem entersAsPlayer (hs : Inv owner s) (hplayers : s.HavePlayers) (hadmitted : s.StartsAdmitted)
    (e : Event ι) : s.EntersAsPlayer e := by
  intro i c h
  cases e with
  | reads j =>
    simp only [entering] at h
    split at h
    · rename_i handler hstage
      obtain ⟨c₀, hc, h⟩ := Option.bind_eq_some_iff.1 h
      obtain ⟨l, hl, h⟩ := Option.bind_eq_some_iff.1 h
      split at h
      · rename_i c' honMessage
        cases h
        have hmem : l ∈ c.toClient.lines := List.mem_of_mem_head? hl
        -- Only a `START` lets a client enter the game, and it is for admitted clients.
        obtain rfl := ((hs.sound handler c hc).lines l hmem).eq_start honMessage
        obtain ⟨c₁, hc₁, rfl⟩ := hs.out i handler (by rw [Client.out, hstage])
        obtain rfl := Option.some.inj (hc.symm.trans hc₁)
        have hadmitted' := hadmitted handler c hc hmem
        refine ⟨hadmitted', ?_⟩
        cases hstopping : s.stopping with
        | true => exact .inl rfl
        | false => exact .inr (hplayers hstopping _ ⟨handler, c, hc, rfl, hadmitted'⟩)
      · cases h
    · cases h
  | _ => cases h

/-- Every `START` is sent to players only, and only players enter the game, exactly in the
    runs where, whenever a `START` is accepted, a player is bound to every handler. -/
theorem starts_with_players_iff [DecidableEq ι] {es : List (Event ι)}
    (h : (machine ι).IsRun s es) :
    ((machine ι).Along StartsOnlyPlayers s es ∧ (machine ι).Along EntersAsPlayer s es) ↔
      (machine ι).Along StartsWithPlayers s es := by
  have honly : (machine ι).Along StartsOnlyPlayers s es ↔
      (machine ι).Along StartsWithPlayers s es :=
    h.along_congr fun _ e _ _ => startsOnlyPlayers_iff e
  rw [honly, and_iff_left_iff_imp]
  intro hstart
  refine h.along_of_invariant (I := StartsAdmitted) hstart ?_
    (fun s e hreach hadmitted he hstart => ?_) fun s e hreach hadmitted _ _ => ?_
  · rintro _ ⟨server, -, rfl⟩
    nofun
  · obtain ⟨owner, hs⟩ := inv_of_reachable hreach
    exact hadmitted.next hs hstart (next_of_enabled he)
  · obtain ⟨owner, hs⟩ := inv_of_reachable hreach
    exact entersAsPlayer hs (havePlayers_of_reachable hreach) hadmitted e

theorem sampleRun_starts_with_players :
    (machine SampleClient).Along StartsOnlyPlayers sampleSystem sampleRun ∧
      (machine SampleClient).Along EntersAsPlayer sampleSystem sampleRun :=
  (starts_with_players_iff isRun_sampleRun).2 (by decide +kernel)

/-- A client whose connection is accepted when the host starts the game, and who
    introduces itself afterwards. -/
def strangerRun : List (Event SampleClient) :=
  connects .host host 0 ++ getsReady .host host ++
    [.connectServer .guest "stranger".toList, .opens .guest guest, .accepted guest] ++ hostStarts ++
    [.introduces .guest, .serves guest (Server.sampleChoice 7)]

/-- The `START` is sent to the stranger, who enters the game that has refused it. -/
theorem stranger_starts : ¬∀ s es, (machine SampleClient).IsRun s es →
    (machine SampleClient).Along StartsOnlyPlayers s es ∧
      (machine SampleClient).Along EntersAsPlayer s es := by
  intro h
  have hrun : (machine SampleClient).IsRun sampleSystem (strangerRun ++ [.reads .guest]) :=
    ⟨⟨_, ⟨_, _, rfl⟩, rfl⟩, by decide +kernel⟩
  have henters := (Machine.along_append.1 (h _ _ hrun).2).2.1
  have hstranger :
      (((machine SampleClient).after sampleSystem strangerRun).entering (.reads .guest)).any
        (fun entered => !entered.2.admitted) = true := by decide +kernel
  obtain ⟨⟨i, c⟩, hentering, hadmitted⟩ := (Option.any_eq_true ..).1 hstranger
  exact absurd (henters i c hentering).1 (by simpa using hadmitted)

end System

end Gaze
