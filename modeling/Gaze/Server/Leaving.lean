import Gaze.Server.EndOfGame
import Gaze.Server.Ledger

/-!
# Leaving a game

A client leaves with `QUIT` (which is what `Client.disconnect` sends) or with
`DISCONNECT`. The server only knows the latter: it removes the player of the handler,
whose id is never given again. A `QUIT` is ignored, and its player stays.

* `Shows`: the lines that list players, as the clients read them.
* `shown_present`: whoever is shown by a message of the server is one of its players
  when the message is sent.
* `stays_away_iff`: whoever has left is not seen again, and keeps nobody waiting,
  exactly in the runs where no handler with a player sends `QUIT`.
-/

namespace Gaze

open Java Protocol

namespace Server

variable {s : Server} {handler : ClientHandler} {data : Text} {choice : Choice} {id text : Text}

/-! ## The lines that list players -/

/-- A line of the given type shows the player with the id: a list of players, as the
    clients read it, or a `DEATHMATCH`. -/
def LineShows (id l type : Text) : Prop :=
  (type = playersInstructionType ∨ type = finishedInstructionType) ∧
      (∃ players, parsePlayerListData (parseInstructionData l) = .ok players ∧
        ∃ p ∈ players, p.playerId = id) ∨
    type = deathMatchInstructionType ∧ id ∈ namedIds l

/-- The text is a line that shows the player with the id. -/
def Shows (id text : Text) : Prop :=
  ∃ l type, LineReader.start.feed text = (LineReader.start, [l]) ∧
    parseInstructionType l = .ok type ∧ LineShows id l type

/-- What a line shows depends on its type. -/
theorem shows_iff_of_feed {l type : Text}
    (hfeed : LineReader.start.feed text = (LineReader.start, [l]))
    (htype : parseInstructionType l = .ok type) : Shows id text ↔ LineShows id l type := by
  constructor
  · rintro ⟨l', type', hfeed', htype', hshows⟩
    obtain rfl := List.singleton_inj.1 (congrArg Prod.snd (hfeed'.symm.trans hfeed))
    obtain rfl := Except.ok.inj (htype'.symm.trans htype)
    exact hshows
  · exact fun hshows => ⟨l, type, hfeed, htype, hshows⟩

theorem shows_withData_iff {type : Text} (htype : Plain type) (hne : type ≠ [])
    (hdata : ∀ c ∈ data, isTerminator c = false) :
    Shows id (withData type data) ↔ LineShows id (line type data) type :=
  shows_iff_of_feed (feed_withData htype hdata) (parseInstructionType_line htype hne data)

theorem shows_bare_iff {type : Text} (htype : Plain type) :
    Shows id (bare type) ↔ LineShows id type type :=
  shows_iff_of_feed (feed_bare htype) (parseInstructionType_bare htype)

/-- A list of players shows them. -/
theorem mem_of_shows_list {type : Text} {players : List Player} (htype : Plain type)
    (hne : type ≠ []) (hother : type ≠ deathMatchInstructionType)
    (hid : ∀ p ∈ players, isUuid p.playerId)
    (h : Shows id (buildPlayerListInstruction type players)) : ∃ p ∈ players, p.playerId = id := by
  have hplain : ∀ p ∈ players, Plain p.playerId := fun p hp => plain_of_isUuid (hid p hp)
  rw [buildPlayerListInstruction_eq, shows_withData_iff htype hne
    (playerListData_not_terminator hplain), LineShows,
    parseInstructionData_line htype hne (space_not_mem_playerListData hplain)] at h
  obtain ⟨-, players', hparse, hmem⟩ := h.resolve_right fun hdeath => hother hdeath.1
  -- The clients do not read the list of nobody.
  by_cases hnil : players = []
  · rw [hnil] at hparse
    exact absurd (parsePlayerListData_nil.symm.trans hparse) (by simp)
  · rw [parsePlayerListData_playerListData hplain hnil] at hparse
    rwa [Except.ok.inj hparse]

/-- A `DEATHMATCH` shows the players it is built from. -/
theorem mem_of_shows_deathMatch {players : List Player} {anamorphId : Text} (hne : players ≠ [])
    (hid : ∀ p ∈ players, isUuid p.playerId) (hanam : Plain anamorphId)
    (h : Shows id (buildDeathMatchInstruction players anamorphId)) :
    ∃ p ∈ players, p.playerId = id := by
  rw [buildDeathMatchInstruction_eq, shows_withData_iff (by decide) (by decide)
    (deathMatchData_not_terminator (fun p hp => plain_of_isUuid (hid p hp)) hanam), LineShows] at h
  obtain ⟨-, hnamed⟩ := h.resolve_left fun hlist => absurd hlist.1 (by decide)
  rw [namedIds_deathMatch hid hanam hne] at hnamed
  exact List.mem_map.1 hnamed

/-! ## Whom the messages show -/

/-- The messages only show some players. -/
def OnlyShows (players : List Player) (sent : List Sent) : Prop :=
  ∀ k text id, (k, text) ∈ sent → Shows id text → ∃ p ∈ players, p.playerId = id

section OnlyShows

variable {players : List Player} {sent : List Sent}

theorem OnlyShows.nil : OnlyShows players [] := fun _ _ _ h => absurd h List.not_mem_nil

theorem OnlyShows.cons {k : ClientHandler} {message : Text}
    (h : ∀ id, Shows id message → ∃ p ∈ players, p.playerId = id) (hs : OnlyShows players sent) :
    OnlyShows players ((k, message) :: sent) := by
  intro k' text id hmem
  rcases List.mem_cons.1 hmem with heq | hmem
  · obtain ⟨rfl, rfl⟩ := Prod.mk.inj heq
    exact h id
  · exact hs k' text id hmem

theorem onlyShows_broadcast {message : Text}
    (h : ∀ id, Shows id message → ∃ p ∈ players, p.playerId = id) :
    OnlyShows players (s.broadcast message) := by
  intro k text id hmem
  obtain ⟨client, -, heq⟩ := List.mem_map.1 hmem
  obtain ⟨-, rfl⟩ := Prod.mk.inj heq
  exact h id

/-- Nobody is shown by an instruction of another type. -/
theorem not_shows_withData {type : Text} (htype : Plain type) (hne : type ≠ [])
    (hother : type ∉ [playersInstructionType, finishedInstructionType, deathMatchInstructionType])
    (hdata : ∀ c ∈ data, isTerminator c = false) : ¬Shows id (withData type data) := by
  rw [shows_withData_iff htype hne hdata, LineShows]
  simp only [List.mem_cons, List.not_mem_nil, or_false, not_or] at hother
  simp [hother]

theorem not_shows_bare {type : Text} (htype : Plain type)
    (hother : type ∉ [playersInstructionType, finishedInstructionType, deathMatchInstructionType]) :
    ¬Shows id (bare type) := by
  rw [shows_bare_iff htype, LineShows]
  simp only [List.mem_cons, List.not_mem_nil, or_false, not_or] at hother
  simp [hother]

/-- The refusal is no line: it has no end. -/
theorem not_shows_alreadyStarted : ¬Shows id alreadyStartedInstructionType := by
  rintro ⟨l, type, hfeed, -⟩
  have hnone : (LineReader.start.feed alreadyStartedInstructionType).2 = [] := by decide
  rw [hfeed] at hnone
  exact absurd hnone (by simp)

theorem not_shows_playerID (hid : isUuid data) : ¬Shows id (buildPlayerIDInstruction data) :=
  not_shows_withData (by decide) (by decide) (by decide) (plain_of_isUuid hid).not_terminator

theorem not_shows_roomName (roomName : Text) : ¬Shows id (buildRoomNameInstruction roomName) :=
  not_shows_withData (by decide) (by decide) (by decide) (plain_encode roomName).not_terminator

end OnlyShows

theorem onlyShows_playerList (hid : ∀ p ∈ s.players.values, isUuid p.playerId) :
    OnlyShows s.players.values s.playerList :=
  onlyShows_broadcast fun _ => mem_of_shows_list (by decide) (by decide) (by decide) hid

theorem onlyShows_finished (hid : ∀ p ∈ s.players.values, isUuid p.playerId) :
    OnlyShows s.players.values (s.broadcast (buildFinishedInstruction s.players.values)) :=
  onlyShows_broadcast fun _ => mem_of_shows_list (by decide) (by decide) (by decide) hid

theorem onlyShows_finishMainGame (hid : ∀ p ∈ s.players.values, isUuid p.playerId) :
    OnlyShows s.players.values ((finishMainGame s.players.values choice).exec s).emitted := by
  cases hplayers : s.players.values with
  | nil => exact .nil
  | cons first players =>
    rw [hplayers] at hid
    have hsub : ∀ p ∈ leaders (first :: players), p ∈ first :: players :=
      (Ranking.leadingRun_isPrefix _ _).subset
    rw [exec_finishMainGame]
    split_ifs with htie
    · split
      · refine onlyShows_broadcast fun id hshows => ?_
        obtain ⟨p, hp, heq⟩ := mem_of_shows_deathMatch (List.ne_nil_of_length_pos (by omega))
          (fun p hp => hid p (hsub p hp)) (plain_integer _) hshows
        exact ⟨p, hsub p hp, heq⟩
      · exact .nil
    · exact onlyShows_broadcast fun _ =>
        mem_of_shows_list (by decide) (by decide) (by decide) hid

/-- A find shows players of the server, whose ids it keeps. -/
theorem onlyShows_onAnamorphosisFound {p : Player} (hp : s.players.get handler = some p)
    (hid : ∀ p ∈ ((onAnamorphosisFound handler data choice).exec s).state.players.values,
      isUuid p.playerId) :
    OnlyShows ((onAnamorphosisFound handler data choice).exec s).state.players.values
      ((onAnamorphosisFound handler data choice).exec s).emitted := by
  rw [(onAnamorphosisFound_holds data choice hp).players] at hid ⊢
  cases hd : parseAnamorphosisFoundMessage data with
  | error e =>
    rw [exec_onAnamorphosisFound_of_error hd]
    exact .nil
  | ok d =>
    have hplayers :
        s.players.replace handler (recordFind data) = (s.credited handler d).players := by
      rw [recordFind_of_ok hd]
      rfl
    rw [hplayers] at hid ⊢
    rw [exec_onAnamorphosisFound hp hd]
    cases s.gameState with
    | lobby | ended => exact .nil
    | deathMatch =>
      dsimp only
      split_ifs
      · exact .nil
      · exact onlyShows_finished hid
    | mainGame =>
      dsimp only
      split_ifs
      · exact .nil
      · exact onlyShows_finishMainGame hid
      · exact onlyShows_playerList hid

/-- Whoever is shown when a line is received is a player once it is processed. -/
theorem WellFormed.onlyShows_received (hs : s.WellFormed) (hh : handler ∈ s.clients)
    (huuid : choice.uuid.text ∉ s.uuids) (l : Text) :
    OnlyShows ((onMessageReceived handler (some l) choice).exec s).state.players.values
      ((onMessageReceived handler (some l) choice).exec s).emitted := by
  have hid := (hs.received hh huuid l).isUuid
  have hcases := receiving s handler l choice
  generalize (onMessageReceived handler (some l) choice).exec s = o at hcases hid ⊢
  cases hcases with
  | unreadable | ignored | unnamed | roomUnnamed | roomKept => exact .nil
  | connected name =>
    exact ((onlyShows_playerList hid).cons fun _ h => absurd h (not_shows_roomName _)).cons
      fun _ h => absurd h (not_shows_playerID choice.uuid.isUuid)
  | late | unknown => exact OnlyShows.nil.cons fun _ h => absurd h not_shows_alreadyStarted
  | recognised k p _ hfind hp =>
    obtain ⟨q, hq, heq⟩ := getHandler_eq_some hfind
    have hdata : Java.isUuid (parseInstructionData l) := heq ▸ hs.uuids _ (hs.issued k q hq)
    exact OnlyShows.nil.cons fun _ h => absurd h (not_shows_playerID hdata)
  | disconnected | ready => exact onlyShows_playerList hid
  | started =>
    exact onlyShows_broadcast fun _ h => absurd h (not_shows_bare (by decide) (by decide))
  | notReady =>
    exact OnlyShows.nil.cons fun _ h => absurd h (not_shows_bare (by decide) (by decide))
  | roomNamed => exact onlyShows_broadcast fun _ h => absurd h (not_shows_roomName _)
  | found p hp => exact onlyShows_onAnamorphosisFound hp hid

/-- Whoever is shown by a message is a player when the message is sent. -/
theorem WellFormed.shown_present (hs : s.WellFormed) : ∀ e, s.Enabled e →
    OnlyShows (s.handle e).state.players.values (s.handle e).emitted
  | .received _ l _, ⟨hh, huuid⟩ => hs.onlyShows_received hh huuid l
  | .disconnected k, _ => by
    rw [Server.handle, exec_onClientDisconnected]
    dsimp only
    split_ifs
    · exact onlyShows_playerList hs.isUuid
    · exact .nil
  | .stopped, _ => by
    rw [Server.handle, exec_onServerStopped]
    exact onlyShows_broadcast fun _ h => absurd h (not_shows_bare (by decide) (by decide))
  | .accepted _, _ | .validated _, _ | .drawn _ _, _ => .nil

/-! ## Who has left -/

/-- The line asks to leave the game. -/
def Leaves (l : Text) : Prop :=
  parseInstructionType l = .ok quitMessageType ∨ parseInstructionType l = .ok disconnectMessageType

/-- The line asks to enter it. -/
def Enters (l : Text) : Prop :=
  parseInstructionType l = .ok connectMessageType ∨
    parseInstructionType l = .ok reconnectMessageType

instance (l : Text) : Decidable (Leaves l) := inferInstanceAs (Decidable (_ ∨ _))
instance (l : Text) : Decidable (Enters l) := inferInstanceAs (Decidable (_ ∨ _))

/-- The handlers that have left, and the ids of their players then: a handler leaves when
    it asks for it, until it enters anew and has a player again. -/
def departures (s : Server) (e : Event) (gone : List (ClientHandler × Text)) :
    List (ClientHandler × Text) :=
  match e with
  | .received handler l _ =>
    if Leaves l then
      match s.players.get handler with
      | some p => (handler, p.playerId) :: gone
      | none => gone
    else if Enters l ∧ ((s.handle e).state.players.get handler).isSome then
      gone.filter fun entry => entry.1 ≠ handler
    else gone
  | _ => gone

/-- A handler with a player sends `QUIT`. -/
def Quits (s : Server) : Event → Prop
  | .received handler l _ => (s.players.get handler).isSome ∧
      parseInstructionType l = .ok quitMessageType
  | _ => False

instance (s : Server) : ∀ e, Decidable (s.Quits e)
  | .received handler l _ => inferInstanceAs (Decidable ((s.players.get handler).isSome ∧
      parseInstructionType l = .ok quitMessageType))
  | .accepted _ | .disconnected _ | .stopped | .validated _ | .drawn _ _ =>
    inferInstanceAs (Decidable False)

/-- The server with the history of those who have left. -/
abbrev leaving : Machine (Server × List (ClientHandler × Text)) Event :=
  machine.recording departures []

/-- Whoever has left, once the event has been handled, is no player, is shown by none of
    its messages, and has no say in whether all the players are ready. -/
structure StaysAway (x : Server × List (ClientHandler × Text)) (e : Event) : Prop where
  absent : ∀ entry ∈ (leaving.step x e).2, ∀ p ∈ (leaving.step x e).1.players.values,
    p.playerId ≠ entry.2
  unseen : ∀ entry ∈ (leaving.step x e).2, ∀ k text, (k, text) ∈ (x.1.handle e).emitted →
    ¬Shows entry.2 text
  ready : (leaving.step x e).1.areAllPlayerReady =
    ((leaving.step x e).1.players.values.filter fun p =>
      p.playerId ∉ (leaving.step x e).2.map Prod.snd).all Player.ready

/-- The ids of those who have left are taken, and nobody has them. -/
def Vacant (s : Server) (gone : List (ClientHandler × Text)) : Prop :=
  ∀ entry ∈ gone, entry.2 ∈ s.uuids ∧ ∀ p ∈ s.players.values, p.playerId ≠ entry.2

/-- An id that is taken, and that nobody has, is nobody's after any event. -/
theorem absent_handle {e : Event} (he : s.Enabled e) (hissued : id ∈ s.uuids)
    (habsent : ∀ p ∈ s.players.values, p.playerId ≠ id) :
    ∀ p ∈ (s.handle e).state.players.values, p.playerId ≠ id := by
  intro p' hp' hid
  obtain ⟨k, hk⟩ := HashMap.mem_values.1 hp'
  cases (recorded (s := s) e).recorded k p' hk with
  | kept k' p hp hsame => exact habsent p (HashMap.mem_values.2 ⟨k', hp⟩) (hsame ▸ hid)
  | found l choice p _ _ hp hfind =>
    refine habsent p (HashMap.mem_values.2 ⟨k, hp⟩) ?_
    rw [← hid, hfind, recordFind_playerId]
  | created name l choice heq _ hnew =>
    -- A new id is fresh.
    subst heq
    refine he.2 ?_
    rw [hnew] at hid
    rwa [show choice.uuid.text = id from hid]

/-- A player that leaves with `DISCONNECT` is removed. -/
theorem WellFormed.absent_disconnect (hs : s.WellFormed) {p : Player} {l : Text}
    (hp : s.players.get handler = some p)
    (htype : parseInstructionType l = .ok disconnectMessageType) :
    ∀ q ∈ (s.handle (.received handler l choice)).state.players.values,
      q.playerId ≠ p.playerId := by
  intro q hq heq
  have hexec :
      (onMessageReceived handler (some l) choice).exec s = (onDisconnect handler).exec s := by
    rw [exec_received htype (by simp [hp])]
    rfl
  rw [Server.handle, hexec, exec_onDisconnect] at hq
  obtain ⟨k, hk⟩ := HashMap.mem_values.1 hq
  rw [withPlayers_players, HashMap.get_remove] at hk
  split_ifs at hk with hne
  exact hne (hs.distinct k handler q p hk hp heq)

/-- Nobody comes back under the id of a player who has left. -/
theorem Vacant.handle {gone : List (ClientHandler × Text)} {e : Event} (hs : s.WellFormed)
    (h : Vacant s gone) (he : s.Enabled e) (hquits : ¬s.Quits e) :
    Vacant (s.handle e).state (departures s e gone) := by
  have hold : Vacant (s.handle e).state gone := fun entry hentry =>
    ⟨(recorded (s := s) e).issued (h entry hentry).1,
      absent_handle he (h entry hentry).1 (h entry hentry).2⟩
  cases e with
  | received handler l choice =>
    rw [departures]
    split_ifs with hleaves henters
    · cases hp : s.players.get handler with
      | none => exact hold
      | some p =>
        have htype : parseInstructionType l = .ok disconnectMessageType :=
          hleaves.resolve_left fun hquit => hquits ⟨by simp [hp], hquit⟩
        intro entry hentry
        rcases List.mem_cons.1 hentry with rfl | hentry
        · exact ⟨(recorded (s := s) _).issued (hs.issued handler p hp),
            hs.absent_disconnect hp htype⟩
        · exact hold entry hentry
    · exact fun entry hentry => hold entry (List.mem_of_mem_filter hentry)
    · exact hold
  | _ => exact hold

/-- Nobody who has left is waited for. -/
theorem Vacant.areAllPlayerReady {gone : List (ClientHandler × Text)} (h : Vacant s gone) :
    s.areAllPlayerReady = (s.players.values.filter fun p =>
      p.playerId ∉ gone.map Prod.snd).all Player.ready := by
  have hall : (s.players.values.filter fun p => p.playerId ∉ gone.map Prod.snd) =
      s.players.values := by
    refine List.filter_eq_self.2 fun p hp => decide_eq_true fun hmem => ?_
    obtain ⟨entry, hentry, hid⟩ := List.mem_map.1 hmem
    exact (h entry hentry).2 p hp hid.symm
  rw [hall, Server.areAllPlayerReady]

/-- A `QUIT` is ignored. -/
theorem handle_quits {e : Event} (h : s.Quits e) : (s.handle e).state = s := by
  cases e with
  | received handler l choice =>
    obtain ⟨hbound, htype⟩ := h
    obtain ⟨p, hp⟩ := Option.isSome_iff_exists.1 hbound
    rw [handle, exec_received htype (by simp [hp])]
    rfl
  | _ => exact h.elim

/-- So its player is still there. -/
theorem StaysAway.not_quits {x : Server × List (ClientHandler × Text)} {e : Event}
    (h : StaysAway x e) : ¬x.1.Quits e := by
  intro hquits
  have hstate := handle_quits hquits
  cases e with
  | received handler l choice =>
    obtain ⟨p, hp⟩ := Option.isSome_iff_exists.1 hquits.1
    have hgone : (handler, p.playerId) ∈ (leaving.step x (.received handler l choice)).2 := by
      simp [Machine.recording, departures, Leaves, hquits.2, hp]
    refine h.absent _ hgone p ?_ rfl
    have hstep : (leaving.step x (.received handler l choice)).1 = x.1 := hstate
    rw [hstep]
    exact HashMap.mem_values.2 ⟨handler, hp⟩
  | _ => exact hquits

/-- Whoever has left stays away, until it enters anew, exactly in the runs where no handler
    with a player sends `QUIT`. -/
theorem stays_away_iff {es : List Event} (h : machine.IsRun s es) :
    leaving.Along StaysAway (s, []) es ↔ machine.Along (fun s e => ¬s.Quits e) s es := by
  constructor
  · intro haway
    exact Machine.along_recording.1 (haway.mono fun x e h => h.not_quits)
  · intro hquits
    refine h.recording.along_of_invariant (I := fun x => x.1.WellFormed ∧ Vacant x.1 x.2)
      (P := fun x e => ¬x.1.Quits e)
      ((Machine.along_recording (P := fun s e => ¬Quits s e)).2 hquits) ?_ ?_ ?_
    · rintro ⟨s, gone⟩ ⟨hinit, rfl⟩
      exact ⟨wellFormed_of_reachable (.init hinit), by simp [Vacant]⟩
    · rintro ⟨s, gone⟩ e - ⟨hs, hvacant⟩ he hnot
      exact ⟨hs.handle e he, hvacant.handle hs he hnot⟩
    · rintro ⟨s, gone⟩ e - ⟨hs, hvacant⟩ he hnot
      have hvacant' := hvacant.handle hs he hnot
      refine ⟨fun entry hentry => (hvacant' entry hentry).2,
        fun entry hentry k text hmem hshows => ?_, hvacant'.areAllPlayerReady⟩
      obtain ⟨p, hp, hid⟩ := hs.shown_present e he k text _ hmem hshows
      exact (hvacant' entry hentry).2 p hp hid

/-- The host and a guest connect, and the guest sends a line. -/
def guestSends (text : String) : List Event :=
  [.accepted ⟨0, true⟩, .received ⟨0, true⟩ "CONNECT host".toList (sampleChoice 0),
    .accepted ⟨1, false⟩, .received ⟨1, false⟩ "CONNECT guest".toList (sampleChoice 1),
    .received ⟨1, false⟩ text.toList (sampleChoice 2),
    .received ⟨0, true⟩ "READY".toList (sampleChoice 2)]

/-- After a `DISCONNECT`, the guest is forgotten. -/
theorem disconnected_guest_away :
    leaving.Along StaysAway (sampleServer, []) (guestSends "DISCONNECT guest") :=
  (stays_away_iff ⟨⟨_, _, rfl⟩, by decide⟩).2 (by decide)

/-- After a `QUIT`, the host still waits for the guest. -/
theorem quitting_guest_stays :
    ¬∀ s es, machine.IsRun s es → leaving.Along StaysAway (s, []) es := by
  intro h
  have hrun : machine.IsRun sampleServer (guestSends "QUIT") := ⟨⟨_, _, rfl⟩, by decide⟩
  obtain ⟨-, -, -, -, -, hlast, -⟩ := h _ _ hrun
  exact absurd hlast.ready (by decide)

end Server

end Gaze
