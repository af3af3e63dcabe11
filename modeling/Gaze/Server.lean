import Gaze.Java.HashMap
import Gaze.Machine
import Gaze.Protocol
import Gaze.Ranking

/-!
# The server

The server keeps the handlers of all the connections it has accepted (`clients`,
which is never pruned), and the players, each under the handler it is bound to.
Its methods are programs over this state, which send messages to handlers.

`receiving` is the handle for proofs: receiving a line is one of the cases of `Receiving`, a
few for each type of message.
-/

namespace Gaze

open Java Protocol Ranking

/-- A `ClientHandler`: its identity, and whether its socket comes from the
    loopback address. -/
structure ClientHandler where
  id : ℕ
  isHost : Bool
  deriving DecidableEq

/-- `Server.GameState`. -/
inductive GameState
  | lobby
  | mainGame
  | deathMatch
  | ended
  deriving DecidableEq

/-- The state of a `Server`, with that of its `ServerBase`, the room name of its
    `RoomNotifier`, and the ids `UUID.randomUUID` has given so far. -/
structure Server where
  clients : List ClientHandler
  gameState : GameState
  anamorphDictionary : AnamorphDictionary
  players : HashMap ClientHandler Player
  roomName : Text
  uuids : List Text

/-- A message written to the socket of a handler. -/
abbrev Sent := ClientHandler × Text

/-- What the environment decides when a message is processed. -/
structure Choice where
  /-- The result of `UUID.randomUUID`. -/
  uuid : Uuid
  /-- Where a new key goes in the map of the players. -/
  arrangement : Arrangement (ClientHandler × Player)
  /-- The result of the random generator. -/
  random : ℕ

namespace Server

/-- A method of the server. -/
abbrev Method (α : Type) := Prog Server Sent α

/-- The constructor. -/
def new (roomName : Text) (anamorphDictionary : AnamorphDictionary) : Server where
  clients := []
  gameState := .lobby
  anamorphDictionary := anamorphDictionary
  players := .empty
  roomName := roomName
  uuids := []

/-! ## The state -/

/-- The server with other players. -/
@[simps]
def withPlayers (s : Server) (players : HashMap ClientHandler Player) : Server :=
  { s with players := players }

/-- The server in another phase. -/
@[simps]
def withGameState (s : Server) (gameState : GameState) : Server := { s with gameState := gameState }

/-- The server with a dictionary that has validated other anamorphoses. -/
@[simps]
def withDictionary (s : Server) (dict : AnamorphDictionary) : Server :=
  { s with anamorphDictionary := dict }

/-- The server after an id has been given. -/
@[simps]
def withUuid (s : Server) (uuid : Text) : Server := { s with uuids := uuid :: s.uuids }

/-- The server with another room name. -/
@[simps]
def withRoomName (s : Server) (roomName : Text) : Server := { s with roomName := roomName }

/-- The `Server.getHandler` of an id. -/
def getHandler (playerId : Text) (s : Server) : Option ClientHandler :=
  (s.players.entries.find? fun entry => entry.2.playerId = playerId).map Prod.fst

/-- The comparison of `sortPlayersByScore`: both scores are that of `p2`. -/
def compareScores (_p1 p2 : Player) : Int32 := p2.score - p2.score

/-- `Server.sortPlayersByScore`; `none` stands for `null`. -/
def sortPlayersByScore (s : Server) : Option (List Player) :=
  if s.players.values.any fun player => player.score = -1 then none
  else some (s.players.values.mergeSort fun p1 p2 => compareScores p1 p2 ≤ 0)

/-- `Server.areAllPlayerReady`. -/
def areAllPlayerReady (s : Server) : Bool := s.players.values.all Player.ready

/-! ## Sending messages -/

/-- `ClientHandler.sendMessage`. -/
def sendMessage (handler : ClientHandler) (message : Text) : Method Unit :=
  .output (handler, message)

/-- `ServerBase.sendMessageToAll`. -/
def sendMessageToAll (message : Text) : Method Unit :=
  .forEach clients fun client => sendMessage client message

/-- `Server.sendPlayerList`. -/
def sendPlayerList : Method Unit := do
  let players ← .reads fun s => s.players.values
  sendMessageToAll (buildPlayersInstruction players)

/-! ## The messages -/

/-- `Server.addPlayer`; `none` stands for `null`. -/
def addPlayer (handler : ClientHandler) (name : Text) (choice : Choice) : Method (Option Text) := do
  let gameState ← .reads Server.gameState
  if gameState ≠ .lobby then
    return none
  .modify fun s => s.withUuid choice.uuid.text
  let newPlayer := Player.new name 0 false choice.uuid.text
  .modify fun s => s.withPlayers (s.players.put handler newPlayer choice.arrangement)
  return some newPlayer.playerId

/-- `CONNECT`. -/
def onConnect (handler : ClientHandler) (data : Text) (choice : Choice) : Method Unit := do
  let name ← .lift (parseConnectInstructionData data)
  match ← addPlayer handler name choice with
  | none => sendMessage handler buildAlreadyStartedInstruction
  | some playerId =>
    sendMessage handler (buildPlayerIDInstruction playerId)
    let roomName ← .reads Server.roomName
    sendMessage handler (buildRoomNameInstruction roomName)
    sendPlayerList

/-- `DISCONNECT`. -/
def onDisconnect (handler : ClientHandler) : Method Unit := do
  .modify fun s => s.withPlayers (s.players.remove handler)
  sendPlayerList

/-- `RECONNECT`. -/
def onReconnect (handler : ClientHandler) (data : Text) (choice : Choice) : Method Unit := do
  let id := parsePlayerIdInstruction data
  match ← .reads (getHandler id) with
  | some h =>
    let p ← .reads fun s => s.players.get h
    .modify fun s => s.withPlayers (s.players.remove h)
    -- A handler found in the map has a player, as long as nobody interferes.
    if let some p := p then
      .modify fun s => s.withPlayers (s.players.put handler p choice.arrangement)
    sendMessage handler (buildPlayerIDInstruction id)
  | none => sendMessage handler alreadyStartedInstructionType

/-- An update of the player bound to a handler. -/
def updatePlayer (handler : ClientHandler) (f : Player → Player) : Method Unit :=
  .modify fun s => s.withPlayers (s.players.replace handler f)

/-- The player changes state ready/not ready. -/
def toggleReady (player : Player) : Player := { player with ready := !player.ready }

/-- `READY`. -/
def onReady (handler : ClientHandler) : Method Unit := do
  updatePlayer handler toggleReady
  sendPlayerList

/-- `START`. -/
def onStart (handler : ClientHandler) : Method Unit := do
  if ← .reads areAllPlayerReady then
    .modify fun s => s.withGameState .mainGame
    sendMessageToAll buildStartInstruction
  else
    sendMessage handler buildNotReadyInstruction

/-- `ROOM-NAME`. -/
def onRoomName (handler : ClientHandler) (data : Text) : Method Unit := do
  if handler.isHost then
    let roomName ← .lift (parseRoomNameInstruction data)
    .modify fun s => s.withRoomName roomName
    sendMessageToAll (buildRoomNameInstruction roomName)

/-- `Server.chooseMediumAnamorph`. -/
def chooseMediumAnamorph (choice : Choice) : Method Text := do
  let drawn ← .reads fun s => (s.anamorphDictionary.getRandom .medium false choice.random).2
  .modify fun s =>
    s.withDictionary (s.anamorphDictionary.getRandom .medium false choice.random).1
  match drawn with
  | some anamorphosis => return Integer.toString anamorphosis.id
  | none => .throw .illegalArgument

/-- The loop that collects the players whose score is that of the one before. -/
def equalsLoop (equalsPlayers : List Player) (last : Player) : List Player → List Player
  | [] => equalsPlayers
  | player :: players =>
    if player.score ≠ last.score then equalsPlayers
    else equalsLoop (equalsPlayers ++ [player]) player players

/-- The end of the main game, with the players `sortPlayersByScore` gives. -/
def finishMainGame (players : List Player) (choice : Choice) : Method Unit := do
  let first ← .lift (index players 0)
  let equalsPlayers := equalsLoop [first] first (players.drop 1)
  if equalsPlayers.length > 1 then
    .modify fun s => s.withGameState .deathMatch
    let anamorphId ← chooseMediumAnamorph choice
    sendMessageToAll (buildDeathMatchInstruction equalsPlayers anamorphId)
  else
    sendMessageToAll (buildFinishedInstruction players)
    .modify fun s => s.withGameState .ended

/-- What is not `null`: the use of `null` throws. -/
def notNull {α : Type} : Option α → Except Throwable α
  | some a => .ok a
  | none => .error .nullPointer

/-- The player has found one more anamorphosis. -/
def countFind (player : Player) : Player :=
  { player with nbFoundAnamorphosis := player.nbFoundAnamorphosis + 1 }

/-- The player scores the value of an anamorphosis. -/
def addScore (d : Difficulty) (player : Player) : Player :=
  { player with score := player.score + d.value }

/-- `ANAM-FOUND`. -/
def onAnamorphosisFound (handler : ClientHandler) (data : Text) (choice : Choice) :
    Method Unit := do
  updatePlayer handler countFind
  let anamDifficulty ← .lift (parseAnamorphosisFoundMessage data)
  updatePlayer handler (addScore anamDifficulty)
  let gameState ← .reads Server.gameState
  if gameState = .deathMatch then
    let players ← .lift (notNull (← .reads sortPlayersByScore))
    sendMessageToAll (buildFinishedInstruction players)
    .modify fun s => s.withGameState .ended
  else if gameState = .mainGame then
    let player ← .lift (notNull (← .reads fun s => s.players.get handler))
    if player.nbFoundAnamorphosis ≥ 4 then
      let players ← .lift (notNull (← .reads sortPlayersByScore))
      finishMainGame players choice
    else
      sendPlayerList

/-- The `switch` of `onMessageReceived`. -/
def dispatch (handler : ClientHandler) (instructionType data : Text) (choice : Choice) :
    Method Unit :=
  if instructionType = connectMessageType then onConnect handler data choice
  else if instructionType = disconnectMessageType then onDisconnect handler
  else if instructionType = reconnectMessageType then onReconnect handler data choice
  else if instructionType = readyMessageType then onReady handler
  else if instructionType = startMessageType then onStart handler
  else if instructionType = roomNameMessageType then onRoomName handler data
  else if instructionType = anamorphosisFoundMessageType then
    onAnamorphosisFound handler data choice
  else return ()

/-- `Server.onMessageReceived`. -/
def onMessageReceived (handler : ClientHandler) (message : Option Text) (choice : Choice) :
    Method Unit := do
  let some message := message | return ()
  let instructionType ← .lift (parseInstructionType message)
  let player ← .reads fun s => s.players.get handler
  if player = none then
    if instructionType ≠ connectMessageType ∧ instructionType ≠ reconnectMessageType then
      return ()
  dispatch handler instructionType (parseInstructionData message) choice

/-- `Server.onClientDisconnected`. -/
def onClientDisconnected (handler : ClientHandler) : Method Unit := do
  if ← .reads fun s => s.players.containsKey handler then
    sendPlayerList

/-- `Server.onServerStopped`. -/
def onServerStopped : Method Unit := do
  sendMessageToAll buildServerStoppedInstruction
  .modify fun s => s.withPlayers .empty

/-! ## What the methods do -/

/-- A message to all the clients. -/
def broadcast (s : Server) (message : Text) : List Sent :=
  s.clients.map fun client => (client, message)

/-- The list of players, to all the clients. -/
def playerList (s : Server) : List Sent := s.broadcast (buildPlayersInstruction s.players.values)

variable {s : Server} {handler : ClientHandler} {data : Text} {choice : Choice}

@[simp] theorem exec_sendMessage (message : Text) :
    (sendMessage handler message).exec s = ⟨s, [(handler, message)], .ok ()⟩ := rfl

@[simp] theorem exec_sendMessageToAll (message : Text) :
    (sendMessageToAll message).exec s = ⟨s, s.broadcast message, .ok ()⟩ :=
  Prog.exec_forEach_output _ _ s

@[simp] theorem exec_sendPlayerList :
    sendPlayerList.exec s = ⟨s, s.playerList, .ok ()⟩ := by
  simp [sendPlayerList, playerList]

@[simp] theorem exec_updatePlayer (f : Player → Player) :
    (updatePlayer handler f).exec s = ⟨s.withPlayers (s.players.replace handler f), [], .ok ()⟩ :=
  rfl

/-- The server after an accepted `CONNECT`. -/
def connected (s : Server) (handler : ClientHandler) (name : Text) (choice : Choice) : Server :=
  (s.withUuid choice.uuid.text).withPlayers
    (s.players.put handler (Player.new name 0 false choice.uuid.text) choice.arrangement)

theorem exec_onConnect : (onConnect handler data choice).exec s =
    match parseConnectInstructionData data with
    | .error e => ⟨s, [], .error e⟩
    | .ok name =>
      if s.gameState = .lobby then
        ⟨s.connected handler name choice,
          [(handler, buildPlayerIDInstruction choice.uuid.text),
            (handler, buildRoomNameInstruction s.roomName)] ++
            (s.connected handler name choice).playerList, .ok ()⟩
      else ⟨s, [(handler, buildAlreadyStartedInstruction)], .ok ()⟩ := by
  rw [onConnect]
  cases hname : parseConnectInstructionData data with
  | error e => simp
  | ok name =>
    by_cases hlobby : s.gameState = .lobby
    · simp [addPlayer, hlobby, connected, Player.new]
    · simp [addPlayer, hlobby]

theorem exec_onDisconnect : (onDisconnect handler).exec s =
    ⟨s.withPlayers (s.players.remove handler),
      (s.withPlayers (s.players.remove handler)).playerList, .ok ()⟩ := by
  simp [onDisconnect]

theorem getHandler_eq_some {id : Text} {h : ClientHandler} (hh : s.getHandler id = some h) :
    ∃ p, s.players.get h = some p ∧ p.playerId = id := by
  obtain ⟨⟨h', p⟩, hfind, rfl⟩ := Option.map_eq_some_iff.1 hh
  refine ⟨p, HashMap.mem_entries.1 (List.mem_of_find?_eq_some hfind), ?_⟩
  simpa using List.find?_some hfind

theorem getHandler_eq_none_iff {id : Text} :
    s.getHandler id = none ↔ ∀ p ∈ s.players.values, p.playerId ≠ id := by
  simp only [getHandler, HashMap.values, Option.map_eq_none_iff, List.find?_eq_none, List.mem_map]
  constructor
  · rintro h p ⟨entry, hentry, rfl⟩
    simpa using h entry hentry
  · intro h entry hentry
    simpa using h entry.2 ⟨entry, hentry, rfl⟩

theorem exec_onReconnect_of_known {h : ClientHandler} {p : Player}
    (hh : s.getHandler data = some h) (hp : s.players.get h = some p) :
    (onReconnect handler data choice).exec s =
      ⟨s.withPlayers ((s.players.remove h).put handler p choice.arrangement),
        [(handler, buildPlayerIDInstruction data)], .ok ()⟩ := by
  have hwith : ∀ players players', (s.withPlayers players).withPlayers players' =
      s.withPlayers players' := fun _ _ => rfl
  simp [onReconnect, parsePlayerIdInstruction, hh, hp, hwith]

theorem exec_onReconnect_of_unknown (hh : s.getHandler data = none) :
    (onReconnect handler data choice).exec s =
      ⟨s, [(handler, alreadyStartedInstructionType)], .ok ()⟩ := by
  simp [onReconnect, parsePlayerIdInstruction, hh]

theorem exec_onReady : (onReady handler).exec s =
    ⟨s.withPlayers (s.players.replace handler toggleReady),
      (s.withPlayers (s.players.replace handler toggleReady)).playerList, .ok ()⟩ := by
  simp [onReady]

theorem exec_onStart : (onStart handler).exec s =
    if s.areAllPlayerReady then
      ⟨s.withGameState .mainGame, s.broadcast buildStartInstruction, .ok ()⟩
    else ⟨s, [(handler, buildNotReadyInstruction)], .ok ()⟩ := by
  by_cases h : s.areAllPlayerReady
  · simp [onStart, h, broadcast]
  · simp [onStart, h]

theorem exec_onRoomName : (onRoomName handler data).exec s =
    if handler.isHost then
      match parseRoomNameInstruction data with
      | .error e => ⟨s, [], .error e⟩
      | .ok roomName =>
        ⟨s.withRoomName roomName, s.broadcast (buildRoomNameInstruction roomName), .ok ()⟩
    else ⟨s, [], .ok ()⟩ := by
  rw [onRoomName]
  by_cases hhost : handler.isHost
  · cases hname : parseRoomNameInstruction data with
    | error e => simp [hhost]
    | ok roomName => simp [hhost, broadcast]
  · simp [hhost]

/-! ### Finding an anamorphosis -/

/-- The player has found an anamorphosis. -/
def credit (d : Difficulty) (player : Player) : Player := addScore d (countFind player)

/-- What a find does to the player bound to its handler: it counts, even if there is no
    difficulty to read. -/
def recordFind (data : Text) (player : Player) : Player :=
  match parseAnamorphosisFoundMessage data with
  | .ok d => credit d player
  | .error _ => countFind player

theorem recordFind_of_ok {d : Difficulty} (hd : parseAnamorphosisFoundMessage data = .ok d) :
    recordFind data = credit d := by
  funext player
  rw [recordFind, hd]

theorem recordFind_of_error {e : Throwable} (hd : parseAnamorphosisFoundMessage data = .error e) :
    recordFind data = countFind := by
  funext player
  rw [recordFind, hd]

@[simp] theorem recordFind_playerId (data : Text) (p : Player) :
    (recordFind data p).playerId = p.playerId := by
  rw [recordFind]
  split <;> rfl

@[simp] theorem recordFind_nbFoundAnamorphosis (data : Text) (p : Player) :
    (recordFind data p).nbFoundAnamorphosis = p.nbFoundAnamorphosis + 1 := by
  rw [recordFind]
  split <;> rfl

/-- The server once the find has been credited. -/
def credited (s : Server) (handler : ClientHandler) (d : Difficulty) : Server :=
  s.withPlayers (s.players.replace handler (credit d))

/-- The player who has found something is there. -/
theorem players_credited_ne_nil {p : Player} (hp : s.players.get handler = some p)
    (d : Difficulty) : (s.credited handler d).players.values ≠ [] := by
  have hget : (s.credited handler d).players.get handler = some (credit d p) := by
    simp [credited, hp]
  exact List.ne_nil_of_mem (HashMap.mem_values.2 ⟨handler, hget⟩)

/-- The score of some player is the one that stands for no score. -/
def unscored (s : Server) : Bool := s.players.values.any fun player => player.score = -1

/-- The comparison is constant, so sorting changes nothing. -/
theorem sortPlayersByScore_eq :
    s.sortPlayersByScore = if s.unscored then none else some s.players.values := by
  rw [sortPlayersByScore, unscored, List.mergeSort_of_pairwise]
  exact List.pairwise_of_forall fun p1 p2 => by simp [compareScores]

/-- The players that come first with the same score. -/
def leaders (players : List Player) : List Player := leadingRun Player.score players

theorem equalsLoop_eq (equalsPlayers : List Player) (last : Player) (players : List Player) :
    equalsLoop equalsPlayers last players =
      equalsPlayers ++ players.takeWhile fun player => player.score = last.score := by
  induction players generalizing equalsPlayers last with
  | nil => simp [equalsLoop]
  | cons player players ih =>
    by_cases h : player.score = last.score
    · simp [equalsLoop, h, ih]
    · simp [equalsLoop, h]

theorem exec_finishMainGame (first : Player) (players : List Player) :
    (finishMainGame (first :: players) choice).exec s =
      if (leaders (first :: players)).length > 1 then
        match (s.anamorphDictionary.getRandom .medium false choice.random) with
        | (dict, some anamorphosis) =>
          ⟨(s.withGameState .deathMatch).withDictionary dict,
            s.broadcast (buildDeathMatchInstruction (leaders (first :: players))
              (Integer.toString anamorphosis.id)), .ok ()⟩
        | (dict, none) =>
          ⟨(s.withGameState .deathMatch).withDictionary dict, [], .error .illegalArgument⟩
      else
        ⟨s.withGameState .ended, s.broadcast (buildFinishedInstruction (first :: players)),
          .ok ()⟩ := by
  have hleaders : equalsLoop [first] first players = leaders (first :: players) := by
    rw [equalsLoop_eq, List.singleton_append]
    rfl
  by_cases htie : (leaders (first :: players)).length > 1
  · rcases hdraw : s.anamorphDictionary.getRandom .medium false choice.random with ⟨dict, _ | a⟩
    · simp [finishMainGame, index, hleaders, htie, chooseMediumAnamorph, hdraw]
    · simp [finishMainGame, index, hleaders, htie, chooseMediumAnamorph, hdraw, broadcast]
  · simp [finishMainGame, index, hleaders, htie]

theorem exec_onAnamorphosisFound_of_error {e : Throwable}
    (hd : parseAnamorphosisFoundMessage data = .error e) :
    (onAnamorphosisFound handler data choice).exec s =
      ⟨s.withPlayers (s.players.replace handler countFind), [], .error e⟩ := by
  simp [onAnamorphosisFound, hd]

/-- What a find does, in each phase. -/
theorem exec_onAnamorphosisFound {p : Player} {d : Difficulty}
    (hp : s.players.get handler = some p) (hd : parseAnamorphosisFoundMessage data = .ok d) :
    (onAnamorphosisFound handler data choice).exec s =
      match s.gameState with
      | .lobby | .ended => ⟨s.credited handler d, [], .ok ()⟩
      | .deathMatch =>
        if (s.credited handler d).unscored then
          ⟨s.credited handler d, [], .error .nullPointer⟩
        else
          ⟨(s.credited handler d).withGameState .ended,
            (s.credited handler d).broadcast
              (buildFinishedInstruction (s.credited handler d).players.values), .ok ()⟩
      | .mainGame =>
        if p.nbFoundAnamorphosis + 1 ≥ 4 then
          if (s.credited handler d).unscored then
            ⟨s.credited handler d, [], .error .nullPointer⟩
          else
            (finishMainGame (s.credited handler d).players.values choice).exec
              (s.credited handler d)
        else ⟨s.credited handler d, (s.credited handler d).playerList, .ok ()⟩ := by
  have hcredited : (s.withPlayers (s.players.replace handler countFind)).withPlayers
      ((s.players.replace handler countFind).replace handler (addScore d)) =
      s.credited handler d := by
    rw [HashMap.replace_replace]
    rfl
  have hget : (s.credited handler d).players.get handler = some (credit d p) := by
    simp [credited, hp]
  have hphase : (s.credited handler d).gameState = s.gameState := rfl
  have hcount : (credit d p).nbFoundAnamorphosis = p.nbFoundAnamorphosis + 1 := rfl
  -- The player is credited first, whatever the phase, which only decides what follows.
  cases hs : s.gameState with
  | lobby | ended => simp [onAnamorphosisFound, hd, hcredited, hphase, hs]
  | deathMatch =>
    by_cases hunscored : (s.credited handler d).unscored <;>
      simp [onAnamorphosisFound, hd, hcredited, hphase, hs, sortPlayersByScore_eq, hunscored,
        notNull]
  | mainGame =>
    by_cases hfour : p.nbFoundAnamorphosis + 1 ≥ 4
    · by_cases hunscored : (s.credited handler d).unscored <;>
        simp [onAnamorphosisFound, hd, hcredited, hphase, hs, sortPlayersByScore_eq, hunscored,
          notNull, hget, hcount, hfour]
    · simp [onAnamorphosisFound, hd, hcredited, hphase, hs, notNull, hget, hcount, hfour]

/-! ### Receiving a line -/

/-- The message is processed if it comes from a player, or asks to become one. -/
theorem exec_received {l type : Text} (htype : parseInstructionType l = .ok type)
    (hguard : ¬(s.players.get handler = none ∧
      type ≠ connectMessageType ∧ type ≠ reconnectMessageType)) :
    (onMessageReceived handler (some l) choice).exec s =
      (dispatch handler type (parseInstructionData l) choice).exec s := by
  simp only [onMessageReceived, htype, Prog.exec_bind, Prog.exec_lift, Outcome.andThen_ok,
    Prog.exec_reads, Outcome.after_nil]
  split_ifs with hnone hne
  · exact absurd ⟨hnone, hne⟩ hguard
  · rfl
  · rfl

/-- Messages from handlers without player are ignored. -/
theorem exec_received_of_unbound {l type : Text} (htype : parseInstructionType l = .ok type)
    (hguard : s.players.get handler = none ∧
      type ≠ connectMessageType ∧ type ≠ reconnectMessageType) :
    (onMessageReceived handler (some l) choice).exec s = ⟨s, [], .ok ()⟩ := by
  simp [onMessageReceived, htype, hguard]

theorem exec_received_start {l : Text} {p : Player} (hp : s.players.get handler = some p)
    (htype : parseInstructionType l = .ok startMessageType) :
    (onMessageReceived handler (some l) choice).exec s = (onStart handler).exec s := by
  rw [exec_received htype (by simp [hp])]
  rfl

theorem exec_received_found {l : Text} {p : Player} (hp : s.players.get handler = some p)
    (htype : parseInstructionType l = .ok anamorphosisFoundMessageType) :
    (onMessageReceived handler (some l) choice).exec s =
      (onAnamorphosisFound handler (parseInstructionData l) choice).exec s := by
  rw [exec_received htype (by simp [hp])]
  rfl

/-- The types of the messages the server processes. -/
def messageTypes : List Text :=
  [connectMessageType, disconnectMessageType, reconnectMessageType, readyMessageType,
    startMessageType, roomNameMessageType, anamorphosisFoundMessageType]

/-- What receiving a line does. -/
inductive Receiving (s : Server) (handler : ClientHandler) (l : Text) (choice : Choice) :
    Outcome Server Sent Unit → Prop
  /-- The line is made of spaces. -/
  | unreadable (e : Throwable) : parseInstructionType l = .error e →
      Receiving s handler l choice ⟨s, [], .error e⟩
  /-- Its handler has no player, or its type is not one of those above. -/
  | ignored (type : Text) : parseInstructionType l = .ok type →
      (s.players.get handler = none ∧ type ≠ connectMessageType ∧ type ≠ reconnectMessageType ∨
        type ∉ messageTypes) → Receiving s handler l choice ⟨s, [], .ok ()⟩
  /-- A `CONNECT` whose name cannot be decoded. -/
  | unnamed (e : Throwable) : parseInstructionType l = .ok connectMessageType →
      parseConnectInstructionData (parseInstructionData l) = .error e →
      Receiving s handler l choice ⟨s, [], .error e⟩
  | connected (name : Text) : parseInstructionType l = .ok connectMessageType →
      parseConnectInstructionData (parseInstructionData l) = .ok name → s.gameState = .lobby →
      Receiving s handler l choice ⟨s.connected handler name choice,
        [(handler, buildPlayerIDInstruction choice.uuid.text),
          (handler, buildRoomNameInstruction s.roomName)] ++
          (s.connected handler name choice).playerList, .ok ()⟩
  /-- A `CONNECT` after the lobby. -/
  | late (name : Text) : parseInstructionType l = .ok connectMessageType →
      parseConnectInstructionData (parseInstructionData l) = .ok name → s.gameState ≠ .lobby →
      Receiving s handler l choice ⟨s, [(handler, buildAlreadyStartedInstruction)], .ok ()⟩
  | recognised (h : ClientHandler) (p : Player) :
      parseInstructionType l = .ok reconnectMessageType →
      s.getHandler (parseInstructionData l) = some h → s.players.get h = some p →
      Receiving s handler l choice
        ⟨s.withPlayers ((s.players.remove h).put handler p choice.arrangement),
          [(handler, buildPlayerIDInstruction (parseInstructionData l))], .ok ()⟩
  /-- A `RECONNECT` with an id that nobody has. -/
  | unknown : parseInstructionType l = .ok reconnectMessageType →
      s.getHandler (parseInstructionData l) = none →
      Receiving s handler l choice ⟨s, [(handler, alreadyStartedInstructionType)], .ok ()⟩
  | disconnected (p : Player) : s.players.get handler = some p →
      parseInstructionType l = .ok disconnectMessageType →
      Receiving s handler l choice ⟨s.withPlayers (s.players.remove handler),
        (s.withPlayers (s.players.remove handler)).playerList, .ok ()⟩
  | ready (p : Player) : s.players.get handler = some p →
      parseInstructionType l = .ok readyMessageType →
      Receiving s handler l choice ⟨s.withPlayers (s.players.replace handler toggleReady),
        (s.withPlayers (s.players.replace handler toggleReady)).playerList, .ok ()⟩
  | started (p : Player) : s.players.get handler = some p →
      parseInstructionType l = .ok startMessageType → s.areAllPlayerReady →
      Receiving s handler l choice
        ⟨s.withGameState .mainGame, s.broadcast buildStartInstruction, .ok ()⟩
  | notReady (p : Player) : s.players.get handler = some p →
      parseInstructionType l = .ok startMessageType → ¬s.areAllPlayerReady →
      Receiving s handler l choice ⟨s, [(handler, buildNotReadyInstruction)], .ok ()⟩
  /-- A name of the room that cannot be decoded, from the host. -/
  | roomUnnamed (p : Player) (e : Throwable) : s.players.get handler = some p →
      parseInstructionType l = .ok roomNameMessageType → handler.isHost →
      parseRoomNameInstruction (parseInstructionData l) = .error e →
      Receiving s handler l choice ⟨s, [], .error e⟩
  | roomNamed (p : Player) (roomName : Text) : s.players.get handler = some p →
      parseInstructionType l = .ok roomNameMessageType → handler.isHost →
      parseRoomNameInstruction (parseInstructionData l) = .ok roomName →
      Receiving s handler l choice
        ⟨s.withRoomName roomName, s.broadcast (buildRoomNameInstruction roomName), .ok ()⟩
  /-- A name of the room that does not come from the host. -/
  | roomKept (p : Player) : s.players.get handler = some p →
      parseInstructionType l = .ok roomNameMessageType → ¬handler.isHost →
      Receiving s handler l choice ⟨s, [], .ok ()⟩
  | found (p : Player) : s.players.get handler = some p →
      parseInstructionType l = .ok anamorphosisFoundMessageType →
      Receiving s handler l choice
        ((onAnamorphosisFound handler (parseInstructionData l) choice).exec s)

theorem receiving_connect {l : Text} (htype : parseInstructionType l = .ok connectMessageType) :
    Receiving s handler l choice ((onConnect handler (parseInstructionData l) choice).exec s) := by
  rw [exec_onConnect]
  cases hname : parseConnectInstructionData (parseInstructionData l) with
  | error e => exact .unnamed e htype hname
  | ok name =>
    dsimp only
    split_ifs with hlobby
    · exact .connected name htype hname hlobby
    · exact .late name htype hname hlobby

theorem receiving_reconnect {l : Text} (htype : parseInstructionType l = .ok reconnectMessageType) :
    Receiving s handler l choice
      ((onReconnect handler (parseInstructionData l) choice).exec s) := by
  cases hfind : s.getHandler (parseInstructionData l) with
  | none =>
    rw [exec_onReconnect_of_unknown hfind]
    exact .unknown htype hfind
  | some h =>
    obtain ⟨p, hp, -⟩ := getHandler_eq_some hfind
    rw [exec_onReconnect_of_known hfind hp]
    exact .recognised h p htype hfind hp

theorem receiving_roomName {l : Text} {p : Player} (hp : s.players.get handler = some p)
    (htype : parseInstructionType l = .ok roomNameMessageType) :
    Receiving s handler l choice ((onRoomName handler (parseInstructionData l)).exec s) := by
  rw [exec_onRoomName]
  split_ifs with hhost
  · cases hname : parseRoomNameInstruction (parseInstructionData l) with
    | error e => exact .roomUnnamed p e hp htype hhost hname
    | ok roomName => exact .roomNamed p roomName hp htype hhost hname
  · exact .roomKept p hp htype hhost

/-- Receiving a line is one of the cases of `Receiving`. -/
theorem receiving (s : Server) (handler : ClientHandler) (l : Text) (choice : Choice) :
    Receiving s handler l choice ((onMessageReceived handler (some l) choice).exec s) := by
  cases htype : parseInstructionType l with
  | error e =>
    have hexec : (onMessageReceived handler (some l) choice).exec s = ⟨s, [], .error e⟩ := by
      simp [onMessageReceived, htype]
    rw [hexec]
    exact .unreadable e htype
  | ok type =>
    by_cases hguard : s.players.get handler = none ∧
        type ≠ connectMessageType ∧ type ≠ reconnectMessageType
    · rw [exec_received_of_unbound htype hguard]
      exact .ignored type htype (.inl hguard)
    · -- The guard lets the introductions through, and what comes from a handler with a player.
      have hbound : type ≠ connectMessageType → type ≠ reconnectMessageType →
          ∃ p, s.players.get handler = some p := by
        intro hc hr
        exact Option.ne_none_iff_exists'.1 fun hnone => hguard ⟨hnone, hc, hr⟩
      rw [exec_received htype hguard, dispatch]
      split_ifs with hc hd hr hrd hst hrn hf
      · exact receiving_connect (htype.trans (congrArg _ hc))
      · obtain ⟨p, hp⟩ := hbound hc (by rw [hd]; decide)
        rw [exec_onDisconnect]
        exact .disconnected p hp (htype.trans (congrArg _ hd))
      · exact receiving_reconnect (htype.trans (congrArg _ hr))
      · obtain ⟨p, hp⟩ := hbound hc hr
        rw [exec_onReady]
        exact .ready p hp (htype.trans (congrArg _ hrd))
      · obtain ⟨p, hp⟩ := hbound hc hr
        rw [exec_onStart]
        split_ifs with hready
        · exact .started p hp (htype.trans (congrArg _ hst)) hready
        · exact .notReady p hp (htype.trans (congrArg _ hst)) hready
      · obtain ⟨p, hp⟩ := hbound hc hr
        exact receiving_roomName hp (htype.trans (congrArg _ hrn))
      · obtain ⟨p, hp⟩ := hbound hc hr
        exact .found p hp (htype.trans (congrArg _ hf))
      · exact .ignored type htype (.inr (by simp [messageTypes, *]))

end Server

end Gaze
