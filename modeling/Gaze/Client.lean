import Gaze.Server

/-!
# The clients

A client opens a connection, introduces itself, with a `CONNECT` or, when it has
lost its connection, with a `RECONNECT`, and then reads the messages of the server
until it stops running. Any exception makes it open another connection.

A `Client` is used for one game: `connectServer`, which waits for the thread of
the game before to be over, and forgets everything, stands for another client.
-/

namespace Gaze

open Java Protocol

/-- What a client tells the server. -/
inductive Command
  | connect (playerName : Text)
  | reconnect (playerId : Option Text)
  | ready (playerId : Option Text)
  | found (anamorphosis : Anamorphosis)
  | start
  | roomName (roomName : Text)
  | quit
  deriving DecidableEq

namespace Command

/-- An id in a format string: `null` is written `null`. -/
def format (playerId : Option Text) : Text := playerId.getD "null".toList

/-- The text the client writes. -/
def text : Command → Text
  | connect playerName => buildConnectInstruction playerName
  | reconnect playerId => buildReconnectMessageType (format playerId)
  | ready playerId => buildReadyInstruction (format playerId)
  | found anamorphosis => buildAnamorphosisFoundMessage anamorphosis
  | start => buildStartInstruction
  | roomName name => buildRoomNameInstruction name
  | quit => buildQuitInstruction

/-- The type of the command. -/
def type : Command → Text
  | connect _ => connectMessageType
  | reconnect _ => reconnectMessageType
  | ready _ => readyMessageType
  | found _ => anamorphosisFoundMessageType
  | start => startMessageType
  | roomName _ => roomNameMessageType
  | quit => quitMessageType

/-- The line the server reads. -/
def line : Command → Text
  | connect playerName => Protocol.line connectMessageType (URLEncoder.encode playerName)
  | reconnect playerId => Protocol.line reconnectMessageType (format playerId)
  | ready playerId => Protocol.line readyMessageType (format playerId)
  | found anamorphosis => Protocol.line anamorphosisFoundMessageType
      (Integer.toString anamorphosis.difficulty.ordinal)
  | start => startMessageType
  | roomName name => Protocol.line roomNameMessageType (URLEncoder.encode name)
  | quit => quitMessageType

/-- The command introduces the client on a new connection. -/
def isIntroduction : Command → Bool
  | connect _ | reconnect _ => true
  | _ => false

/-- The command reports a find. -/
def isFind : Command → Bool
  | found _ => true
  | _ => false

/-- The ids the command is made of are plain. -/
def HasPlainId : Command → Prop
  | reconnect playerId | ready playerId => Plain (format playerId)
  | _ => True

/-- The ids the command is made of may be the data of a line. -/
def HasLineId : Command → Prop
  | reconnect playerId | ready playerId =>
    ∀ c ∈ format playerId, c ≠ ' ' ∧ isTerminator c = false
  | _ => True

theorem HasPlainId.hasLineId {c : Command} (hc : c.HasPlainId) : c.HasLineId := by
  cases c with
  | reconnect id | ready id =>
    exact fun d hd => ⟨fun h => hc d hd (by rw [h]; decide), Plain.not_terminator hc d hd⟩
  | _ => trivial

/-- A command is read as one line. -/
theorem feed_text {c : Command} (hc : c.HasLineId) :
    LineReader.start.feed c.text = (LineReader.start, [c.line]) := by
  cases c with
  | connect name => exact feed_withData (by decide) (plain_encode name).not_terminator
  | reconnect id => exact feed_withData (by decide) fun d hd => (hc d hd).2
  | ready id => exact feed_withData (by decide) fun d hd => (hc d hd).2
  | found a => exact feed_withData (by decide) (plain_integer _).not_terminator
  | start => exact feed_bare (by decide)
  | roomName name => exact feed_withData (by decide) (plain_encode name).not_terminator
  | quit => exact feed_bare (by decide)

theorem parseInstructionType_line (c : Command) : parseInstructionType c.line = .ok c.type := by
  cases c with
  | start | quit => exact parseInstructionType_bare (by decide)
  | _ => exact Protocol.parseInstructionType_line (by decide) (by decide) _

theorem parseInstructionData_connect (name : Text) :
    parseInstructionData (connect name).line = URLEncoder.encode name :=
  parseInstructionData_line (by decide) (by decide) ((plain_encode name).not_mem (by decide))

theorem parseInstructionData_reconnect {id : Option Text} (h : Plain (format id)) :
    parseInstructionData (reconnect id).line = format id :=
  parseInstructionData_line (by decide) (by decide) (h.not_mem (by decide))

theorem parseInstructionData_roomName (name : Text) :
    parseInstructionData (roomName name).line = URLEncoder.encode name :=
  parseInstructionData_line (by decide) (by decide) ((plain_encode name).not_mem (by decide))

/-- The difficulty of a find is read back. -/
theorem parseAnamorphosisFoundMessage_found (a : Anamorphosis) :
    parseAnamorphosisFoundMessage (parseInstructionData (found a).line) = .ok a.difficulty := by
  have hdata : parseInstructionData (found a).line = Integer.toString a.difficulty.ordinal :=
    parseInstructionData_line (by decide) (by decide) ((plain_integer _).not_mem (by decide))
  rw [hdata]
  cases a.difficulty <;> decide

end Command

/-- `GameEventListener.GameEventType`, with the data of the event. -/
inductive GameEvent
  | playerListChanged (players : List Player)
  | gameStarted
  | gameEnded (players : List Player)
  | deathMatch (anamorphId : Option Text)
  | errorOccurred
  | serverStopped
  | roomNameChanged (roomName : Text)
  deriving DecidableEq

/-- Where the thread of a client is. -/
inductive Stage
  /-- `connectServer` has not been called. -/
  | idle
  /-- About to open a socket. -/
  | opening
  /-- The streams are those of a new connection. -/
  | opened (handler : ClientHandler)
  /-- In the loop, after the introduction. -/
  | listening (handler : ClientHandler)
  | ended
  deriving DecidableEq

/-- A `Client`. -/
structure Client where
  playerName : Text
  playerId : Option Text
  players : List Player
  lobby : Bool
  running : Bool
  reconnecting : Bool
  stage : Stage

namespace Client

/-- A new client. -/
def new : Client where
  playerName := []
  playerId := none
  players := []
  lobby := true
  running := false
  reconnecting := false
  stage := .idle

/-- The connection of the stream `out`; `none` stands for `null`. -/
def out (c : Client) : Option ClientHandler :=
  match c.stage with
  | .opened handler | .listening handler => some handler
  | .idle | .opening | .ended => none

/-- `Client.connectServer`. -/
def connectServer (c : Client) (playerName : Text) : Client :=
  { c with
    playerName := playerName
    playerId := none
    players := []
    running := true
    reconnecting := false
    stage := .opening }

/-- The introduction on a new connection. -/
def introduction (c : Client) : Command :=
  if c.reconnecting then .reconnect c.playerId else .connect c.playerName

/-- The client after its introduction: it enters the loop, or not. -/
def introduced (c : Client) (handler : ClientHandler) : Client :=
  { c with
    reconnecting := false
    stage := if c.running then .listening handler else .ended }

/-- The `catch` of `Client.run`: the client will open another connection. -/
def failed (c : Client) : Client := { c with reconnecting := true, stage := .opening }

/-- The `switch` of `Client.run`, with the event the listener is notified of. -/
def onMessage (c : Client) (message : Text) : Except Throwable (Client × Option GameEvent) := do
  let instructionType ← parseInstructionType message
  let data := parseInstructionData message
  if instructionType = playersInstructionType then
    let players ← parsePlayerListData data
    return ({ c with players := players }, some (.playerListChanged players))
  else if instructionType = playerIdInstructionType then
    return ({ c with playerId := some data }, none)
  else if instructionType = alreadyStartedInstructionType then
    return (c, some .errorOccurred)
  else if instructionType = startInstructionType then
    return ({ c with lobby := false }, some .gameStarted)
  else if instructionType = notReadyInstructionType then
    return (c, some .errorOccurred)
  else if instructionType = deathMatchInstructionType then
    return (c, some (.deathMatch (parseDeathMatchInstruction data c.playerId)))
  else if instructionType = finishedInstructionType then
    let players ← parsePlayerListData data
    return ({ c with players := players }, some (.gameEnded players))
  else if instructionType = serverStoppedInstruction then
    return ({ c with running := false, players := [] }, some .serverStopped)
  else if instructionType = roomNameInstructionType then
    let roomName ← parseRoomNameInstruction data
    return (c, some (.roomNameChanged roomName))
  else
    return (c, none)

/-- The end of a round of the loop: it goes on while the client is running. -/
def afterMessage (c : Client) : Client := if c.running then c else { c with stage := .ended }

end Client

end Gaze
