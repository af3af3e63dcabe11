import Gaze.Protocol

/-!
# What the clients read

The texts the server writes to a client follow each other on the stream, and the
client reads them line by line.

* `players_read_back_iff`: the list of players a `PLAYERS` or `FINISHED`
  instruction carries is read back exactly when it is not empty.
* `framed_iff`: every message is read as one line of its type, as soon as it has
  been written, exactly when none of them is the refusal `GAME-STARTED`, the only
  text without an end of line.
-/

namespace Gaze

open Java Protocol

/-! ## Lists of players -/

/-- The instruction is read as one line, of the right type, from which the list
    of players is read back. -/
def ReadsBack (instructionType instruction : Text) (players : List Player) : Prop :=
  ∃ l, LineReader.start.feed instruction = (LineReader.start, [l]) ∧
    parseInstructionType l = .ok instructionType ∧
    parsePlayerListData (parseInstructionData l) = .ok players

/-- The list of players of an instruction is read back exactly if it is not empty. -/
theorem readsBack_iff {type : Text} (htype : Plain type) (hne : type ≠ []) {players : List Player}
    (hid : ∀ p ∈ players, isUuid p.playerId) :
    ReadsBack type (buildPlayerListInstruction type players) players ↔ players ≠ [] := by
  have hplain : ∀ p ∈ players, Plain p.playerId := fun p hp => plain_of_isUuid (hid p hp)
  have hfeed := feed_withData htype (playerListData_not_terminator hplain)
  have hdata := parseInstructionData_line htype hne (space_not_mem_playerListData hplain)
  rw [ReadsBack, buildPlayerListInstruction_eq, hfeed]
  constructor
  · rintro ⟨l, hl, -, hparse⟩ rfl
    obtain rfl : line type (playerListData []) = l := by simpa using hl
    rw [hdata] at hparse
    exact absurd (parsePlayerListData_nil.symm.trans hparse) (by simp)
  · intro hplayers
    refine ⟨_, rfl, parseInstructionType_line htype hne _, ?_⟩
    rw [hdata, parsePlayerListData_playerListData hplain hplayers]

/-- Both lists of players the server sends are read back exactly if they are not
    empty. -/
theorem players_read_back_iff {players : List Player} (hid : ∀ p ∈ players, isUuid p.playerId) :
    (ReadsBack playersInstructionType (buildPlayersInstruction players) players ∧
      ReadsBack finishedInstructionType (buildFinishedInstruction players) players) ↔
      players ≠ [] := by
  rw [buildPlayersInstruction, buildFinishedInstruction,
    readsBack_iff (by decide) (by decide) hid, readsBack_iff (by decide) (by decide) hid, and_self]

/-- A player with a name full of separators. -/
def samplePlayer : Player where
  name := "a, b:c\n".toList
  score := -7
  ready := true
  playerId := "01234567-89ab-cdef-0123-456789abcdef".toList
  nbFoundAnamorphosis := 3

theorem samplePlayer_read_back :
    ReadsBack playersInstructionType (buildPlayersInstruction [samplePlayer]) [samplePlayer] ∧
      ReadsBack finishedInstructionType (buildFinishedInstruction [samplePlayer]) [samplePlayer] :=
  (players_read_back_iff (by decide)).2 (by decide)

/-- An empty list of players is not read back: the parser throws. -/
theorem no_players_not_read_back :
    ¬ ReadsBack playersInstructionType (buildPlayersInstruction []) [] := by
  rintro ⟨l, hl, -, hparse⟩
  obtain rfl : l = "PLAYERS ".toList := by
    rw [show LineReader.start.feed (buildPlayersInstruction []) =
      (LineReader.start, ["PLAYERS ".toList]) by decide] at hl
    simpa using hl.symm
  exact absurd hparse (by decide)

/-! ## The messages of the server -/

/-- The messages the server sends to a client. -/
inductive ServerMessage
  | id (playerId : Text)
  | roomName (roomName : Text)
  | players (players : List Player)
  | start
  | notReady
  /-- The refusal of a late `CONNECT`. -/
  | alreadyStarted
  /-- The refusal of a `RECONNECT` with an unknown id. -/
  | unknownId
  | deathMatch (equalsPlayers : List Player) (anamorphId : Int32)
  | finished (players : List Player)
  | serverStopped

namespace ServerMessage

/-- The text the server writes. -/
def text : ServerMessage → Text
  | id playerId => buildPlayerIDInstruction playerId
  | roomName name => buildRoomNameInstruction name
  | players ps => buildPlayersInstruction ps
  | start => buildStartInstruction
  | notReady => buildNotReadyInstruction
  | alreadyStarted => buildAlreadyStartedInstruction
  | unknownId => alreadyStartedInstructionType
  | deathMatch ps anamorphId => buildDeathMatchInstruction ps (Integer.toString anamorphId)
  | finished ps => buildFinishedInstruction ps
  | serverStopped => buildServerStoppedInstruction

/-- The type of the message. -/
def type : ServerMessage → Text
  | id _ => playerIdInstructionType
  | roomName _ => roomNameInstructionType
  | players _ => playersInstructionType
  | start => startInstructionType
  | notReady => notReadyInstructionType
  | alreadyStarted => alreadyStartedInstructionType
  | unknownId => alreadyStartedInstructionType
  | deathMatch _ _ => deathMatchInstructionType
  | finished _ => finishedInstructionType
  | serverStopped => serverStoppedInstruction

/-- The line the client reads, if the text has an end. -/
def line : ServerMessage → Text
  | id playerId => Protocol.line playerIdInstructionType playerId
  | roomName name => Protocol.line roomNameInstructionType (URLEncoder.encode name)
  | players ps => Protocol.line playersInstructionType (playerListData ps)
  | start => startInstructionType
  | notReady => notReadyInstructionType
  | alreadyStarted => alreadyStartedInstructionType
  | unknownId => alreadyStartedInstructionType
  | deathMatch ps anamorphId => Protocol.line deathMatchInstructionType
      (deathMatchData ps (Integer.toString anamorphId))
  | finished ps => Protocol.line finishedInstructionType (playerListData ps)
  | serverStopped => serverStoppedInstruction

/-- The ids of the players are UUIDs. -/
def HasUuids : ServerMessage → Prop
  | id playerId => isUuid playerId
  | players ps => ∀ p ∈ ps, isUuid p.playerId
  | deathMatch ps _ => ∀ p ∈ ps, isUuid p.playerId
  | finished ps => ∀ p ∈ ps, isUuid p.playerId
  | _ => True

instance : ∀ m : ServerMessage, Decidable m.HasUuids
  | id playerId => inferInstanceAs (Decidable (isUuid playerId))
  | players ps | deathMatch ps _ | finished ps =>
    inferInstanceAs (Decidable (∀ p ∈ ps, isUuid p.playerId))
  | roomName _ | start | notReady | alreadyStarted | unknownId | serverStopped =>
    inferInstanceAs (Decidable True)

/-- Is it the refusal `GAME-STARTED`? -/
def isRefusal : ServerMessage → Bool
  | alreadyStarted => true
  | unknownId => true
  | _ => false

theorem parseInstructionType_line (m : ServerMessage) :
    parseInstructionType m.line = .ok m.type := by
  cases m with
  | id | roomName | players | deathMatch | finished =>
    exact Protocol.parseInstructionType_line (by decide) (by decide) _
  | start | notReady | alreadyStarted | unknownId | serverStopped =>
    exact parseInstructionType_bare (by decide)

theorem line_not_terminator {m : ServerMessage} (hm : m.HasUuids) :
    ∀ c ∈ m.line, isTerminator c = false := by
  cases m with
  | id playerId =>
    exact Protocol.line_not_terminator (by decide) (plain_of_isUuid hm).not_terminator
  | roomName name =>
    exact Protocol.line_not_terminator (by decide) (plain_encode name).not_terminator
  | players ps | finished ps =>
    exact Protocol.line_not_terminator (by decide)
      (playerListData_not_terminator fun p hp => plain_of_isUuid (hm p hp))
  | deathMatch ps anamorphId =>
    exact Protocol.line_not_terminator (by decide) (deathMatchData_not_terminator
      (fun p hp => plain_of_isUuid (hm p hp)) (plain_integer anamorphId))
  | start | notReady | serverStopped | alreadyStarted | unknownId =>
    exact Plain.not_terminator (by decide)

/-- A message that is no refusal is its line, and the end of the line. -/
theorem text_eq {m : ServerMessage} (hr : m.isRefusal = false) : m.text = m.line ++ ['\n'] := by
  cases m with
  | id | roomName => exact withData_eq_line _ _
  | players ps =>
    exact (buildPlayerListInstruction_eq _ ps).trans (withData_eq_line _ _)
  | deathMatch ps anamorphId =>
    exact (buildDeathMatchInstruction_eq ps _).trans (withData_eq_line _ _)
  | finished ps =>
    exact (buildPlayerListInstruction_eq _ ps).trans (withData_eq_line _ _)
  | start | notReady | serverStopped => rfl
  | alreadyStarted | unknownId => exact absurd hr (by decide)

/-- A message that is no refusal ends the line the reader is in. -/
theorem feed_text_from {m : ServerMessage} (hm : m.HasUuids) (hr : m.isRefusal = false)
    {r : LineReader} (hskip : r.skipLF = false) :
    r.feed m.text = (LineReader.start, [r.line ++ m.line]) := by
  rw [text_eq hr]
  exact LineReader.feed_lineEnd (line_not_terminator hm) hskip

/-- A message that is no refusal is read as one line. -/
theorem feed_text {m : ServerMessage} (hm : m.HasUuids) (hr : m.isRefusal = false) :
    LineReader.start.feed m.text = (LineReader.start, [m.line]) := feed_text_from hm hr rfl

/-- A refusal completes no line. -/
theorem feed_refusal {m : ServerMessage} (hr : m.isRefusal) :
    (LineReader.start.feed m.text).2 = [] := by
  cases m with
  | alreadyStarted | unknownId => decide
  | _ => exact absurd hr (by simp [isRefusal])

end ServerMessage

/-! ## The stream -/

/-- The lines the client has read when the messages have been written. -/
def linesRead (ms : List ServerMessage) : List Text :=
  (LineReader.start.feed (ms.flatMap ServerMessage.text)).2

/-- As soon as each message has been written, the client has read one line for
    each message, of its type. -/
def Framed (ms : List ServerMessage) : Prop :=
  ∀ k ≤ ms.length, (linesRead (ms.take k)).map parseInstructionType =
    (ms.take k).map fun m => .ok m.type

/-- Without refusal, the reader is at the start of a line after each message. -/
theorem feed_messages {ms : List ServerMessage} (hm : ∀ m ∈ ms, m.HasUuids)
    (hr : ∀ m ∈ ms, m.isRefusal = false) :
    (LineReader.start.feed (ms.flatMap ServerMessage.text)).1 = LineReader.start ∧
      (linesRead ms).map parseInstructionType = ms.map fun m => .ok m.type := by
  induction ms with
  | nil => exact ⟨rfl, rfl⟩
  | cons m ms ih =>
    obtain ⟨hfeed, hlines⟩ := ih (fun m' h => hm m' (List.mem_cons_of_mem _ h))
      (fun m' h => hr m' (List.mem_cons_of_mem _ h))
    have hl := ServerMessage.feed_text (hm m (by simp)) (hr m (by simp))
    rw [linesRead] at hlines ⊢
    rw [List.flatMap_cons, LineReader.feed_append, hl]
    exact ⟨hfeed, by simp [m.parseInstructionType_line, hlines]⟩

/-- Every message is read as one line of its type, as soon as it has been
    written, exactly if none is a refusal. -/
theorem framed_iff {ms : List ServerMessage} (hm : ∀ m ∈ ms, m.HasUuids) :
    Framed ms ↔ ∀ m ∈ ms, m.isRefusal = false := by
  constructor
  · intro h
    by_contra hex
    obtain ⟨m, hfind⟩ : ∃ m, ms.find? ServerMessage.isRefusal = some m := by
      rw [← Option.isSome_iff_exists, List.find?_isSome]
      simpa using hex
    -- The first refusal completes no line.
    obtain ⟨hmr, pre, post, rfl, hpre⟩ := List.find?_eq_some_iff_append.1 hfind
    replace hpre : ∀ m' ∈ pre, m'.isRefusal = false := by simpa using hpre
    have hk := h (pre.length + 1) (by simp)
    have htake : (pre ++ m :: post).take (pre.length + 1) = pre ++ [m] := by
      simp [List.take_append]
    obtain ⟨hstart, hlines⟩ :=
      feed_messages (fun m' h' => hm m' (List.mem_append_left _ h')) hpre
    rw [linesRead] at hlines
    rw [htake, linesRead, List.flatMap_append, LineReader.feed_append, hstart,
      List.flatMap_singleton, ServerMessage.feed_refusal hmr, List.append_nil, hlines] at hk
    exact absurd (congrArg List.length hk) (by simp)
  · intro hr k _
    exact (feed_messages (fun m h => hm m (List.mem_of_mem_take h))
      (fun m h => hr m (List.mem_of_mem_take h))).2

theorem sample_framed :
    Framed [.id samplePlayer.playerId, .roomName "a room".toList, .players [samplePlayer], .start,
      .finished [samplePlayer]] :=
  (framed_iff (by decide)).2 (by decide)

/-- After a refusal, the list of players is not read as a message of its own. -/
theorem refusal_not_framed : ¬ Framed [.alreadyStarted, .players [samplePlayer]] := by
  intro h
  exact absurd (h 1 (by decide)) (by decide)

end Gaze
