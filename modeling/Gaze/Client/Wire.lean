import Gaze.Client

/-!
# The commands on the wire

The commands of a client follow each other on the stream, and the server reads them
line by line, with the parser that matches the type of each line.

* `decode_line`: a command is decoded from its line.
* `decode_stream`: so is any sequence of commands from its stream, whatever the names
  of the players and of the rooms.
-/

namespace Gaze

open Java Protocol

/-- What a line tells the server. -/
inductive Decoded
  | connect (playerName : Text)
  | reconnect (playerId : Text)
  | ready (playerId : Text)
  | found (difficulty : Difficulty)
  | start
  | roomName (roomName : Text)
  | quit
  deriving DecidableEq

/-- A line is decoded with the parser that matches its type. -/
def decode (l : Text) : Except Throwable (Option Decoded) := do
  let type ← parseInstructionType l
  let data := parseInstructionData l
  if type = connectMessageType then
    let playerName ← parseConnectInstructionData data
    return some (.connect playerName)
  else if type = reconnectMessageType then
    return some (.reconnect (parsePlayerIdInstruction data))
  else if type = readyMessageType then
    return some (.ready data)
  else if type = anamorphosisFoundMessageType then
    let difficulty ← parseAnamorphosisFoundMessage data
    return some (.found difficulty)
  else if type = startMessageType then
    return some .start
  else if type = roomNameMessageType then
    let roomName ← parseRoomNameInstruction data
    return some (.roomName roomName)
  else if type = quitMessageType then
    return some .quit
  else
    return none

namespace Command

/-- What the command tells: of an anamorphosis, its difficulty. -/
def decoded : Command → Decoded
  | connect playerName => .connect playerName
  | reconnect playerId => .reconnect (format playerId)
  | ready playerId => .ready (format playerId)
  | found anamorphosis => .found anamorphosis.difficulty
  | start => .start
  | roomName name => .roomName name
  | quit => .quit

/-- The id of the client is `null`, or what it has read after `ID`. -/
def HasReadId (playerId : Option Text) : Prop :=
  ∀ id ∈ playerId, ∃ l, (∀ c ∈ l, isTerminator c = false) ∧ id = parseInstructionData l

/-- The command is one of a client: it reconnects with a UUID, and is ready with the id
    it has read, if it has read one. -/
def IsOfClient : Command → Prop
  | reconnect playerId => ∃ id, playerId = some id ∧ isUuid id
  | ready playerId => HasReadId playerId
  | _ => True

variable {c : Command}

theorem IsOfClient.hasLineId (hc : c.IsOfClient) : c.HasLineId := by
  cases c with
  | reconnect id =>
    obtain ⟨id, rfl, hid⟩ := hc
    exact HasPlainId.hasLineId (c := .reconnect (some id)) (plain_of_isUuid hid)
  | ready id =>
    cases id with
    | none => exact HasPlainId.hasLineId (c := .ready none) (by decide : Plain "null".toList)
    | some id =>
      obtain ⟨l, hl, rfl⟩ := hc _ rfl
      intro d hd
      obtain ⟨hspace, hmem⟩ := mem_parseInstructionData hd
      exact ⟨hspace, hl d hmem⟩
  | _ => trivial

/-- The data of a command are read back. -/
theorem parseInstructionData_id {type : Text} (htype : Plain type) (hne : type ≠ [])
    {id : Option Text} (hid : ∀ d ∈ format id, d ≠ ' ' ∧ isTerminator d = false) :
    parseInstructionData (Protocol.line type (format id)) = format id :=
  parseInstructionData_line htype hne fun hmem => (hid ' ' hmem).1 rfl

/-- A name is decoded from what encodes it. -/
theorem urlDecode_encode (name : Text) : urlDecode (URLEncoder.encode name) = .ok name := by
  rw [urlDecode, URLDecoder.decode_encode]

/-- A command is decoded from its line. -/
theorem decode_line (hc : c.HasLineId) : decode c.line = .ok (some c.decoded) := by
  rw [decode, parseInstructionType_line]
  cases c with
  | connect name =>
    rw [parseInstructionData_connect]
    simp only [parseConnectInstructionData, urlDecode_encode]
    rfl
  | reconnect id =>
    rw [line, parseInstructionData_id (by decide) (by decide) hc]
    rfl
  | ready id =>
    rw [line, parseInstructionData_id (by decide) (by decide) hc]
    rfl
  | found a =>
    simp only [parseAnamorphosisFoundMessage_found]
    rfl
  | roomName name =>
    rw [parseInstructionData_roomName]
    simp only [parseRoomNameInstruction, urlDecode_encode]
    rfl
  | start | quit => rfl

/-- The commands are read as one line each. -/
theorem lines_stream {cs : List Command} (hcs : ∀ c ∈ cs, c.HasLineId) :
    lines (cs.flatMap text) = cs.map line := by
  have hfeed : LineReader.start.feed (cs.flatMap text) = (LineReader.start, cs.map line) := by
    induction cs with
    | nil => rfl
    | cons c cs ih =>
      rw [List.flatMap_cons, LineReader.feed_append, feed_text (hcs c (by simp)),
        ih fun d hd => hcs d (List.mem_cons_of_mem _ hd)]
      rfl
  rw [LineReader.lines_eq_feed, hfeed]
  exact List.append_nil _

/-- Any sequence of commands is decoded from the stream of their texts. -/
theorem decode_stream {cs : List Command} (hcs : ∀ c ∈ cs, c.IsOfClient) :
    (lines (cs.flatMap text)).map decode = cs.map fun c => .ok (some c.decoded) := by
  rw [lines_stream fun c hc => (hcs c hc).hasLineId, List.map_map]
  exact List.map_congr_left fun c hc => decode_line (hcs c hc).hasLineId

/-- Names full of separators are no obstacle. -/
theorem decode_sampleStream :
    (lines ([connect [], .ready none, .roomName "QUIT\n: %25".toList, .found ⟨7, .hard, []⟩,
      .start, .quit].flatMap text)).map decode =
      [.ok (some (.connect [])), .ok (some (.ready "null".toList)),
        .ok (some (.roomName "QUIT\n: %25".toList)), .ok (some (.found .hard)), .ok (some .start),
        .ok (some .quit)] :=
  @decode_stream [connect [], .ready none, .roomName "QUIT\n: %25".toList,
    .found ⟨7, .hard, []⟩, .start, .quit] (by simp [IsOfClient, HasReadId])

end Command

end Gaze
