import Gaze.Client
import Gaze.Framing

/-!
# What the clients make of the messages

The texts the server writes to a client are cut into lines, and each line is
processed by `Client.onMessage`.

* `Client.onMessage_line`: each message does to the client what it is meant to do.
* `view`: the list of players a client holds once it has read some lines.
* `Stream.writes_start`: without refusal, the lines are those of the messages.
* `Stream.writes_refused`: a refusal swallows the message that follows it, and the
  client ignores their common line (`Client.onMessage_swallowed`).
-/

namespace Gaze

open Java Protocol

/-- The message can be read back: the ids are UUIDs, and the list of players is not
    empty. -/
def ServerMessage.IsReadable (m : ServerMessage) : Prop :=
  m.HasUuids ∧ m ≠ .players [] ∧ m ≠ .finished []

/-- The list of players a client holds after the message, if the message changes it. -/
def ServerMessage.list : ServerMessage → Option (List Player)
  | players ps | finished ps => some ps
  | serverStopped => some []
  | _ => none

/-- The list of players a client holds after some messages. -/
def shown (players : List Player) (ms : List ServerMessage) : List Player :=
  ms.foldl (fun players m => m.list.getD players) players

namespace Client

variable {c : Client}

/-- What a message does to a client, and the event the listener is notified of. -/
def received (c : Client) : ServerMessage → Client × Option GameEvent
  | .id playerId => ({ c with playerId := some playerId }, none)
  | .roomName roomName => (c, some (.roomNameChanged roomName))
  | .players players => ({ c with players := players }, some (.playerListChanged players))
  | .start => ({ c with lobby := false }, some .gameStarted)
  | .notReady | .alreadyStarted | .unknownId => (c, some .errorOccurred)
  | .deathMatch equalsPlayers anamorphId => (c, some (.deathMatch (parseDeathMatchInstruction
      (deathMatchData equalsPlayers (Integer.toString anamorphId)) c.playerId)))
  | .finished players => ({ c with players := players }, some (.gameEnded players))
  | .serverStopped => ({ c with running := false, players := [] }, some .serverStopped)

/-- A list of players is read back from its line, if it is not empty. -/
theorem parsePlayerListData_line {type : Text} (htype : Plain type) (hne : type ≠ [])
    {players : List Player} (hid : ∀ p ∈ players, isUuid p.playerId) (hplayers : players ≠ []) :
    parsePlayerListData (parseInstructionData (line type (playerListData players))) =
      .ok players := by
  have hplain : ∀ p ∈ players, Plain p.playerId := fun p hp => plain_of_isUuid (hid p hp)
  rw [parseInstructionData_line htype hne (space_not_mem_playerListData hplain),
    parsePlayerListData_playerListData hplain hplayers]

/-- The line of a message does what the message is meant to do. -/
theorem onMessage_line {m : ServerMessage} (hm : m.IsReadable) :
    c.onMessage m.line = .ok (c.received m) := by
  obtain ⟨huuids, hplayers, hfinished⟩ := hm
  rw [onMessage, m.parseInstructionType_line]
  cases m with
  -- Each message is built so that its data comes back from its line: no space, no end of line.
  | id playerId =>
    have hdata : parseInstructionData (ServerMessage.id playerId).line = playerId :=
      parseInstructionData_line (by decide) (by decide)
        ((plain_of_isUuid huuids).not_mem (by decide))
    simp +decide [ServerMessage.type, received, hdata, bind, Except.bind, pure, Except.pure]
  | roomName name =>
    have hdata : parseInstructionData (ServerMessage.roomName name).line = URLEncoder.encode name :=
      parseInstructionData_line (by decide) (by decide) ((plain_encode name).not_mem (by decide))
    have hname : parseRoomNameInstruction (URLEncoder.encode name) = .ok name := by
      rw [parseRoomNameInstruction, urlDecode, URLDecoder.decode_encode]
    simp +decide [ServerMessage.type, received, hdata, hname, bind, Except.bind, pure, Except.pure]
  | players ps =>
    have hdata : parsePlayerListData (parseInstructionData (ServerMessage.players ps).line) =
        .ok ps :=
      parsePlayerListData_line (by decide) (by decide) huuids fun h => hplayers (by rw [h])
    simp [ServerMessage.type, received, hdata, bind, Except.bind, pure, Except.pure]
  | finished ps =>
    have hdata : parsePlayerListData (parseInstructionData (ServerMessage.finished ps).line) =
        .ok ps :=
      parsePlayerListData_line (by decide) (by decide) huuids fun h => hfinished (by rw [h])
    simp +decide [ServerMessage.type, received, hdata, bind, Except.bind, pure, Except.pure]
  | deathMatch ps anamorphId =>
    have hdata : parseInstructionData (ServerMessage.deathMatch ps anamorphId).line =
        deathMatchData ps (Integer.toString anamorphId) :=
      parseInstructionData_line (by decide) (by decide) (space_not_mem_deathMatchData
        (fun p hp => plain_of_isUuid (huuids p hp)) (plain_integer _))
    simp +decide [ServerMessage.type, received, hdata, bind, Except.bind, pure, Except.pure]
  | start | notReady | alreadyStarted | unknownId | serverStopped =>
    simp +decide [received, bind, Except.bind, pure, Except.pure]

/-- A line that begins with a refusal is ignored: it is at most an error. -/
theorem onMessage_swallowed {l : Text} (hl : l.head? = some 'G') :
    ∃ event, c.onMessage l = .ok (c, event) ∧ event ≠ some .gameStarted := by
  obtain ⟨s, rfl⟩ := List.head?_eq_some_iff.1 hl
  obtain ⟨t, rest, hsplit⟩ := split_cons (by decide : 'G' ≠ ' ') s
  have htype : parseInstructionType ('G' :: s) = .ok ('G' :: t) := by
    rw [parseInstructionType, hsplit]
    rfl
  have hne : ∀ type : Text, type.head? ≠ some 'G' → 'G' :: t ≠ type := by
    rintro type htype rfl
    exact htype rfl
  rw [onMessage, htype]
  simp only [bind, Except.bind, hne playersInstructionType (by decide),
    hne playerIdInstructionType (by decide),
    hne startInstructionType (by decide),
    hne notReadyInstructionType (by decide),
    hne deathMatchInstructionType (by decide),
    hne finishedInstructionType (by decide),
    hne serverStoppedInstruction (by decide),
    hne roomNameInstructionType (by decide), if_false]
  split_ifs <;> exact ⟨_, rfl, by simp⟩

/-- The list of players a client holds after a line. -/
def listAfter (players : List Player) (l : Text) : List Player :=
  match ({ new with players := players }).onMessage l with
  | .ok (c, _) => c.players
  | .error _ => players

/-- The list of players a client holds after some lines. -/
def view (players : List Player) (lines : List Text) : List Player := lines.foldl listAfter players

theorem received_players (m : ServerMessage) :
    (c.received m).1.players = m.list.getD c.players := by
  cases m <;> rfl

theorem listAfter_line {m : ServerMessage} (hm : m.IsReadable) (players : List Player) :
    listAfter players m.line = m.list.getD players := by
  rw [listAfter, onMessage_line hm]
  exact received_players m

theorem listAfter_swallowed {l : Text} (hl : l.head? = some 'G') (players : List Player) :
    listAfter players l = players := by
  obtain ⟨event, h, -⟩ := onMessage_swallowed hl (c := { new with players := players })
  rw [listAfter, h]

theorem view_append (players : List Player) (lines lines' : List Text) :
    view players (lines ++ lines') = view (view players lines) lines' := List.foldl_append

/-- The lines of messages change the list of players as the messages. -/
theorem view_lines {ms : List ServerMessage} (hm : ∀ m ∈ ms, m.IsReadable)
    (players : List Player) : view players (ms.map ServerMessage.line) = shown players ms := by
  induction ms generalizing players with
  | nil => rfl
  | cons m ms ih =>
    rw [List.map_cons, view, List.foldl_cons, listAfter_line (hm m (by simp)), ← view,
      ih fun m' h => hm m' (List.mem_cons_of_mem _ h)]
    rfl

end Client

/-- What has been written to a client, and not been read yet: the lines, and the
    reader that has the rest. How the network cuts the text does not matter
    (`LineReader.feed_append`). -/
structure Stream where
  lines : List Text
  reader : LineReader

namespace Stream

/-- Nothing has been written. -/
def start : Stream := ⟨[], LineReader.start⟩

/-- Some text is written. -/
def write (s : Stream) (text : Text) : Stream where
  lines := s.lines ++ (s.reader.feed text).2
  reader := (s.reader.feed text).1

/-- The reader after a refusal. -/
def refused : LineReader := ⟨alreadyStartedInstructionType, false⟩

variable {s : Stream}

theorem write_message {m : ServerMessage} (hm : m.HasUuids) (hr : m.isRefusal = false)
    (hskip : s.reader.skipLF = false) :
    s.write m.text = ⟨s.lines ++ [s.reader.line ++ m.line], LineReader.start⟩ := by
  rw [write, ServerMessage.feed_text_from hm hr hskip]

theorem write_refusal {m : ServerMessage} (hr : m.isRefusal = true)
    (hs : s.reader = LineReader.start) : s.write m.text = ⟨s.lines, refused⟩ := by
  have hfeed : LineReader.start.feed m.text = (refused, []) := by
    cases m with
    | alreadyStarted | unknownId => decide
    | _ => exact absurd hr (by simp [ServerMessage.isRefusal])
  rw [write, hs, hfeed, List.append_nil]

/-- Without refusal, the lines are those of the messages. -/
theorem writes_start {ms : List ServerMessage} (hm : ∀ m ∈ ms, m.HasUuids)
    (hr : ∀ m ∈ ms, m.isRefusal = false) (hs : s.reader = LineReader.start) :
    (ms.map ServerMessage.text).foldl write s =
      ⟨s.lines ++ ms.map ServerMessage.line, LineReader.start⟩ := by
  induction ms generalizing s with
  | nil => rw [← hs, List.map_nil, List.map_nil, List.append_nil, List.foldl_nil]
  | cons m ms ih =>
    have hwrite := write_message (hm m (by simp)) (hr m (by simp)) (s := s) (by rw [hs]; rfl)
    rw [List.map_cons, List.foldl_cons, hwrite,
      ih (fun m' h => hm m' (List.mem_cons_of_mem _ h))
        (fun m' h => hr m' (List.mem_cons_of_mem _ h)) rfl, hs]
    simp [LineReader.start]

/-- A refusal swallows the message that follows it. -/
theorem writes_refused {m : ServerMessage} {ms : List ServerMessage}
    (hm : ∀ m' ∈ m :: ms, m'.HasUuids) (hr : ∀ m' ∈ m :: ms, m'.isRefusal = false)
    (hs : s.reader = refused) :
    ((m :: ms).map ServerMessage.text).foldl write s =
      ⟨s.lines ++ (alreadyStartedInstructionType ++ m.line) :: ms.map ServerMessage.line,
        LineReader.start⟩ := by
  have hwrite := write_message (hm m (by simp)) (hr m (by simp)) (s := s) (by rw [hs]; rfl)
  rw [List.map_cons, List.foldl_cons, hwrite,
    writes_start (fun m' h => hm m' (List.mem_cons_of_mem _ h))
      (fun m' h => hr m' (List.mem_cons_of_mem _ h)) rfl, hs]
  simp [refused]

/-- Without refusal, the new lines are those of the messages, or begin with a refusal
    written before. -/
theorem mem_writes {ms : List ServerMessage} (hm : ∀ m ∈ ms, m.HasUuids)
    (hr : ∀ m ∈ ms, m.isRefusal = false)
    (hs : s.reader = LineReader.start ∨ s.reader = refused) {l : Text}
    (hl : l ∈ ((ms.map ServerMessage.text).foldl write s).lines) :
    l ∈ s.lines ∨ l.head? = some 'G' ∨ ∃ m ∈ ms, l = m.line := by
  rcases hs with hstart | hrefused
  · rw [writes_start hm hr hstart] at hl
    rcases List.mem_append.1 hl with hl | hl
    · exact .inl hl
    · obtain ⟨m, hmem, rfl⟩ := List.mem_map.1 hl
      exact .inr (.inr ⟨m, hmem, rfl⟩)
  · cases ms with
    | nil => exact .inl hl
    | cons m ms =>
      rw [writes_refused hm hr hrefused] at hl
      rcases List.mem_append.1 hl with hl | hl
      · exact .inl hl
      · rcases List.mem_cons.1 hl with rfl | hl
        · exact .inr (.inl rfl)
        · obtain ⟨m', hmem, rfl⟩ := List.mem_map.1 hl
          exact .inr (.inr ⟨m', List.mem_cons_of_mem _ hmem, rfl⟩)

end Stream

end Gaze
