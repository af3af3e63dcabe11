import Gaze.Java.Prog
import Gaze.Java.Reader
import Gaze.Java.Url
import Gaze.Model

/-!
# The protocol

The texts the server and its clients exchange: an instruction is its type, a
space, its data, and an end of line. The data of a list of players are separated
by `:`, and the fields of a player by `,`; names are percent-encoded.

The parsers index the parts a split gives, and decode and read numbers, all of
which may throw.
-/

namespace Gaze

open Java

namespace Protocol

def instructionSeparator : Text := " ".toList
def dataSeparator : Text := ":".toList
def instructionEnd : Text := "\n".toList

/-! ### The server's instructions, sent to clients -/

def playersInstructionType : Text := "PLAYERS".toList
def playerIdInstructionType : Text := "ID".toList
def startInstructionType : Text := "START".toList
def finishedInstructionType : Text := "FINISHED".toList
def notReadyInstructionType : Text := "NOTREADY".toList
def alreadyStartedInstructionType : Text := "GAME-STARTED".toList
def deathMatchInstructionType : Text := "DEATHMATCH".toList
def serverStoppedInstruction : Text := "SERVER-STOPPED".toList
def roomNameInstructionType : Text := "ROOM-NAME".toList

/-! ### The client's messages, sent to the server -/

def startMessageType : Text := "START".toList
def quitMessageType : Text := "QUIT".toList
def connectMessageType : Text := "CONNECT".toList
def disconnectMessageType : Text := "DISCONNECT".toList
def readyMessageType : Text := "READY".toList
def roomNameMessageType : Text := "ROOM-NAME".toList
def anamorphosisFoundMessageType : Text := "ANAM-FOUND".toList
def reconnectMessageType : Text := "RECONNECT".toList

/-! ### Parsing instructions -/

/-- The element of an array; out of its bounds, an exception. -/
def index {α : Type} (parts : List α) (i : ℕ) : Except Throwable α :=
  match parts[i]? with
  | some part => .ok part
  | none => .error .arrayIndexOutOfBounds

/-- `URLDecoder.decode`. -/
def urlDecode (s : Text) : Except Throwable Text :=
  match URLDecoder.decode s with
  | some t => .ok t
  | none => .error .illegalArgument

/-- `Integer.parseInt`. -/
def parseInt (s : Text) : Except Throwable Int32 :=
  match Integer.parseInt s 10 with
  | some n => .ok n
  | none => .error .numberFormat

/-- `Protocol.parseInstructionType`. -/
def parseInstructionType (instruction : Text) : Except Throwable Text :=
  index (split ' ' instruction) 0

/-- `Protocol.parseInstructionData`. -/
def parseInstructionData (instruction : Text) : Text :=
  let parts := split ' ' instruction
  if parts.length > 1 then parts.getD 1 [] else []

/-- The data of an instruction have no space. -/
theorem mem_parseInstructionData {l : Text} {c : Char} (h : c ∈ parseInstructionData l) :
    c ≠ ' ' ∧ c ∈ l := by
  simp only [parseInstructionData] at h
  split_ifs at h with hlen
  · have hpart : (split ' ' l).getD 1 [] ∈ split ' ' l := by
      rw [List.getD_eq_getElem?_getD, List.getElem?_eq_getElem hlen]
      exact List.getElem_mem hlen
    obtain ⟨hspace, hsub⟩ := mem_split hpart
    exact ⟨fun hc => hspace (hc ▸ h), hsub h⟩
  · exact absurd h List.not_mem_nil

/-! ### Lists of players -/

/-- The fields of a player. -/
def playerInfos (player : Player) : Text :=
  player.playerId ++ ",".toList ++ URLEncoder.encode player.name ++ ",".toList ++
    Integer.toString player.score ++ ",".toList ++ Boolean.toString player.ready ++ ",".toList ++
    Integer.toString player.nbFoundAnamorphosis

/-- `Protocol.buildPlayerListInstruction`. -/
def buildPlayerListInstruction (instructionType : Text) (players : List Player) : Text :=
  let str := players.foldl (fun str player =>
    (if str.length > 0 then str ++ dataSeparator else str) ++ playerInfos player) []
  instructionType ++ instructionSeparator ++ str ++ instructionEnd

/-- `Protocol.buildPlayersInstruction`. -/
def buildPlayersInstruction (players : List Player) : Text :=
  buildPlayerListInstruction playersInstructionType players

/-- `Protocol.buildFinishedInstruction`. -/
def buildFinishedInstruction (players : List Player) : Text :=
  buildPlayerListInstruction finishedInstructionType players

/-- The player of the fields between two separators. -/
def parsePlayer (playerInfos : Text) : Except Throwable Player := do
  let infos := split ',' playerInfos
  let name ← urlDecode (← index infos 1)
  let score ← parseInt (← index infos 2)
  let ready := Boolean.parseBoolean (← index infos 3)
  let playerId ← index infos 0
  let nbFoundAnamorphosis ← parseInt (← index infos 4)
  return ⟨name, score, ready, playerId, nbFoundAnamorphosis⟩

/-- `Protocol.parsePlayerListData`. -/
def parsePlayerListData (playerListData : Text) : Except Throwable (List Player) :=
  (split ':' playerListData).mapM parsePlayer

/-! ### The other instructions -/

/-- An instruction without data. -/
def bare (type : Text) : Text := type ++ instructionEnd

/-- An instruction with data. -/
def withData (type data : Text) : Text := type ++ instructionSeparator ++ data ++ instructionEnd

/-- `Protocol.buildConnectInstruction`. -/
def buildConnectInstruction (playerName : Text) : Text :=
  withData connectMessageType (URLEncoder.encode playerName)

/-- `Protocol.parseConnectInstructionData`. -/
def parseConnectInstructionData (data : Text) : Except Throwable Text := urlDecode data

/-- `Protocol.buildDisconnectInstruction`: the name is not encoded. -/
def buildDisconnectInstruction (playerName : Text) : Text :=
  withData disconnectMessageType playerName

/-- `Protocol.buildQuitInstruction`. -/
def buildQuitInstruction : Text := bare quitMessageType

/-- `Protocol.buildAlreadyStartedInstruction`: it has no end. -/
def buildAlreadyStartedInstruction : Text := alreadyStartedInstructionType

/-- `Protocol.buildStartInstruction`. -/
def buildStartInstruction : Text := bare startInstructionType

/-- `Protocol.buildReadyInstruction`. -/
def buildReadyInstruction (playerId : Text) : Text := withData readyMessageType playerId

/-- `Protocol.buildNotReadyInstruction`. -/
def buildNotReadyInstruction : Text := bare notReadyInstructionType

/-- `Protocol.buildPlayerIDInstruction`. -/
def buildPlayerIDInstruction (playerId : Text) : Text := withData playerIdInstructionType playerId

/-- `Protocol.buildDeathMatchInstruction`. -/
def buildDeathMatchInstruction (equalsPlayers : List Player) (anamorphId : Text) : Text :=
  let str := deathMatchInstructionType ++ instructionSeparator ++ anamorphId
  let str := equalsPlayers.foldl (fun str p => str ++ dataSeparator ++ p.playerId) str
  str ++ instructionEnd

/-- The `equals` of an array, with a string: it never is. -/
def arrayEquals (_parts : List Text) (_s : Option Text) : Bool := false

/-- `Protocol.parseDeathMatchInstruction`; `none` stands for `null`. -/
def parseDeathMatchInstruction (instructionData : Text) (playerId : Option Text) : Option Text :=
  let parts := split ':' instructionData
  (parts.drop 1).findSome? fun _ => if arrayEquals parts playerId then parts[1]? else none

/-- `Protocol.buildServerStoppedInstruction`. -/
def buildServerStoppedInstruction : Text := bare serverStoppedInstruction

/-- `Protocol.buildRoomNameInstruction`. -/
def buildRoomNameInstruction (roomName : Text) : Text :=
  withData roomNameInstructionType (URLEncoder.encode roomName)

/-- `Protocol.parseRoomNameInstruction`. -/
def parseRoomNameInstruction (instructionData : Text) : Except Throwable Text :=
  urlDecode instructionData

/-- `Protocol.buildAnamorphosisFoundMessage`. -/
def buildAnamorphosisFoundMessage (anam : Anamorphosis) : Text :=
  withData anamorphosisFoundMessageType (Integer.toString anam.difficulty.ordinal)

/-- `Protocol.parseAnamorphosisFoundMessage`. -/
def parseAnamorphosisFoundMessage (instructionData : Text) : Except Throwable Difficulty := do
  let i ← parseInt instructionData
  if i < 0 then .error .arrayIndexOutOfBounds else index Difficulty.values i.toInt.toNat

/-- `Protocol.buildReconnectMessageType`. -/
def buildReconnectMessageType (playerId : Text) : Text := withData reconnectMessageType playerId

/-- `Protocol.parsePlayerIdInstruction`. -/
def parsePlayerIdInstruction (instructionData : Text) : Text := instructionData

/-! ### Plain texts -/

/-- The characters the protocol separates and ends texts with. -/
def separators : List Char := [' ', ':', ',', '\n', '\r']

/-- A text without separators. -/
def Plain (s : Text) : Prop := ∀ c ∈ s, c ∉ separators

instance (s : Text) : Decidable (Plain s) := List.decidableBAll (fun c => c ∉ separators) s

theorem Plain.not_mem {s : Text} (hs : Plain s) {c : Char} (hc : c ∈ separators) : c ∉ s :=
  fun h => hs c h hc

theorem not_terminator_of_not_mem {c : Char} (hc : c ∉ separators) : isTerminator c = false := by
  simp only [separators, List.mem_cons, List.not_mem_nil, or_false, not_or] at hc
  simp [isTerminator, hc]

theorem Plain.not_terminator {s : Text} (hs : Plain s) : ∀ c ∈ s, isTerminator c = false :=
  fun c hc => not_terminator_of_not_mem (hs c hc)

/-- A text over an alphabet without separators is plain. -/
theorem plain_of_forall {s : Text} (p : Char → Bool) (hp : separators.any p = false)
    (hs : ∀ c ∈ s, p c) : Plain s := fun c hc hsep =>
  absurd (hs c hc) (List.any_eq_false.1 hp c hsep)

theorem plain_encode (s : Text) : Plain (URLEncoder.encode s) :=
  plain_of_forall isUrlChar (by decide) fun _ => isUrlChar_of_mem_encode

theorem plain_of_isUuid {s : Text} (hs : isUuid s) : Plain s :=
  plain_of_forall isUuidChar (by decide) fun _ => isUuidChar_of_mem hs

theorem plain_integer (n : Int32) : Plain (Integer.toString n) :=
  plain_of_forall (fun c => c.isDigit || c == '-') (by decide) fun _ hc => by
    simpa using Integer.mem_toString hc

theorem plain_boolean (b : Bool) : Plain (Boolean.toString b) := by
  cases b <;> decide

/-! ### The line of an instruction -/

/-- The line of an instruction with data. -/
def line (type data : Text) : Text := type ++ ' ' :: data

theorem withData_eq_line (type data : Text) : withData type data = line type data ++ ['\n'] := by
  simp [withData, line, instructionSeparator, instructionEnd]

section Parse

variable {type data : Text} (htype : Plain type) (hne : type ≠ [])
include htype

theorem parseInstructionType_bare : parseInstructionType type = .ok type := by
  rw [parseInstructionType, split_of_not_mem (htype.not_mem (by decide))]
  rfl

include hne

theorem parseInstructionType_line (data : Text) :
    parseInstructionType (line type data) = .ok type := by
  have hhead := head?_split_append (htype.not_mem (c := ' ') (by decide)) hne data
  rw [parseInstructionType, line, index, ← List.head?_eq_getElem?, hhead]

/-- The data are read back, if they have no space, even if there are none. -/
theorem parseInstructionData_line (hdata : ' ' ∉ data) :
    parseInstructionData (line type data) = data := by
  have hspace : ' ' ∉ type := htype.not_mem (by decide)
  by_cases hnil : data = []
  · rw [parseInstructionData, line, hnil, split_append_sep hspace hne]
    rfl
  · have hsplit : split ' ' (join ' ' [type, data]) = [type, data] :=
      split_join (by simp [hspace, hdata]) (List.cons_ne_nil _ _) hnil
    rw [join_cons_cons, join_singleton] at hsplit
    rw [parseInstructionData, line, hsplit]
    rfl

end Parse

/-- An instruction without data is read as one line: its type. -/
theorem feed_bare {type : Text} (htype : Plain type) :
    LineReader.start.feed (bare type) = (LineReader.start, [type]) :=
  LineReader.feed_line htype.not_terminator

theorem line_not_terminator {type data : Text} (htype : Plain type)
    (hdata : ∀ c ∈ data, isTerminator c = false) :
    ∀ c ∈ line type data, isTerminator c = false := by
  intro c hc
  rcases List.mem_append.1 hc with hc | hc
  · exact htype.not_terminator c hc
  · rcases List.mem_cons.1 hc with rfl | hc
    · decide
    · exact hdata c hc

/-- An instruction with data is read as one line. -/
theorem feed_withData {type data : Text} (htype : Plain type)
    (hdata : ∀ c ∈ data, isTerminator c = false) :
    LineReader.start.feed (withData type data) = (LineReader.start, [line type data]) := by
  rw [withData_eq_line]
  exact LineReader.feed_line (line_not_terminator htype hdata)

/-! ### The fields of a player -/

theorem playerInfos_eq_join (p : Player) : playerInfos p = join ','
    [p.playerId, URLEncoder.encode p.name, Integer.toString p.score, Boolean.toString p.ready,
      Integer.toString p.nbFoundAnamorphosis] := by
  simp [playerInfos]

theorem playerInfos_ne_nil (p : Player) : playerInfos p ≠ [] := by
  simp [playerInfos_eq_join]

/-- The fields of a player contain no separator but `,`. -/
theorem mem_playerInfos {p : Player} (hid : Plain p.playerId) {c : Char}
    (hc : c ∈ playerInfos p) : c ∉ separators ∨ c = ',' := by
  rw [playerInfos_eq_join] at hc
  rcases mem_join hc with hc | ⟨s, hs, hc⟩
  · exact .inr hc
  · refine .inl ?_
    simp only [List.mem_cons, List.not_mem_nil, or_false] at hs
    rcases hs with rfl | rfl | rfl | rfl | rfl
    · exact hid c hc
    · exact plain_encode _ c hc
    · exact plain_integer _ c hc
    · exact plain_boolean _ c hc
    · exact plain_integer _ c hc

/-- The fields of a player are read back. -/
theorem parsePlayer_playerInfos {p : Player} (hid : Plain p.playerId) :
    parsePlayer (playerInfos p) = .ok p := by
  have hcomma : ',' ∈ separators := by decide
  have hsplit : split ',' (playerInfos p) =
      [p.playerId, URLEncoder.encode p.name, Integer.toString p.score, Boolean.toString p.ready,
        Integer.toString p.nbFoundAnamorphosis] := by
    rw [playerInfos_eq_join]
    refine split_join ?_ (List.cons_ne_nil _ _) (Integer.toString_ne_nil _)
    simp only [List.forall_mem_cons]
    exact ⟨hid.not_mem hcomma, (plain_encode _).not_mem hcomma, (plain_integer _).not_mem hcomma,
      (plain_boolean _).not_mem hcomma, (plain_integer _).not_mem hcomma, by simp⟩
  rw [parsePlayer, hsplit]
  simp [index, urlDecode, parseInt, URLDecoder.decode_encode, Integer.parseInt_toString, bind,
    Except.bind, pure, Except.pure]

/-- The data of a list of players. -/
def playerListData (players : List Player) : Text := join ':' (players.map playerInfos)

theorem foldl_playerInfos {str : Text} (hstr : str ≠ []) (players : List Player) :
    players.foldl (fun str player =>
      (if str.length > 0 then str ++ dataSeparator else str) ++ playerInfos player) str =
      join ':' (str :: players.map playerInfos) := by
  induction players generalizing str with
  | nil => simp
  | cons p players ih =>
    rw [List.foldl_cons, if_pos (List.length_pos_of_ne_nil hstr), ih (by simp [playerInfos_ne_nil])]
    cases players <;> simp [dataSeparator]

theorem buildPlayerListInstruction_eq (type : Text) (players : List Player) :
    buildPlayerListInstruction type players = withData type (playerListData players) := by
  cases players with
  | nil => rfl
  | cons p players =>
    have hfold := foldl_playerInfos (playerInfos_ne_nil p) players
    simp only [buildPlayerListInstruction, List.foldl_cons, withData, playerListData, List.map_cons]
    rw [if_neg (by simp), List.nil_append, hfold]

/-- The data of a list of players contain neither spaces nor line terminators. -/
theorem mem_playerListData {players : List Player} (hid : ∀ p ∈ players, Plain p.playerId)
    {c : Char} (hc : c ∈ playerListData players) : c ∉ separators ∨ c = ',' ∨ c = ':' := by
  rcases mem_join hc with hc | ⟨s, hs, hc⟩
  · exact .inr (.inr hc)
  · obtain ⟨p, hp, rfl⟩ := List.mem_map.1 hs
    rcases mem_playerInfos (hid p hp) hc with hc | hc
    · exact .inl hc
    · exact .inr (.inl hc)

theorem playerListData_not_terminator {players : List Player}
    (hid : ∀ p ∈ players, Plain p.playerId) :
    ∀ c ∈ playerListData players, isTerminator c = false := by
  intro c hc
  rcases mem_playerListData hid hc with hc | rfl | rfl
  · exact not_terminator_of_not_mem hc
  · decide
  · decide

theorem space_not_mem_playerListData {players : List Player}
    (hid : ∀ p ∈ players, Plain p.playerId) : ' ' ∉ playerListData players := by
  intro hc
  rcases mem_playerListData hid hc with hc | hc | hc
  · exact hc (by decide)
  · exact absurd hc (by decide)
  · exact absurd hc (by decide)

/-- A nonempty list of players is read back. -/
theorem parsePlayerListData_playerListData {players : List Player}
    (hid : ∀ p ∈ players, Plain p.playerId) (hne : players ≠ []) :
    parsePlayerListData (playerListData players) = .ok players := by
  have hsplit : split ':' (playerListData players) = players.map playerInfos := by
    refine split_join ?_ (by simpa using hne) ?_
    · intro s hs
      obtain ⟨p, hp, rfl⟩ := List.mem_map.1 hs
      intro hc
      rcases mem_playerInfos (hid p hp) hc with hc | hc
      · exact hc (by decide)
      · exact absurd hc (by decide)
    · rw [List.getLast_map]
      exact playerInfos_ne_nil _
  rw [parsePlayerListData, hsplit]
  clear hsplit hne
  induction players with
  | nil => rfl
  | cons p players ih =>
    rw [List.map_cons, List.mapM_cons, parsePlayer_playerInfos (hid p (by simp)),
      ih fun q hq => hid q (List.mem_cons_of_mem _ hq)]
    rfl

/-- No player can be read from no data: `"".split(":")` has one part, which has
    one field. -/
theorem parsePlayerListData_nil : parsePlayerListData [] = .error .arrayIndexOutOfBounds := by
  decide

/-! ### The death match -/

/-- The data of a death match: the anamorphosis, and the ids of the players. -/
def deathMatchData (equalsPlayers : List Player) (anamorphId : Text) : Text :=
  join ':' (anamorphId :: equalsPlayers.map Player.playerId)

theorem foldl_playerId (str : Text) (players : List Player) :
    players.foldl (fun str p => str ++ dataSeparator ++ p.playerId) str =
      join ':' (str :: players.map Player.playerId) := by
  induction players generalizing str with
  | nil => simp
  | cons p players ih =>
    rw [List.foldl_cons, ih]
    cases players <;> simp [dataSeparator]

theorem buildDeathMatchInstruction_eq (players : List Player) (anamorphId : Text) :
    buildDeathMatchInstruction players anamorphId =
      withData deathMatchInstructionType (deathMatchData players anamorphId) := by
  rw [buildDeathMatchInstruction, foldl_playerId, deathMatchData, withData]
  cases players <;> simp

theorem mem_deathMatchData {players : List Player} {anamorphId : Text}
    (hid : ∀ p ∈ players, Plain p.playerId) (hanam : Plain anamorphId) {c : Char}
    (hc : c ∈ deathMatchData players anamorphId) : c ∉ separators ∨ c = ':' := by
  rcases mem_join hc with hc | ⟨s, hs, hc⟩
  · exact .inr hc
  · rcases List.mem_cons.1 hs with h | hs
    · exact .inl (hanam c (h ▸ hc))
    · obtain ⟨p, hp, rfl⟩ := List.mem_map.1 hs
      exact .inl (hid p hp c hc)

theorem deathMatchData_not_terminator {players : List Player} {anamorphId : Text}
    (hid : ∀ p ∈ players, Plain p.playerId) (hanam : Plain anamorphId) :
    ∀ c ∈ deathMatchData players anamorphId, isTerminator c = false := by
  intro c hc
  rcases mem_deathMatchData hid hanam hc with hc | rfl
  · exact not_terminator_of_not_mem hc
  · decide

theorem space_not_mem_deathMatchData {players : List Player} {anamorphId : Text}
    (hid : ∀ p ∈ players, Plain p.playerId) (hanam : Plain anamorphId) :
    ' ' ∉ deathMatchData players anamorphId := by
  intro hc
  rcases mem_deathMatchData hid hanam hc with hc | hc
  · exact absurd (by decide) hc
  · exact absurd hc (by decide)

/-- No player is concerned by a death match: its id is compared with all the parts, as an
    array. -/
theorem parseDeathMatchInstruction_eq_none (instructionData : Text) (playerId : Option Text) :
    parseDeathMatchInstruction instructionData playerId = none := by
  simp [parseDeathMatchInstruction, arrayEquals]

/-- From the line of a `DEATHMATCH`, its text without its end, the client should be given the
    anamorphosis if it is one of the players, and `null` otherwise: it is exactly if it is
    not one of them. -/
theorem parseDeathMatchInstruction_iff (equalsPlayers : List Player) (anamorphId : Int32)
    (playerId : Option Text) :
    parseDeathMatchInstruction (parseInstructionData
        (buildDeathMatchInstruction equalsPlayers (Integer.toString anamorphId)).dropLast)
        playerId =
      (if ∃ p ∈ equalsPlayers, some p.playerId = playerId then
        some (Integer.toString anamorphId) else none) ↔
      ¬∃ p ∈ equalsPlayers, some p.playerId = playerId := by
  rw [parseDeathMatchInstruction_eq_none]
  split_ifs with hconcerned <;> simp [hconcerned]

/-- The first of two players is given no anamorphosis. -/
theorem concerned_player_given_none : ¬∀ (equalsPlayers : List Player) (anamorphId : Int32)
    (playerId : Option Text), (∀ p ∈ equalsPlayers, isUuid p.playerId) →
      (equalsPlayers.map Player.playerId).Nodup →
      parseDeathMatchInstruction (parseInstructionData
          (buildDeathMatchInstruction equalsPlayers (Integer.toString anamorphId)).dropLast)
          playerId =
        if ∃ p ∈ equalsPlayers, some p.playerId = playerId then
          some (Integer.toString anamorphId) else none := by
  intro h
  have hplayer := h [.new "a".toList 6 true "01234567-89ab-cdef-0123-000000000000".toList,
    .new "b".toList 6 true "01234567-89ab-cdef-0123-000000000001".toList] 5
    (some "01234567-89ab-cdef-0123-000000000000".toList) (by decide) (by decide)
  rw [parseDeathMatchInstruction_eq_none] at hplayer
  exact absurd hplayer (by simp [Player.new])

end Protocol

end Gaze
