import Gaze.Server.Answers
import Gaze.System

/-!
# The invariant of the system

Which client an id belongs to, and what is on its way in the connections.

* `System.Inv`: a player is only bound to connections of the client it belongs to;
  the clients only know, and only tell, their own ids; a connection is introduced
  once; the lines on their way to a client are those of messages, or begin with a
  refusal.
* `System.Inv.withConnection`, `System.Inv.serverDoes`, `System.Inv.withClient`: what the
  parts of an event keep.
-/

namespace Gaze

open Java Protocol

/-- The id a command tells. -/
def Command.playerId : Command → Option Text
  | reconnect playerId | ready playerId => playerId
  | _ => none

/-- A command that tells no id, or a UUID, is plain. -/
theorem Command.hasPlainId {c : Command} (h : ∀ id, c.playerId = some id → isUuid id) :
    c.HasPlainId := by
  have hformat : ∀ playerId : Option Text, (∀ id, playerId = some id → isUuid id) →
      Plain (format playerId) := by
    intro playerId h
    cases playerId with
    | none => exact (by decide : Plain "null".toList)
    | some id => exact plain_of_isUuid (h id rfl)
  cases c with
  | reconnect playerId | ready playerId => exact hformat playerId h
  | connect | found | start | roomName | quit => trivial

theorem ServerMessage.IsNews.isReadable {m : ServerMessage} (h : m.IsNews) : m.IsReadable := by
  refine ⟨h.hasUuids, ?_, ?_⟩
  · rintro rfl
    exact h.1 rfl
  · rintro rfl
    exact h.1 rfl

/-- The line is that of a message, whose id is known, or begins with a refusal. -/
def IsLine (known : Text → Prop) (l : Text) : Prop :=
  l.head? = some 'G' ∨ ∃ m : ServerMessage, m.IsReadable ∧ m.isRefusal = false ∧ l = m.line ∧
    ∀ id, m = .id id → known id

theorem IsLine.mono {known known' : Text → Prop} (h : ∀ id, known id → known' id) {l : Text}
    (hl : IsLine known l) : IsLine known' l := by
  rcases hl with hl | ⟨m, hread, hrefusal, rfl, hid⟩
  · exact .inl hl
  · exact .inr ⟨m, hread, hrefusal, rfl, fun id hm => h id (hid id hm)⟩

/-- A client processes the line without exception, stays where it is, and only learns an
    id that is known. -/
theorem IsLine.onMessage {known : Text → Prop} {l : Text} (hl : IsLine known l) (c : Client) :
    ∃ c' event, c.onMessage l = .ok (c', event) ∧ c'.stage = c.stage ∧
      ∀ id, c'.playerId = some id → c.playerId = some id ∨ known id := by
  rcases hl with hl | ⟨m, hread, -, rfl, hid⟩
  · obtain ⟨event, h, -⟩ := Client.onMessage_swallowed hl (c := c)
    exact ⟨c, event, h, rfl, fun _ h => .inl h⟩
  · refine ⟨_, _, Client.onMessage_line hread, ?_, ?_⟩
    · cases m <;> rfl
    · intro id h
      cases m with
      | id playerId => exact .inr (hid id (congrArg ServerMessage.id (Option.some.inj h)))
      | _ => exact .inl h

/-- The message can be written to the client that knows these ids. -/
def IsFit (known : Text → Prop) (m : ServerMessage) : Prop :=
  m.IsNews ∨ ∃ id, m = .id id ∧ isUuid id ∧ known id

theorem IsFit.hasUuids {known : Text → Prop} {m : ServerMessage} (h : IsFit known m) :
    m.HasUuids := by
  rcases h with h | ⟨id, rfl, hid, -⟩
  · exact h.hasUuids
  · exact hid

theorem IsFit.isRefusal {known : Text → Prop} {m : ServerMessage} (h : IsFit known m) :
    m.isRefusal = false := by
  rcases h with h | ⟨id, rfl, -, -⟩
  · exact h.isRefusal
  · rfl

theorem IsFit.isReadable {known : Text → Prop} {m : ServerMessage} (h : IsFit known m) :
    m.IsReadable := by
  rcases h with h | ⟨id, rfl, hid, -⟩
  · exact h.isReadable
  · exact ⟨hid, nofun, nofun⟩

theorem IsFit.isLine {known : Text → Prop} {m : ServerMessage} (h : IsFit known m) :
    IsLine known m.line := by
  refine .inr ⟨m, h.isReadable, h.isRefusal, rfl, ?_⟩
  rintro id rfl
  rcases h with h | ⟨_, heq, -, hknown⟩
  · exact h.elim
  · cases heq
    exact hknown

namespace Connection

variable {ι : Type} {c : Connection ι} {handler : ClientHandler} {stage : Stage}
  {known known' : Text → Prop}

/-- The introductions of a connection: the client is about to make it, it is on its
    way, it has been accepted, or it has just been refused. -/
def introductions (c : Connection ι) (stage : Stage) (handler : ClientHandler) : ℕ :=
  (if stage = .opened handler then 1 else 0) + c.toServer.countP Command.isIntroduction +
    (if c.admitted then 1 else 0) + (if c.toClient.reader = LineReader.start then 0 else 1)

/-- A connection is introduced once, and carries commands and lines with ids its client
    knows. -/
structure Sound (known : Text → Prop) (stage : Stage) (handler : ClientHandler)
    (c : Connection ι) : Prop where
  introductions : c.introductions stage handler ≤ 1
  reader : c.toClient.reader = LineReader.start ∨ c.toClient.reader = Stream.refused
  commands : ∀ command ∈ c.toServer, ∀ id, command.playerId = some id → known id
  lines : ∀ l ∈ c.toClient.lines, IsLine known l

theorem Sound.mono (hc : Sound known stage handler c) (h : ∀ id, known id → known' id) :
    Sound known' stage handler c where
  introductions := hc.introductions
  reader := hc.reader
  commands command hcommand id hid := h id (hc.commands command hcommand id hid)
  lines l hl := (hc.lines l hl).mono h

theorem sound_new (i : ι) (h : stage ≠ .opened handler) : Sound known stage handler (new i) where
  introductions := by simp [Connection.introductions, new, Stream.start, h]
  reader := .inl rfl
  commands := by simp [new]
  lines := by simp [new, Stream.start]

/-- The client writes a command; an introduction is its first one. -/
theorem Sound.say (hc : Sound known stage handler c) {command : Command}
    (hid : ∀ id, command.playerId = some id → known id)
    (hintro : command.isIntroduction = true → c.introductions stage handler = 0) :
    Sound known stage handler (c.say command) := by
  rw [Connection.say]
  split_ifs
  · refine ⟨?_, hc.reader, ?_, hc.lines⟩
    · have hone := hc.introductions
      simp only [Connection.introductions, List.countP_append, List.countP_singleton]
        at hone hintro ⊢
      by_cases hcommand : command.isIntroduction = true
      · have hzero := hintro hcommand
        rw [if_pos hcommand]
        omega
      · rw [if_neg hcommand]
        omega
    · intro command' hmem
      rcases List.mem_append.1 hmem with hmem | hmem
      · exact hc.commands command' hmem
      · rwa [List.mem_singleton.1 hmem]
  · exact hc

theorem Sound.lose (hc : Sound known stage handler c) : Sound known stage handler c.lose :=
  ⟨hc.introductions, hc.reader, hc.commands, hc.lines⟩

theorem Sound.read (hc : Sound known stage handler c) {l : Text} {lines : List Text}
    (hl : c.toClient.lines = l :: lines) : Sound known stage handler (c.read lines) :=
  ⟨hc.introductions, hc.reader, hc.commands,
    fun l' h => hc.lines l' (hl ▸ List.mem_cons_of_mem l h)⟩

theorem Sound.finish (hc : Sound known stage handler c) : Sound known stage handler c.finish := by
  refine ⟨?_, hc.reader, nofun, hc.lines⟩
  have hone := hc.introductions
  change (if stage = .opened handler then 1 else 0) + 0 + (if c.admitted then 1 else 0) +
    (if c.toClient.reader = LineReader.start then 0 else 1) ≤ 1
  simp only [Connection.introductions] at hone
  omega

/-- A connection is not admitted before its introduction is served, and has no other
    one. -/
theorem Sound.introduction_served (hc : Sound known stage handler c) {command : Command}
    {commands : List Command} (hcommands : c.toServer = command :: commands)
    (hcommand : command.isIntroduction = true) :
    c.admitted = false ∧ (c.served commands false).introductions stage handler = 0 := by
  have hone := hc.introductions
  simp only [Connection.introductions, hcommands, List.countP_cons, if_pos hcommand] at hone
  have hadmitted : c.admitted = false := by
    by_contra h
    rw [if_pos (Bool.eq_true_of_not_eq_false h)] at hone
    omega
  refine ⟨hadmitted, ?_⟩
  change (if stage = .opened handler then 1 else 0) + commands.countP Command.isIntroduction +
    (if c.admitted || false then 1 else 0) +
    (if c.toClient.reader = LineReader.start then 0 else 1) = 0
  rw [Bool.or_false]
  omega

/-- The server serves a command; only an introduction admits the client. -/
theorem Sound.served (hc : Sound known stage handler c) {command : Command}
    {commands : List Command} (hcommands : c.toServer = command :: commands) {bound : Bool}
    (hbound : bound = true → c.admitted = true ∨ command.isIntroduction = true) :
    Sound known stage handler (c.served commands bound) := by
  refine ⟨?_, hc.reader, fun command' h => ?_, hc.lines⟩
  · have hone := hc.introductions
    change (if stage = .opened handler then 1 else 0) + commands.countP Command.isIntroduction +
      (if c.admitted || bound then 1 else 0) +
      (if c.toClient.reader = LineReader.start then 0 else 1) ≤ 1
    simp only [Connection.introductions, hcommands, List.countP_cons] at hone
    -- The introduction that is read makes room for the admission.
    cases bound with
    | false =>
      rw [Bool.or_false]
      omega
    | true =>
      rw [Bool.or_true, if_pos rfl]
      rcases hbound rfl with h | h
      · rw [if_pos h] at hone
        omega
      · rw [if_pos h] at hone
        omega
  · exact hc.commands command' (hcommands ▸ List.mem_cons_of_mem command h)

/-- What the server may write to a connection: messages that fit, or the refusal of its
    introduction. -/
def Takes (known : Text → Prop) (stage : Stage) (handler : ClientHandler) (c : Connection ι)
    (ms : List ServerMessage) : Prop :=
  (∀ m ∈ ms, IsFit known m) ∨
    ∃ m, ms = [m] ∧ m.isRefusal = true ∧ c.introductions stage handler = 0

/-- Nothing has been refused on a connection without introduction. -/
theorem reader_of_introductions (h : c.introductions stage handler = 0) :
    c.toClient.reader = LineReader.start := by
  by_contra hne
  simp only [Connection.introductions, hne, if_false] at h
  omega

/-- The new lines are those of the messages, or begin with a refusal. -/
theorem Sound.mem_tell (hc : Sound known stage handler c) {ms : List ServerMessage}
    (hms : Takes known' stage handler c ms) {l : Text}
    (hl : l ∈ (c.tell (ms.map ServerMessage.text)).toClient.lines) :
    l ∈ c.toClient.lines ∨ l.head? = some 'G' ∨ ∃ m ∈ ms, l = m.line := by
  rw [Connection.tell] at hl
  split_ifs at hl
  · rcases hms with hfit | ⟨m, rfl, hm, hzero⟩
    · exact Stream.mem_writes (fun m hm => (hfit m hm).hasUuids)
        (fun m hm => (hfit m hm).isRefusal) hc.reader hl
    · rw [List.map_singleton, List.foldl_cons, List.foldl_nil,
        Stream.write_refusal hm (reader_of_introductions hzero)] at hl
      exact .inl hl
  · exact .inl hl

/-- What the server writes keeps the connection sound. -/
theorem Sound.tell (hc : Sound known stage handler c) {ms : List ServerMessage}
    (hms : Takes known stage handler c ms) :
    Sound known stage handler (c.tell (ms.map ServerMessage.text)) := by
  rw [Connection.tell]
  split_ifs
  · rcases hms with hfit | ⟨m, rfl, hm, hzero⟩
    · have huuids : ∀ m ∈ ms, m.HasUuids := fun m hm => (hfit m hm).hasUuids
      have hrefusal : ∀ m ∈ ms, m.isRefusal = false := fun m hm => (hfit m hm).isRefusal
      have hone := hc.introductions
      -- A refusal has no end: the first text after it completes its line.
      rcases hc.reader with hstart | hrefused
      · rw [Stream.writes_start huuids hrefusal hstart]
        refine ⟨?_, .inl rfl, hc.commands, fun l hl => ?_⟩
        · simpa [Connection.introductions, hstart] using hone
        · rcases List.mem_append.1 hl with hl | hl
          · exact hc.lines l hl
          · obtain ⟨m, hm, rfl⟩ := List.mem_map.1 hl
            exact (hfit m hm).isLine
      · cases ms with
        | nil => exact hc
        | cons m ms =>
          rw [Stream.writes_refused huuids hrefusal hrefused]
          refine ⟨?_, .inl rfl, hc.commands, fun l hl => ?_⟩
          · change (if stage = .opened handler then 1 else 0) +
              c.toServer.countP Command.isIntroduction + (if c.admitted then 1 else 0) + 0 ≤ 1
            simp only [Connection.introductions] at hone
            omega
          · rcases List.mem_append.1 hl with hl | hl
            · exact hc.lines l hl
            · rcases List.mem_cons.1 hl with rfl | hl
              · exact .inl rfl
              · obtain ⟨m', hm, rfl⟩ := List.mem_map.1 hl
                exact (hfit m' (List.mem_cons_of_mem _ hm)).isLine
    -- The refusal takes the place of the introduction, which has been read.
    · have hstart := reader_of_introductions hzero
      rw [List.map_singleton, List.foldl_cons, List.foldl_nil, Stream.write_refusal hm hstart]
      refine ⟨?_, .inr rfl, hc.commands, hc.lines⟩
      change (if stage = .opened handler then 1 else 0) + c.toServer.countP Command.isIntroduction +
        (if c.admitted then 1 else 0) + 1 ≤ 1
      simp only [Connection.introductions, hstart, if_true] at hzero
      omega
  · exact hc

end Connection

namespace System

variable {ι : Type} {s : System ι}

@[simp] theorem get_withConnection (handler k : ClientHandler) (f : Connection ι → Connection ι) :
    (s.withConnection handler f).connections.get k =
      if k = handler then (s.connections.get k).map f else s.connections.get k :=
  HashMap.get_replace ..

@[simp] theorem get_serverDoes (server : Server) (sent : List Sent) (k : ClientHandler) :
    (s.serverDoes server sent).connections.get k =
      (s.connections.get k).map fun c => c.tell (textsTo k sent) :=
  HashMap.get_mapValues ..

@[simp] theorem get_serverDoes_nil (server : Server) (k : ClientHandler) :
    (s.serverDoes server []).connections.get k = s.connections.get k := by
  have htell : (fun c : Connection ι => c.tell (textsTo k [])) = id := by
    funext c
    rw [Connection.tell]
    split_ifs <;> rfl
  rw [get_serverDoes, htell, Option.map_id]
  rfl

theorem textsTo_wire (handler : ClientHandler) (ms : List Server.Message) :
    textsTo handler (Server.wire ms) = (Server.messagesTo handler ms).map ServerMessage.text := by
  rw [textsTo, Server.wire, Server.messagesTo, List.filter_map, List.map_map, List.map_map]
  rfl

variable {owner : Text → Option ι}

/-- The id is one of the client's. -/
def Knows (owner : Text → Option ι) (uuids : List Text) (i : ι) (id : Text) : Prop :=
  id ∈ uuids ∧ owner id = some i

/-- The invariant, for the client each id belongs to. -/
structure Inv (owner : Text → Option ι) (s : System ι) : Prop where
  server : s.server.WellFormed
  accepted : ∀ handler ∈ s.server.clients, ∃ c, s.connections.get handler = some c
  admitted : ∀ handler c, s.connections.get handler = some c → c.admitted = true →
    handler ∈ s.server.clients
  /-- A player is bound to a connection of its client. -/
  bound : ∀ handler p, s.server.players.get handler = some p → ∃ c,
    s.connections.get handler = some c ∧ c.admitted = true ∧ owner p.playerId = some c.client
  out : ∀ i handler, (s.client i).out = some handler → ∃ c,
    s.connections.get handler = some c ∧ c.client = i
  playerId : ∀ i id, (s.client i).playerId = some id → Knows owner s.server.uuids i id
  sound : ∀ handler c, s.connections.get handler = some c →
    c.Sound (Knows owner s.server.uuids c.client) (s.client c.client).stage handler

/-! ## What the parts of an event keep -/

theorem Inv.withConnection (hs : Inv owner s) {handler : ClientHandler}
    {f : Connection ι → Connection ι}
    (hf : ∀ c, s.connections.get handler = some c → (f c).client = c.client ∧
      (c.admitted = true → (f c).admitted = true) ∧
      ((f c).admitted = true → c.admitted = true ∨ handler ∈ s.server.clients) ∧
      (f c).Sound (Knows owner s.server.uuids c.client) (s.client c.client).stage handler) :
    Inv owner (s.withConnection handler f) := by
  have hget : ∀ k c, s.connections.get k = some c → ∃ c',
      (s.withConnection handler f).connections.get k = some c' ∧ c'.client = c.client ∧
        (c.admitted = true → c'.admitted = true) := by
    intro k c hc
    rw [get_withConnection]
    split_ifs with hk
    · subst hk
      obtain ⟨hclient, hadmitted, -⟩ := hf c hc
      exact ⟨f c, by rw [hc]; rfl, hclient, hadmitted⟩
    · exact ⟨c, hc, rfl, id⟩
  refine ⟨hs.server, fun k hk => ?_, fun k c hc hadmitted => ?_, fun k p hp => ?_,
    fun i k h => ?_, hs.playerId, fun k c hc => ?_⟩
  · obtain ⟨c, hc⟩ := hs.accepted k hk
    obtain ⟨c', hc', -⟩ := hget k c hc
    exact ⟨c', hc'⟩
  · rw [get_withConnection] at hc
    split_ifs at hc with hk
    · subst hk
      obtain ⟨c₀, hc₀, rfl⟩ := Option.map_eq_some_iff.1 hc
      obtain ⟨-, -, hadmitted', -⟩ := hf c₀ hc₀
      exact (hadmitted' hadmitted).elim (hs.admitted k c₀ hc₀) id
    · exact hs.admitted k c hc hadmitted
  · obtain ⟨c, hc, hadmitted, howner⟩ := hs.bound k p hp
    obtain ⟨c', hc', hclient, hadmitted'⟩ := hget k c hc
    exact ⟨c', hc', hadmitted' hadmitted, howner.trans (congrArg some hclient.symm)⟩
  · obtain ⟨c, hc, rfl⟩ := hs.out i k h
    obtain ⟨c', hc', hclient, -⟩ := hget k c hc
    exact ⟨c', hc', hclient⟩
  · rw [get_withConnection] at hc
    split_ifs at hc with hk
    · subst hk
      obtain ⟨c₀, hc₀, rfl⟩ := Option.map_eq_some_iff.1 hc
      obtain ⟨hclient, -, -, hsound⟩ := hf c₀ hc₀
      rw [hclient]
      exact hsound
    · exact hs.sound k c hc

theorem Inv.serverDoes (hs : Inv owner s) {server : Server} (ms : List Server.Message)
    (hserver : server.WellFormed) (huuids : s.server.uuids ⊆ server.uuids)
    (hclients : s.server.clients ⊆ server.clients)
    (haccepted : ∀ handler ∈ server.clients, ∃ c, s.connections.get handler = some c)
    (hbound : ∀ handler p, server.players.get handler = some p → ∃ c,
      s.connections.get handler = some c ∧ c.admitted = true ∧ owner p.playerId = some c.client)
    (hms : ∀ handler c, s.connections.get handler = some c →
      c.Takes (Knows owner server.uuids c.client) (s.client c.client).stage handler
        (Server.messagesTo handler ms)) :
    Inv owner (s.serverDoes server (Server.wire ms)) := by
  have hget : ∀ k c, s.connections.get k = some c → ∃ c',
      (s.serverDoes server (Server.wire ms)).connections.get k = some c' ∧
        c'.client = c.client ∧ c'.admitted = c.admitted := by
    intro k c hc
    rw [get_serverDoes, hc]
    exact ⟨_, rfl, by simp, by simp⟩
  refine ⟨hserver, fun k hk => ?_, fun k c hc hadmitted => ?_, fun k p hp => ?_,
    fun i k h => ?_, fun i id h => ?_, fun k c hc => ?_⟩
  · obtain ⟨c, hc⟩ := haccepted k hk
    obtain ⟨c', hc', -⟩ := hget k c hc
    exact ⟨c', hc'⟩
  · rw [get_serverDoes] at hc
    obtain ⟨c₀, hc₀, rfl⟩ := Option.map_eq_some_iff.1 hc
    rw [Connection.tell_admitted] at hadmitted
    exact hclients (hs.admitted k c₀ hc₀ hadmitted)
  · obtain ⟨c, hc, hadmitted, howner⟩ := hbound k p hp
    obtain ⟨c', hc', hclient, hadmitted'⟩ := hget k c hc
    exact ⟨c', hc', hadmitted'.trans hadmitted, howner.trans (congrArg some hclient.symm)⟩
  · obtain ⟨c, hc, rfl⟩ := hs.out i k h
    obtain ⟨c', hc', hclient, -⟩ := hget k c hc
    exact ⟨c', hc', hclient⟩
  · obtain ⟨hmem, howner⟩ := hs.playerId i id h
    exact ⟨huuids hmem, howner⟩
  · rw [get_serverDoes, textsTo_wire] at hc
    obtain ⟨c₀, hc₀, rfl⟩ := Option.map_eq_some_iff.1 hc
    rw [Connection.tell_client]
    exact ((hs.sound k c₀ hc₀).mono fun id h => ⟨huuids h.1, h.2⟩).tell (hms k c₀ hc₀)

/-- The invariant only depends on the clients the ids given so far belong to. -/
theorem Inv.congr_owner (hs : Inv owner s) {owner' : Text → Option ι}
    (h : ∀ id ∈ s.server.uuids, owner' id = owner id) : Inv owner' s := by
  have hknows : ∀ i id, Knows owner s.server.uuids i id → Knows owner' s.server.uuids i id :=
    fun i id hid => ⟨hid.1, (h id hid.1).trans hid.2⟩
  refine ⟨hs.server, hs.accepted, hs.admitted, fun k p hp => ?_, hs.out,
    fun i id hid => hknows i id (hs.playerId i id hid),
    fun k c hc => (hs.sound k c hc).mono (hknows c.client)⟩
  obtain ⟨c, hc, hadmitted, howner⟩ := hs.bound k p hp
  exact ⟨c, hc, hadmitted, (h _ (hs.server.issued k p hp)).trans howner⟩

variable [DecidableEq ι]

@[simp] theorem client_withClient (i : ι) (c : Client) : (s.withClient i c).client i = c :=
  Function.update_self ..

theorem client_withClient_of_ne {i j : ι} (h : j ≠ i) (c : Client) :
    (s.withClient i c).client j = s.client j := Function.update_of_ne h ..

theorem Inv.withClient (hs : Inv owner s) {i : ι} {c : Client}
    (hid : ∀ id, c.playerId = some id → Knows owner s.server.uuids i id)
    (hout : ∀ handler, c.out = some handler →
      ∃ k, s.connections.get handler = some k ∧ k.client = i)
    (hopened : ∀ handler k, s.connections.get handler = some k → k.client = i →
      c.stage = .opened handler → (s.client i).stage = .opened handler ∨
        k.introductions (s.client i).stage handler = 0) :
    Inv owner (s.withClient i c) := by
  refine ⟨hs.server, hs.accepted, hs.admitted, hs.bound, fun j handler h => ?_,
    fun j id h => ?_, fun handler k hk => ?_⟩
  · by_cases hj : j = i
    · subst hj
      rw [client_withClient] at h
      exact hout handler h
    · rw [client_withClient_of_ne hj] at h
      exact hs.out j handler h
  · by_cases hj : j = i
    · subst hj
      rw [client_withClient] at h
      exact hid id h
    · rw [client_withClient_of_ne hj] at h
      exact hs.playerId j id h
  · have hsound := hs.sound handler k hk
    by_cases hj : k.client = i
    · rw [hj] at hsound ⊢
      rw [client_withClient]
      refine ⟨?_, hsound.reader, hsound.commands, hsound.lines⟩
      have hone := hsound.introductions
      simp only [Connection.introductions] at hone ⊢
      -- Only the client that has just opened the connection may introduce itself on it.
      by_cases hopen : c.stage = .opened handler
      · rw [if_pos hopen]
        rcases hopened handler k hk hj hopen with h | h
        · rwa [if_pos h] at hone
        · simp only [Connection.introductions] at h
          omega
      · rw [if_neg hopen]
        omega
    · rw [client_withClient_of_ne hj]
      exact hsound

end System

end Gaze
