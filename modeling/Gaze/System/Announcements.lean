import Gaze.Server.Announcing
import Gaze.System.Start
import Mathlib.Data.List.Dedup

/-!
# What the server announces, and what the clients hear

The server announces the lists of the players, the phases of the game, and its end, to
all the connections it has accepted. Connections are lost, and clients open others: what
was on its way is lost with them, and nothing is announced again. As in all the runs of the system,
each message is processed at once, and the writes of the server return.

* `System.heard_sublist`: a client hears announcements of the server only, each once at
  most, in order, whatever is lost and however many times it reconnects.
* `System.hears_all`: it hears all of them, from the time its connection has been accepted,
  as long as it has a player and the connection lasts, because no write of the server throws.

`System.Inv.written` and `System.Inv.keeps` are the handles for proofs: what an event of the
server does to a connection, and what another event does to that of a client.
-/

namespace Gaze

open Java Protocol
open scoped List

/-- The types of the instructions that are sent to all the clients, whenever they are. -/
def announcementTypes : List Text :=
  [playersInstructionType, startInstructionType, deathMatchInstructionType,
    finishedInstructionType, serverStoppedInstruction]

/-- Is the line one of an announcement? -/
def isAnnouncement (l : Text) : Bool :=
  match parseInstructionType l with
  | .ok type => announcementTypes.contains type
  | .error _ => false

/-- The lines that are those of announcements. -/
def announcements (lines : List Text) : List Text := lines.filter isAnnouncement

@[simp] theorem announcements_nil : announcements [] = [] := rfl

theorem announcements_append (lines lines' : List Text) :
    announcements (lines ++ lines') = announcements lines ++ announcements lines' :=
  List.filter_append ..

theorem announcements_cons (l : Text) (lines : List Text) :
    announcements (l :: lines) = announcements [l] ++ announcements lines := by
  rw [← announcements_append, List.singleton_append]

/-- A line that begins with a refusal is no announcement. -/
theorem isAnnouncement_swallowed {l : Text} (hl : l.head? = some 'G') :
    isAnnouncement l = false := by
  obtain ⟨s, rfl⟩ := List.head?_eq_some_iff.1 hl
  obtain ⟨t, rest, hsplit⟩ := split_cons (by decide : 'G' ≠ ' ') s
  have htype : parseInstructionType ('G' :: s) = .ok ('G' :: t) := by
    rw [parseInstructionType, hsplit]
    rfl
  have hheads : ∀ type ∈ announcementTypes, type.head? ≠ some 'G' := by decide
  rw [isAnnouncement, htype, Bool.eq_false_iff]
  exact fun hmem => hheads _ (List.contains_iff_mem.1 hmem) rfl

namespace ServerMessage

theorem isAnnouncement_line (m : ServerMessage) :
    Gaze.isAnnouncement m.line = m.isAnnouncement := by
  rw [Gaze.isAnnouncement, m.parseInstructionType_line]
  cases m <;> rfl

theorem announcements_lines (ms : List ServerMessage) :
    announcements (ms.map line) = (ms.filter isAnnouncement).map line := by
  rw [announcements, List.filter_map]
  exact congrArg (List.map line) (List.filter_congr fun m _ => m.isAnnouncement_line)

/-- The lines of a message that are those of announcements. -/
theorem announcements_feed {m : ServerMessage} (hm : m.HasUuids) :
    announcements (LineReader.start.feed m.text).2 =
      if m.isAnnouncement then [m.line] else [] := by
  by_cases hr : m.isRefusal = true
  · rw [feed_refusal hr, isAnnouncement_of_isRefusal hr]
    rfl
  · rw [feed_text hm (by simpa using hr), announcements, List.filter_singleton,
      m.isAnnouncement_line, cond_eq_ite]

end ServerMessage

namespace Connection

variable {ι : Type} {c : Connection ι} {known known' : Text → Prop} {stage : Stage}
  {handler : ClientHandler} {ms : List ServerMessage}

/-- The announcements that are written are added to those that are unread; the first one may be
    lost, after a refusal. -/
theorem Sound.announcements_tell (hc : Sound known stage handler c)
    (hms : Takes known' stage handler c ms) :
    ∃ new, (c.tell (ms.map ServerMessage.text)).toClient.lines = c.toClient.lines ++ new ∧
      announcements new <+ (ms.filter ServerMessage.isAnnouncement).map ServerMessage.line ∧
      (c.up = true → c.toClient.reader = LineReader.start →
        announcements new = (ms.filter ServerMessage.isAnnouncement).map ServerMessage.line) := by
  rw [Connection.tell]
  split_ifs with hup
  · rcases hms with hfit | ⟨m, rfl, hm, hzero⟩
    · have huuids : ∀ m ∈ ms, m.HasUuids := fun m hm => (hfit m hm).hasUuids
      have hrefusal : ∀ m ∈ ms, m.isRefusal = false := fun m hm => (hfit m hm).isRefusal
      rcases hc.reader with hstart | hrefused
      · have hnew := ServerMessage.announcements_lines ms
        rw [Stream.writes_start huuids hrefusal hstart]
        exact ⟨_, rfl, hnew ▸ .refl _, fun _ _ => hnew⟩
      · have hnot : c.toClient.reader ≠ LineReader.start := by
          rw [hrefused]
          decide
        cases ms with
        | nil => exact ⟨[], by simp, .refl _, fun _ _ => rfl⟩
        | cons m ms =>
          -- The refusal swallows the first message.
          rw [Stream.writes_refused huuids hrefusal hrefused]
          refine ⟨_, rfl, ?_, fun _ h => absurd h hnot⟩
          rw [announcements_cons, ServerMessage.announcements_lines, announcements,
            List.filter_cons_of_neg (by rw [isAnnouncement_swallowed rfl]; decide)]
          exact ((List.sublist_cons_self m ms).filter _).map _
    · have hnot := ServerMessage.isAnnouncement_of_isRefusal hm
      rw [List.map_singleton, List.foldl_cons, List.foldl_nil,
        Stream.write_refusal hm (reader_of_introductions hzero)]
      exact ⟨[], by simp, by simp, fun _ _ => by simp [hnot]⟩
  · exact ⟨[], by simp, by simp, fun h => absurd h hup⟩

end Connection

namespace System

variable {ι : Type} {s s' : System ι} {owner : Text → Option ι} {e : Event ι}
  {clients : List ClientHandler} {ms : List Server.Message} {a : Option ServerMessage}

/-- The lines of the texts that are sent. -/
def linesSent (sent : List Sent) : List Text :=
  sent.flatMap fun m => (LineReader.start.feed m.2).2

/-- The announcements of an event, each once, whatever the number of clients. -/
def announced (s : System ι) (e : Event ι) : List Text :=
  (announcements (linesSent (s.sent e))).dedup

/-- The lines that a client has not read, on its connection. -/
def unread (s : System ι) (i : ι) : List Text :=
  ((s.client i).out.bind s.connections.get).elim [] fun c => c.toClient.lines

/-- The announcements that a client hears in an event. -/
def heard [DecidableEq ι] (i : ι) (s : System ι) : Event ι → List Text
  | .reads j => if j = i then announcements (s.unread i).head?.toList else []
  | _ => []

/-! ## What is announced -/

theorem announcements_linesSent (hms : ∀ m ∈ ms, m.2.HasUuids) :
    announcements (linesSent (Server.wire ms)) =
      (ms.filter fun m => m.2.isAnnouncement).map fun m => m.2.line := by
  induction ms with
  | nil => rfl
  | cons m ms ih =>
    obtain ⟨hm, hrest⟩ := List.forall_mem_cons.1 hms
    have hcons : linesSent (Server.wire (m :: ms)) =
        (LineReader.start.feed m.2.text).2 ++ linesSent (Server.wire ms) := rfl
    rw [hcons, announcements_append, ServerMessage.announcements_feed hm, ih hrest,
      List.filter_cons]
    split_ifs <;> rfl

/-- A single announcement is announced, if there is one. -/
theorem announced_eq (hsent : s.sent e = Server.wire ms) (hms : ∀ m ∈ ms, m.2.HasUuids)
    (ha : Server.Announces clients ms a) {k : ClientHandler} (hk : k ∈ clients) :
    s.announced e = a.toList.map ServerMessage.line := by
  have hmem : ∀ k m, (k, m) ∈ ms → m.isAnnouncement = true → a = some m := by
    intro k m hm hann
    have hfilter : m ∈ (Server.messagesTo k ms).filter ServerMessage.isAnnouncement :=
      List.mem_filter.2 ⟨Server.mem_messagesTo.2 hm, hann⟩
    rw [ha k] at hfilter
    split_ifs at hfilter
    · exact Option.mem_toList.1 hfilter
    · exact absurd hfilter List.not_mem_nil
  rw [announced, hsent, announcements_linesSent hms]
  cases a with
  | none =>
    have hnil : (ms.filter fun m => m.2.isAnnouncement) = [] :=
      List.filter_eq_nil_iff.2 fun m hm hann => by simpa using hmem m.1 m.2 hm hann
    rw [hnil]
    rfl
  | some m =>
    have hlines : ∀ l ∈ (ms.filter fun m => m.2.isAnnouncement).map fun m => m.2.line,
        l = m.line := by
      intro l hl
      obtain ⟨m', hm', rfl⟩ := List.mem_map.1 hl
      obtain ⟨hm', hann⟩ := List.mem_filter.1 hm'
      rw [Option.some.inj (hmem m'.1 m'.2 hm' hann)]
    -- Each client is sent the same line, and there is one.
    obtain ⟨hfound, hann⟩ : m ∈ Server.messagesTo k ms ∧ m.isAnnouncement = true := by
      have hfilter := ha k
      rw [if_pos hk] at hfilter
      exact List.mem_filter.1 (hfilter ▸ List.mem_singleton_self m)
    rw [List.eq_replicate_of_mem hlines, List.replicate_dedup]
    · rfl
    · rw [List.length_map]
      exact (List.length_pos_of_mem
        (List.mem_filter.2 ⟨Server.mem_messagesTo.1 hfound, hann⟩)).ne'

/-! ## What the server writes -/

end System

namespace Connection

variable {ι : Type}

/-- The client of a connection is about to introduce itself on it, has written its introduction,
    or has been admitted. -/
def Introduces (stage : Stage) (handler : ClientHandler) (c : Connection ι) : Prop :=
  stage = .opened handler ∨ (∃ command ∈ c.toServer, command.isIntroduction = true) ∨
    c.admitted = true

/-- Nothing has been refused on such a connection. -/
theorem Sound.reader_of_introduces {known : Text → Prop} {stage : Stage} {handler : ClientHandler}
    {c : Connection ι} (hc : Sound known stage handler c) (h : c.Introduces stage handler) :
    c.toClient.reader = LineReader.start := by
  have hone := hc.introductions
  by_contra hne
  simp only [Connection.introductions, if_neg hne] at hone
  rcases h with h | ⟨command, hmem, hcommand⟩ | h
  · rw [if_pos h] at hone
    omega
  · have hpos : 0 < c.toServer.countP Command.isIntroduction :=
      List.countP_pos_iff.2 ⟨command, hmem, hcommand⟩
    omega
  · rw [if_pos h] at hone
    omega

end Connection

namespace System

variable {ι : Type} {s s' : System ι} {owner : Text → Option ι} {e : Event ι}
  {ms : List Server.Message} {a : Option ServerMessage} {m : ServerMessage} {k : ClientHandler}
  {c c' : Connection ι}

/-- What an event of the server does to a connection: the announcement, if there is one, is written
    on it if the client has been accepted. -/
structure Written (s : System ι) (e : Event ι) (k : ClientHandler) (c c' : Connection ι) :
    Prop where
  lines : ∃ new, c'.toClient.lines = c.toClient.lines ++ new ∧
    announcements new <+ (if k ∈ s.server.clients then s.announced e else []) ∧
    (k ∈ s.server.clients → c.up = true → c.toClient.reader = LineReader.start →
      announcements new = s.announced e)
  client : c'.client = c.client
  up : c'.up = true → c.up = true
  introduces : ∀ stage, c'.Introduces stage k → c.Introduces stage k

/-- The messages of an event. -/
structure Messages (s : System ι) (e : Event ι) (ms : List Server.Message)
    (a : Option ServerMessage) : Prop where
  sent : s.sent e = Server.wire ms
  hasUuids : ∀ m ∈ ms, m.2.HasUuids
  announces : Server.Announces s.server.clients ms a

/-- The messages of an event are written on a connection. -/
theorem Messages.written (h : Messages s e ms a) {known known' : Text → Prop} {stage : Stage}
    {c₁ : Connection ι} (hc₁ : c₁.Sound known stage k)
    (htakes : c₁.Takes known' stage k (Server.messagesTo k ms)) (hstream : c₁.toClient = c.toClient)
    (hup : c₁.up = c.up)
    (hlines : c'.toClient =
      (c₁.tell ((Server.messagesTo k ms).map ServerMessage.text)).toClient)
    (hclient : c'.client = c.client) (hup' : c'.up = true → c.up = true)
    (hintroduces : ∀ stage, c'.Introduces stage k → c.Introduces stage k) : s.Written e k c c' := by
  refine ⟨?_, hclient, hup', hintroduces⟩
  obtain ⟨new, hnew, hsub, hall⟩ := hc₁.announcements_tell htakes
  rw [h.announces k] at hsub hall
  refine ⟨new, by rw [hlines, hnew, hstream], ?_, fun hk hc hstart => ?_⟩
  · split_ifs at hsub ⊢ with hk
    · rwa [announced_eq h.sent h.hasUuids h.announces hk]
    · exact hsub
  · rw [hall (hup.trans hc) (hstream ▸ hstart), if_pos hk,
      announced_eq h.sent h.hasUuids h.announces hk]

/-- When a handler ends, the players are announced, or nothing is. -/
theorem messages_farewell {server : Server} (hserver : server.WellFormed)
    (hclients : server.clients = s.server.clients)
    (hsent : s.sent e = Server.wire (server.farewell k)) :
    ∃ a, Messages s e (server.farewell k) a ∧ a.bind ServerMessage.phase = none := by
  obtain ⟨a, ha : Server.Announces _ (server.farewell k) a, hphase⟩ :=
    Server.announces_farewell hserver.nodup
  exact ⟨a, ⟨hsent, fun m hm => (hserver.farewell_isNews (k := m.1) hm).hasUuids, hclients ▸ ha⟩,
    hphase⟩

theorem Inv.messages_stopped (hs : Inv owner s) :
    Messages s .stopped (s.server.announce .serverStopped) (some .serverStopped) where
  sent := by rw [System.sent, Server.handle_stopped]
  hasUuids _ hm := (Server.mem_announce.1 hm).2 ▸ trivial
  announces := Server.announces_announce hs.server.nodup rfl

/-- What serving a command sends. -/
theorem Serving.sent {handler : ClientHandler} {choice : Choice} {command : Command}
    {commands : List Command} {server : Server} {ok : Bool}
    (h : Serving s handler choice s' c command commands server ms ok)
    (hemitted : (s.server.handle (.received handler command.line choice)).emitted = Server.wire ms)
    (hstate : (s.server.handle (.received handler command.line choice)).state = server) :
    s.sent (.serves handler choice) =
      if ok then Server.wire ms else Server.wire (server.farewell handler) := by
  have hnext : s.nextCommand handler = some command := by
    rw [nextCommand, h.get, Option.bind_some, h.toServer, List.head?_cons]
  rw [System.sent, hnext]
  dsimp only
  rw [hemitted, hstate, Server.handle_disconnected]
  cases ok with
  | true => rw [h.result.2 rfl, if_pos rfl]
  | false =>
    obtain ⟨rfl, -, -⟩ := h.served.of_error
    split
    · rename_i hok
      exact absurd (h.result.1 hok) (by decide)
    · rfl

/-- A connection on which nothing is written. -/
theorem Written.of_eq (h : s.announced e = []) : s.Written e k c c where
  lines := ⟨[], (List.append_nil _).symm, List.nil_sublist _, fun _ _ _ => h.symm⟩
  client := rfl
  up := id
  introduces _ := id

/-- The messages for everybody are written on a connection, which its handler may have closed. -/
theorem Messages.written_news (h : Messages s e ms a) (hs : Inv owner s)
    (hnews : ∀ k m, (k, m) ∈ ms → m.IsNews) (hc : s.connections.get k = some c)
    (hc' : c' = c.tell ((Server.messagesTo k ms).map ServerMessage.text) ∨
      c' = (c.tell ((Server.messagesTo k ms).map ServerMessage.text)).finish) :
    s.Written e k c c' := by
  have htakes : c.Takes (fun _ => True) (s.client c.client).stage k (Server.messagesTo k ms) :=
    .inl fun m hm => .inl (hnews k m (Server.mem_messagesTo.1 hm))
  rcases hc' with rfl | rfl
  · exact h.written (hs.sound k c hc) htakes rfl rfl rfl (by simp) (by simp) fun stage => by
      simp [Connection.Introduces]
  · refine h.written (hs.sound k c hc) htakes rfl rfl rfl (by simp [Connection.finish])
      (by simp [Connection.finish]) fun stage => ?_
    simp only [Connection.Introduces, Connection.finish, List.not_mem_nil, false_and, exists_false,
      false_or, Connection.tell_admitted]
    exact Or.imp_right .inr

/-- What serving a command without exception does to the connections. -/
theorem Serving.written (hs : Inv owner s) {handler : ClientHandler} {choice : Choice}
    {c₀ : Connection ι} {command : Command} {commands : List Command} {server : Server}
    (h : Serving s handler choice s' c₀ command commands server ms true)
    (howner : owner choice.uuid.text = some c₀.client)
    (hsent : s.sent (.serves handler choice) = Server.wire ms)
    (hc' : s'.connections.get k = some c') :
    ∃ c, s.connections.get k = some c ∧ s.Written (.serves handler choice) k c c' := by
  obtain ⟨a, hannounces, -⟩ := h.served.announces hs.server.nodup
  have hmessages : Messages s (.serves handler choice) ms a :=
    ⟨hsent, h.served.hasUuids h.wellFormed, hannounces⟩
  rw [h.next, if_pos rfl, get_serverDoes, textsTo_wire] at hc'
  obtain ⟨c₁, hc₁, rfl⟩ := Option.map_eq_some_iff.1 hc'
  have hsound := (h.inv_withServed hs howner).sound k c₁ hc₁
  have htakes := h.takes hs howner hc₁
  rw [withServed, get_withConnection] at hc₁
  split_ifs at hc₁ with hk
  · subst hk
    obtain ⟨c, hc, rfl⟩ := Option.map_eq_some_iff.1 hc₁
    obtain rfl := Option.some.inj (h.get.symm.trans hc)
    refine ⟨c₀, h.get, hmessages.written hsound htakes rfl rfl rfl (by simp [Connection.served])
      (by simp [Connection.served]) fun stage hstage => ?_⟩
    -- Only its introduction may have admitted the client.
    rcases hstage with hstage | ⟨command', hmem, hcommand⟩ | hadmitted
    · exact .inl hstage
    · rw [Connection.tell_toServer] at hmem
      exact .inr (.inl ⟨command', h.toServer ▸ List.mem_cons_of_mem _ hmem, hcommand⟩)
    · rw [Connection.tell_admitted, Connection.served, Bool.or_eq_true] at hadmitted
      rcases hadmitted with hadmitted | hbound
      · exact .inr (.inr hadmitted)
      · obtain ⟨p, hp⟩ := Option.isSome_iff_exists.1 hbound
        obtain ⟨c, hc, -, hadmitted | ⟨-, hintro⟩⟩ := h.bound hs howner hp
        · obtain rfl := Option.some.inj (h.get.symm.trans hc)
          exact .inr (.inr hadmitted)
        · exact .inr (.inl ⟨command, h.toServer ▸ List.mem_cons_self .., hintro⟩)
  · exact ⟨c₁, hc₁, hmessages.written hsound htakes rfl rfl rfl (by simp) (by simp) fun stage => by
      simp [Connection.Introduces]⟩

variable [DecidableEq ι]

/-- What serving a command does to the connections. -/
theorem Inv.written_serving (hs : Inv owner s) {handler : ClientHandler} {choice : Choice}
    (h : s.next (.serves handler choice) = some s') {c' : Connection ι}
    (hc' : s'.connections.get k = some c') :
    ∃ c, s.connections.get k = some c ∧ s.Written (.serves handler choice) k c c' := by
  obtain ⟨c₀, command, commands, server, ms, ok, hserving, hemitted, hstate⟩ :=
    hs.serving_emitted h
  obtain ⟨owner', hnew, -, hs'⟩ := hs.exists_owner hserving.fresh c₀.client
  have hsent := hserving.sent hemitted hstate
  cases ok with
  | true => exact hserving.written hs' hnew hsent hc'
  | false =>
    -- The exception ends the handler, whose player is then announced with the others.
    obtain ⟨a, hmessages, -⟩ :=
      messages_farewell hserving.wellFormed hserving.served.clients_eq hsent
    rw [hserving.next, if_neg (by decide), get_withConnection, get_serverDoes, get_serverDoes_nil,
      textsTo_wire] at hc'
    split_ifs at hc'
    · rw [Option.map_map] at hc'
      obtain ⟨c, hc, rfl⟩ := Option.map_eq_some_iff.1 hc'
      exact ⟨c, hc, hmessages.written_news hs
        (fun _ _ hm => hserving.wellFormed.farewell_isNews hm) hc (.inr rfl)⟩
    · obtain ⟨c, hc, rfl⟩ := Option.map_eq_some_iff.1 hc'
      exact ⟨c, hc, hmessages.written_news hs
        (fun _ _ hm => hserving.wellFormed.farewell_isNews hm) hc (.inl rfl)⟩

/-- What the events of the server do to the connections. -/
theorem Inv.written (hs : Inv owner s) : ∀ {e : Event ι}, e.isOfServer = true →
    s.next e = some s' → ∀ {k c'}, s'.connections.get k = some c' →
      ∃ c, s.connections.get k = some c ∧ s.Written e k c c'
  | .accepted _, _, h, _, _, hc' => by
    simp only [System.next] at h
    split_ifs at h
    obtain rfl := Option.some.inj h
    rw [get_serverDoes_nil] at hc'
    exact ⟨_, hc', .of_eq rfl⟩
  | .validated _, _, h, _, _, hc' => by
    simp only [System.next] at h
    split_ifs at h
    obtain rfl := Option.some.inj h
    rw [get_serverDoes_nil] at hc'
    exact ⟨_, hc', .of_eq rfl⟩
  | .drawn _ _, _, h, _, _, hc' => by
    obtain rfl := Option.some.inj h
    rw [get_serverDoes_nil] at hc'
    exact ⟨_, hc', .of_eq rfl⟩
  | .serves _ _, _, h, _, _, hc' => hs.written_serving h hc'
  | .dropped handler, _, h, _, _, hc' => by
    obtain ⟨a, hmessages, -⟩ := messages_farewell (e := .dropped handler) hs.server rfl
      (by rw [System.sent, Server.handle_disconnected])
    simp only [System.next] at h
    split at h
    · split_ifs at h
      rw [Server.handle_disconnected] at h
      obtain rfl := Option.some.inj h
      rw [get_withConnection, get_serverDoes, textsTo_wire] at hc'
      split_ifs at hc'
      · rw [Option.map_map] at hc'
        obtain ⟨c, hc, rfl⟩ := Option.map_eq_some_iff.1 hc'
        exact ⟨c, hc, hmessages.written_news hs
          (fun _ _ hm => hs.server.farewell_isNews hm) hc (.inr rfl)⟩
      · obtain ⟨c, hc, rfl⟩ := Option.map_eq_some_iff.1 hc'
        exact ⟨c, hc, hmessages.written_news hs
          (fun _ _ hm => hs.server.farewell_isNews hm) hc (.inl rfl)⟩
    · cases h
  | .stopped, _, h, _, _, hc' => by
    have hmessages := hs.messages_stopped
    simp only [System.next] at h
    split_ifs at h
    rw [Server.handle_stopped] at h
    obtain rfl := Option.some.inj h
    rw [get_serverDoes, textsTo_wire] at hc'
    obtain ⟨c, hc, rfl⟩ := Option.map_eq_some_iff.1 hc'
    exact ⟨c, hc, hmessages.written_news hs
      (fun _ _ hm => (Server.mem_announce.1 hm).2 ▸ trivial) hc (.inl rfl)⟩

/-- The events of the server leave the clients as they are. -/
theorem Inv.client_eq (hs : Inv owner s) (he : e.isOfServer = true) (h : s.next e = some s') :
    s'.client = s.client := by
  cases hs.answering he h with
  | silent | dropped | stopped => rfl
  | served handler choice _ c command commands server ms ok hserving => exact hserving.after.2.2

/-! ## What the clients hear -/

/-- What a client does to a connection it uses, or the network. -/
structure Used (k : ClientHandler) (c c' : Connection ι) : Prop where
  stream : c'.toClient = c.toClient
  up : c'.up = true → c.up = true
  introduces : ∀ stage, c'.Introduces stage k → c.Introduces stage k

omit [DecidableEq ι] in
theorem Used.refl : Used k c c := ⟨rfl, id, fun _ => id⟩

omit [DecidableEq ι] in
theorem used_lose : Used k c c.lose :=
  ⟨rfl, fun h => absurd h (by simp [Connection.lose]), fun _ => id⟩

omit [DecidableEq ι] in
theorem used_say {command : Command} (h : command.isIntroduction = false) :
    Used k c (c.say command) := by
  refine ⟨by simp, by simp, fun stage hstage => ?_⟩
  rcases hstage with hstage | ⟨command', hmem, hcommand⟩ | hadmitted
  · exact .inl hstage
  · rw [Connection.say_toServer] at hmem
    split_ifs at hmem
    · rcases List.mem_append.1 hmem with hmem | hmem
      · exact .inr (.inl ⟨command', hmem, hcommand⟩)
      · rw [List.mem_singleton.1 hmem, h] at hcommand
        exact absurd hcommand (by decide)
    · exact .inr (.inl ⟨command', hmem, hcommand⟩)
  · exact .inr (.inr (by simpa using hadmitted))

omit [DecidableEq ι] in
theorem exists_used {handler : ClientHandler} {f : Connection ι → Connection ι}
    (hf : ∀ c, Used k c (f c)) (hc : s.connections.get k = some c) :
    ∃ c', (s.withConnection handler f).connections.get k = some c' ∧ Used k c c' := by
  rw [get_withConnection, hc]
  split_ifs
  · exact ⟨f c, rfl, hf c⟩
  · exact ⟨c, rfl, .refl⟩

omit [DecidableEq ι] in
theorem exists_used_say {i : ι} {command : Command} (h : command.isIntroduction = false)
    (hc : s.connections.get k = some c) :
    ∃ c', (s.say i command).connections.get k = some c' ∧ Used k c c' := by
  rw [System.say]
  split
  · exact ⟨c, hc, .refl⟩
  · exact exists_used (fun _ => used_say h) hc

/-- The client of a connection that is there keeps it, or not, and hears what it reads on it. -/
structure Keeps (s s' : System ι) (e : Event ι) (i : ι) (k : ClientHandler) (c c' : Connection ι) :
    Prop where
  out : (s.client i).out = some k
  get : s'.connections.get k = some c'
  up : c'.up = true → c.up = true
  introduces : c'.Introduces (s'.client i).stage k → c.Introduces (s.client i).stage k
  lines : heard i s e ++ announcements c'.toClient.lines = announcements c.toClient.lines

omit [DecidableEq ι] in
theorem out_congr {client client' : Client} (h : client.stage = client'.stage) :
    client.out = client'.out := by rw [Client.out, Client.out, h]

theorem Used.keeps {i : ι} (h : Used k c c') (hget : s'.connections.get k = some c')
    (hstage : (s'.client i).stage = (s.client i).stage) (hheard : heard i s e = [])
    (hout : (s'.client i).out = some k) : Keeps s s' e i k c c' where
  out := out_congr hstage ▸ hout
  get := hget
  up := h.up
  introduces hintroduces := h.introduces _ (hstage ▸ hintroduces)
  lines := by rw [hheard, h.stream, List.nil_append]

/-- A client that writes a command keeps its connection. -/
theorem keeps_say {i j : ι} {command : Command} (hcommand : command.isIntroduction = false)
    (hheard : heard i s e = []) (hc : s.connections.get k = some c)
    (hout : ((s.say j command).client i).out = some k) :
    ∃ c', Keeps s (s.say j command) e i k c c' := by
  obtain ⟨c', hc', hused⟩ := exists_used_say hcommand hc
  exact ⟨c', hused.keeps hc' (by rw [client_say]) hheard hout⟩

omit [DecidableEq ι] in
/-- Two clients do not share a connection. -/
theorem Inv.client_of_out (hs : Inv owner s) {i j : ι} (hi : (s.client i).out = some k)
    (hj : (s.client j).out = some k) : i = j := by
  obtain ⟨c, hc, rfl⟩ := hs.out i k hi
  obtain ⟨c', hc', rfl⟩ := hs.out j k hj
  rw [Option.some.inj (hc.symm.trans hc')]

omit [DecidableEq ι] in
theorem get_closeIfOver_of_ne {i : ι} {handler : ClientHandler} (hk : k ≠ handler) :
    (s.closeIfOver i handler).connections.get k = s.connections.get k := by
  rw [System.closeIfOver]
  split_ifs
  · rw [get_withConnection, if_neg hk]
  · rfl

/-- A client that introduces itself keeps its connection. -/
theorem Inv.keeps_introduces (hs : Inv owner s) {i j : ι} {handler : ClientHandler}
    (hstage : (s.client j).stage = .opened handler)
    (hs' : s' = ((s.withClient j ((s.client j).introduced handler)).withConnection handler
      fun c => c.say (s.client j).introduction).closeIfOver j handler)
    (hc : s.connections.get k = some c) (hout : (s'.client i).out = some k) :
    ∃ c', Keeps s s' (.introduces j) i k c c' := by
  subst hs'
  rw [client_closeIfOver] at hout
  change ((s.withClient j ((s.client j).introduced handler)).client i).out = some k at hout
  have hj : (s.client j).out = some handler := by rw [Client.out, hstage]
  by_cases hi : i = j
  · subst hi
    rw [client_withClient] at hout
    have hrunning : ((s.client i).introduced handler).stage = .listening handler := by
      rw [Client.out, Client.introduced] at hout
      rw [Client.introduced]
      dsimp only at hout ⊢
      split_ifs at hout ⊢
      rfl
    obtain rfl : handler = k := by
      rw [Client.out, hrunning] at hout
      exact Option.some.inj hout
    have hnotOver : ((s.withClient i ((s.client i).introduced handler)).withConnection handler
        fun c => c.say (s.client i).introduction).closeIfOver i handler =
        (s.withClient i ((s.client i).introduced handler)).withConnection handler
          fun c => c.say (s.client i).introduction := by
      rw [System.closeIfOver, if_neg]
      change ¬((s.withClient i ((s.client i).introduced handler)).client i).stage = .ended
      rw [client_withClient, hrunning]
      simp
    refine ⟨c.say (s.client i).introduction, hj, ?_, by simp, fun _ => .inl hstage, by simp [heard]⟩
    rw [hnotOver, get_withConnection, if_pos rfl]
    exact congrArg (Option.map _) hc
  · rw [client_withClient_of_ne hi] at hout
    have hk : k ≠ handler := by
      rintro rfl
      exact hi (hs.client_of_out hout hj)
    refine ⟨c, Used.refl.keeps ?_ ?_ rfl ?_⟩
    · rw [get_closeIfOver_of_ne hk, get_withConnection, if_neg hk]
      exact hc
    · rw [client_closeIfOver]
      exact congrArg Client.stage (client_withClient_of_ne hi _)
    · rw [client_closeIfOver]
      exact (congrArg Client.out (client_withClient_of_ne hi _)).trans hout

/-- A client that reads a line hears it if it is an announcement. -/
theorem Inv.keeps_reads (hs : Inv owner s) {i j : ι} {handler : ClientHandler} {c₀ : Connection ι}
    {l : Text} {lines : List Text} {client : Client} {event : Option GameEvent}
    (hstage : (s.client j).stage = .listening handler) (hc₀ : s.connections.get handler = some c₀)
    (hl : c₀.toClient.lines = l :: lines)
    (honMessage : (s.client j).onMessage l = .ok (client, event))
    (hs' : s' = ((s.withConnection handler fun c => c.read lines).withClient j
      client.afterMessage).closeIfOver j handler)
    (hc : s.connections.get k = some c) (hout : (s'.client i).out = some k) :
    ∃ c', Keeps s s' (.reads j) i k c c' := by
  subst hs'
  rw [client_closeIfOver] at hout
  have hj : (s.client j).out = some handler := by rw [Client.out, hstage]
  obtain ⟨hlistening, -⟩ := hs.reads hstage hc₀ hl honMessage
  by_cases hi : i = j
  · subst hi
    rw [client_withClient] at hout
    have hrunning : client.afterMessage.stage = .listening handler := by
      rw [Client.out, Client.afterMessage] at hout
      rw [Client.afterMessage]
      split_ifs at hout ⊢
      exact hlistening.trans hstage
    obtain rfl : handler = k := by
      rw [Client.out, hrunning] at hout
      exact Option.some.inj hout
    obtain rfl := Option.some.inj (hc₀.symm.trans hc)
    have hnotOver : ((s.withConnection handler fun c => c.read lines).withClient i
        client.afterMessage).closeIfOver i handler =
        (s.withConnection handler fun c => c.read lines).withClient i client.afterMessage := by
      rw [System.closeIfOver, client_withClient, if_neg (by rw [hrunning]; simp)]
    have hunread : s.unread i = l :: lines := by
      rw [unread, hj, Option.bind_some, hc₀]
      exact hl
    refine ⟨c₀.read lines, hj, ?_, id, fun hintroduces => ?_, ?_⟩
    · rw [hnotOver]
      exact (get_withConnection ..).trans (by rw [if_pos rfl, hc₀]; rfl)
    · rw [hnotOver, client_withClient, hrunning] at hintroduces
      rcases hintroduces with hopened | hintroduces
      · cases hopened
      · exact .inr hintroduces
    · rw [heard, if_pos rfl, hunread, hl, announcements_cons]
      rfl
  · rw [client_withClient_of_ne hi] at hout
    have hk : k ≠ handler := by
      rintro rfl
      exact hi (hs.client_of_out hout hj)
    refine ⟨c, Used.refl.keeps ?_ ?_ (if_neg (Ne.symm hi)) ?_⟩
    · rw [get_closeIfOver_of_ne hk]
      exact (get_withConnection ..).trans ((if_neg hk).trans hc)
    · rw [client_closeIfOver]
      exact congrArg Client.stage (client_withClient_of_ne hi _)
    · rw [client_closeIfOver]
      exact (congrArg Client.out (client_withClient_of_ne hi _)).trans hout

/-- A client that still has a connection had it before, and has not missed an announcement. -/
theorem Inv.keeps (hs : Inv owner s) (h : Acting s e s') {i : ι}
    (hc : s.connections.get k = some c) (hout : (s'.client i).out = some k) :
    ∃ c', Keeps s s' e i k c c' := by
  have hother : ∀ {j : ι} {client : Client}, client.out = none →
      ((s.withClient j client).client i).out = some k →
        ((s.withClient j client).client i).stage = (s.client i).stage := by
    intro j client hnone hout
    rw [client_withClient_of_ne]
    rintro rfl
    rw [client_withClient, hnone] at hout
    cases hout
  cases h with
  | connectServer j playerName => exact ⟨c, Used.refl.keeps hc (hother rfl hout) rfl hout⟩
  | refused j | hangsUp j => exact ⟨c, Used.refl.keeps hc (hother rfl hout) rfl hout⟩
  | opens j handler hstage hnew =>
    have hk : k ≠ handler := by
      rintro rfl
      exact absurd (hc.symm.trans hnew) (by simp)
    have hne : i ≠ j := by
      rintro rfl
      rw [client_withClient] at hout
      exact hk (Option.some.inj hout).symm
    refine ⟨c, Used.refl.keeps ?_ (congrArg Client.stage (client_withClient_of_ne hne _)) rfl hout⟩
    exact (HashMap.get_put ..).trans ((if_neg hk).trans hc)
  | introduces j handler hstage => exact hs.keeps_introduces hstage rfl hc hout
  | reads j handler c₀ l lines client event hstage hc₀ hl honMessage =>
    exact hs.keeps_reads hstage hc₀ hl honMessage rfl hc hout
  | toggleReady | setFound | startGame | sendRoomName => exact keeps_say rfl rfl hc hout
  | disconnect j =>
    obtain ⟨c', hc' : (s.say j .quit).connections.get k = some c', hused⟩ :=
      exists_used_say (show Command.quit.isIntroduction = false from rfl) hc
    refine ⟨c', hused.keeps hc' ?_ rfl hout⟩
    by_cases hi : i = j
    · subst hi
      rw [client_withClient]
    · rw [client_withClient_of_ne hi, client_say]
  | lost handler =>
    obtain ⟨c', hc' : (s.withConnection handler .lose).connections.get k = some c', hused⟩ :=
      exists_used (fun _ => used_lose) hc
    exact ⟨c', hused.keeps hc' rfl rfl hout⟩

/-! ## Delivery -/

omit [DecidableEq ι] in
theorem unread_of_out {i : ι} (hout : (s.client i).out = some k)
    (hc : s.connections.get k = some c) : s.unread i = c.toClient.lines := by
  rw [unread, hout, Option.bind_some, hc]
  rfl

omit [DecidableEq ι] in
theorem announced_of_acting (he : e.isOfServer = false) : s.announced e = [] := by
  cases e with
  | serves | dropped | stopped => exact Bool.noConfusion he
  | _ => rfl

theorem heard_of_answering {i : ι} (he : e.isOfServer = true) : heard i s e = [] := by
  cases e with
  | reads => exact Bool.noConfusion he
  | _ => rfl

theorem heard_sublist_unread (i : ι) : heard i s e <+ announcements (s.unread i) := by
  have hhead : (s.unread i).head?.toList <+ s.unread i := by
    cases s.unread i with
    | nil => exact .slnil
    | cons l lines => exact (List.nil_sublist lines).cons_cons l
  cases e with
  | reads j =>
    rw [heard]
    split_ifs
    · exact hhead.filter _
    · exact List.nil_sublist _
  | _ => exact List.nil_sublist _

/-- An event only moves announcements from those that are unread to those that are heard, and adds
    what it announces; some may be lost. -/
theorem Inv.heard_next (hs : Inv owner s) (h : s.next e = some s') (i : ι) :
    heard i s e ++ announcements (s'.unread i) <+
      announcements (s.unread i) ++ s.announced e := by
  cases hout : (s'.client i).out with
  | none =>
    have hnil : s'.unread i = [] := by rw [unread, hout]; rfl
    rw [hnil, announcements_nil, List.append_nil]
    exact (heard_sublist_unread i).trans (List.sublist_append_left ..)
  | some k =>
    cases he : e.isOfServer with
    | false =>
      have hacting := hs.acting he h
      rw [announced_of_acting he, List.append_nil]
      cases hc : s.connections.get k with
      | none =>
        -- The connection is new.
        have hnil : s'.unread i = [] := by
          cases hc' : s'.connections.get k with
          | none =>
            rw [unread, hout, Option.bind_some, hc']
            rfl
          | some c' =>
            rw [unread_of_out hout hc']
            rcases (hs.meanwhile he h).connection k c' hc' with ⟨-, hlines⟩ | ⟨c, hc₀, -⟩
            · exact hlines
            · exact absurd (hc.symm.trans hc₀) (by simp)
        rw [hnil, announcements_nil, List.append_nil]
        exact heard_sublist_unread i
      | some c =>
        obtain ⟨c', hkeeps⟩ := hs.keeps hacting hc hout
        rw [unread_of_out hout hkeeps.get, unread_of_out hkeeps.out hc, hkeeps.lines]
    | true =>
      have hclient := hs.client_eq he h
      rw [heard_of_answering he, List.nil_append]
      rw [hclient] at hout
      obtain ⟨c₀, hc₀, -⟩ := hs.out i k hout
      cases hc' : s'.connections.get k with
      | none =>
        have hnil : s'.unread i = [] := by
          rw [unread, hclient, hout, Option.bind_some, hc']
          rfl
        rw [hnil]
        exact List.nil_sublist _
      | some c' =>
        obtain ⟨c, hc, hwritten⟩ := hs.written he h hc'
        obtain ⟨new, hnew, hsub, -⟩ := hwritten.lines
        rw [unread_of_out (hclient ▸ hout) hc', unread_of_out hout hc, hnew, announcements_append]
        refine List.Sublist.append_left (hsub.trans ?_) _
        split_ifs
        · exact .refl _
        · exact List.nil_sublist _

/-- What a client has heard, and what it has still to read, has been announced, in this order. -/
theorem heard_unread_sublist {es : List (Event ι)} (h : (machine ι).IsRun s es) (i : ι) :
    (machine ι).trace (heard i) s es ++ announcements (((machine ι).after s es).unread i) <+
      (machine ι).trace announced s es := by
  refine (Machine.Reachable.init h.init).invariant_traces h.enabled (f := heard i)
    (g := announced) (I := fun s l m => l ++ announcements (s.unread i) <+ m) ?_
    fun s e l m hs hsub he => ?_
  · obtain ⟨server, -, rfl⟩ := h.init
    exact .slnil
  · obtain ⟨owner, hs⟩ := inv_of_reachable hs
    have hnext := hs.heard_next (next_of_enabled he) i
    calc l ++ heard i s e ++ announcements (((machine ι).step s e).unread i)
        = l ++ (heard i s e ++ announcements (((machine ι).step s e).unread i)) :=
          List.append_assoc ..
      _ <+ l ++ (announcements (s.unread i) ++ s.announced e) := hnext.append_left l
      _ = l ++ announcements (s.unread i) ++ s.announced e := (List.append_assoc ..).symm
      _ <+ m ++ s.announced e := hsub.append_right _

omit [DecidableEq ι] in
/-- Nothing has been announced on the connections that have not been accepted. -/
def Quiet (s : System ι) : Prop := ∀ k c, s.connections.get k = some c → k ∉ s.server.clients →
  announcements c.toClient.lines = []

/-- The clients that have been accepted stay. -/
theorem Inv.clients_subset (hs : Inv owner s) (h : s.next e = some s') :
    s.server.clients ⊆ s'.server.clients := by
  cases he : e.isOfServer with
  | false => rw [(hs.meanwhile he h).server]; exact fun _ h => h
  | true =>
    cases hs.answering he h with
    | silent _ _ _ _ _ hclients => exact hclients
    | served handler choice _ c command commands server ms ok hserving =>
      rw [hserving.after.1, hserving.served.clients_eq]
      exact fun _ h => h
    | dropped | stopped => exact fun _ h => h

theorem Quiet.next (hquiet : s.Quiet) (hs : Inv owner s) (h : s.next e = some s') : s'.Quiet := by
  intro k c' hc' hk
  have hk' : k ∉ s.server.clients := fun hmem => hk (hs.clients_subset h hmem)
  cases he : e.isOfServer with
  | false =>
    rcases (hs.meanwhile he h).connection k c' hc' with ⟨-, hlines⟩ | ⟨c, hc, -, -, hlines⟩
    · rw [hlines, announcements_nil]
    · have hnone := List.filter_eq_nil_iff.1 (hquiet k c hc hk')
      exact List.filter_eq_nil_iff.2 fun l hl => hnone l (hlines hl)
  | true =>
    obtain ⟨c, hc, hwritten⟩ := hs.written he h hc'
    obtain ⟨new, hnew, hsub, -⟩ := hwritten.lines
    rw [if_neg hk'] at hsub
    rw [hnew, announcements_append, hquiet k c hc hk', List.eq_nil_of_sublist_nil hsub]
    rfl

theorem quiet_of_reachable (hs : (machine ι).Reachable s) : s.Quiet := by
  induction hs with
  | init h =>
    obtain ⟨server, -, rfl⟩ := h
    exact nofun
  | step hs he ih =>
    obtain ⟨owner, hinv⟩ := inv_of_reachable hs
    exact ih.next hinv (next_of_enabled he)

/-- What the client of an accepted connection has heard, and what it has still to read, is all that
    has been announced. -/
def HearsAll (i : ι) (k : ClientHandler) (s : System ι) (heard announced : List Text) : Prop :=
  k ∈ s.server.clients ∧ ∀ c, s.connections.get k = some c → (s.client i).out = some k →
    c.up = true → c.Introduces (s.client i).stage k →
    heard ++ announcements c.toClient.lines = announced

theorem HearsAll.next {i : ι} {l m : List Text} (hall : s.HearsAll i k l m) (hs : Inv owner s)
    (h : s.next e = some s') : s'.HearsAll i k (l ++ heard i s e) (m ++ s.announced e) := by
  obtain ⟨hk, hall⟩ := hall
  refine ⟨hs.clients_subset h hk, fun c' hc' hout hup hintroduces => ?_⟩
  obtain ⟨c, hc⟩ := hs.accepted k hk
  cases he : e.isOfServer with
  | false =>
    obtain ⟨c₁, hkeeps⟩ := hs.keeps (hs.acting he h) hc hout
    obtain rfl := Option.some.inj (hkeeps.get.symm.trans hc')
    rw [announced_of_acting he, List.append_nil, List.append_assoc, hkeeps.lines]
    exact hall c hc hkeeps.out (hkeeps.up hup) (hkeeps.introduces hintroduces)
  | true =>
    have hclient := hs.client_eq he h
    obtain ⟨c₁, hc₁, hwritten⟩ := hs.written he h hc'
    obtain rfl := Option.some.inj (hc.symm.trans hc₁)
    rw [hclient] at hout hintroduces
    have hintroduces := hwritten.introduces _ hintroduces
    -- Nothing has been refused on the connection of the client.
    have hstart : c.toClient.reader = LineReader.start := by
      obtain ⟨c₂, hc₂, rfl⟩ := hs.out i k hout
      obtain rfl := Option.some.inj (hc.symm.trans hc₂)
      exact (hs.sound k c hc).reader_of_introduces hintroduces
    obtain ⟨new, hnew, -, hfull⟩ := hwritten.lines
    have hup' := hwritten.up hup
    rw [heard_of_answering he, List.append_nil, hnew, announcements_append, hfull hk hup' hstart,
      ← List.append_assoc, hall c hc hout hup' hintroduces]

/-- Nothing has been announced yet on a connection that is accepted. -/
theorem Quiet.hearsAll (hquiet : s.Quiet) (h : s.next (.accepted k) = some s') (i : ι) :
    s'.HearsAll i k [] [] := by
  simp only [System.next] at h
  split_ifs at h with hguard
  obtain ⟨-, -, hk⟩ := hguard
  obtain rfl := Option.some.inj h
  refine ⟨List.mem_append_right _ (List.mem_singleton_self k), fun c hc _ _ _ => ?_⟩
  rw [get_serverDoes_nil] at hc
  exact hquiet k c hc hk

/-- The invariant holds from the time the connection is accepted on. -/
theorem hearsAll_after {before after : List (Event ι)}
    (h : (machine ι).IsRun s (before ++ .accepted k :: after)) (i : ι) :
    ((machine ι).after s (before ++ .accepted k :: after)).HearsAll i k
      ((machine ι).trace (heard i) ((machine ι).after s (before ++ [.accepted k])) after)
      ((machine ι).trace announced ((machine ι).after s (before ++ [.accepted k])) after) := by
  have hsplit : before ++ .accepted k :: after = (before ++ [.accepted k]) ++ after := by simp
  rw [hsplit] at h ⊢
  rw [show (machine ι).after s ((before ++ [.accepted k]) ++ after) =
    (machine ι).after ((machine ι).after s (before ++ [.accepted k])) after from
      Machine.after_append]
  have hreach := (h.of_prefix (List.prefix_append ..)).reachable
  obtain ⟨hbefore, hafter⟩ := Machine.along_append.1 h.enabled
  refine hreach.invariant_traces hafter ?_ fun s e l m hs hall he => ?_
  · obtain ⟨hbefore, henabled, -⟩ := Machine.along_append.1 hbefore
    have hrun : (machine ι).IsRun s before := ⟨h.init, hbefore⟩
    rw [Machine.after_append]
    exact (quiet_of_reachable hrun.reachable).hearsAll (next_of_enabled henabled) i
  · obtain ⟨owner, hs⟩ := inv_of_reachable hs
    exact hall.next hs (next_of_enabled he)

omit [DecidableEq ι] in
theorem HearsAll.of_hears {i : ι} {l m : List Text} (hall : s.HearsAll i k l m)
    (hears : s.Hears i k c) : l ++ announcements c.toClient.lines = m :=
  hall.2 c hears.get (by rw [Client.out, hears.stage]) hears.up (.inr (.inr hears.admitted))

/-- A client with a player, whose connection lasts, has heard all that has been announced since its
    connection has been accepted, except what it has still to read: nothing is lost, nor heard
    twice. In the runs of the system, no write of the server throws: else the thread that announces
    might wait for ever before it writes to this client. -/
theorem hears_all {before after : List (Event ι)}
    (h : (machine ι).IsRun s (before ++ .accepted k :: after)) {i : ι}
    (hears : ((machine ι).after s (before ++ .accepted k :: after)).Hears i k c) :
    (machine ι).trace (heard i) ((machine ι).after s (before ++ [.accepted k])) after ++
        announcements c.toClient.lines =
      (machine ι).trace announced ((machine ι).after s (before ++ [.accepted k])) after :=
  (hearsAll_after h i).of_hears hears

/-! ## A sample run -/

theorem sampleRun_hears :
    ∃ c, ((machine SampleClient).after sampleSystem sampleRun).Hears .host host c := by
  have hhears : (((machine SampleClient).after sampleSystem sampleRun).connections.get host).any
      (fun c => c.up && c.admitted) = true := by decide +kernel
  obtain ⟨c, hc, hall⟩ := (Option.any_eq_true ..).1 hhears
  obtain ⟨hup, hadmitted⟩ : c.up = true ∧ c.admitted = true := by simpa using hall
  exact ⟨c, by decide +kernel, hc, hup, hadmitted⟩

/-- The connection of the host is accepted in the third event. -/
theorem sampleRun_hears_all : ∃ c,
    ((machine SampleClient).after sampleSystem sampleRun).Hears .host host c ∧
      (machine SampleClient).trace (heard .host)
          ((machine SampleClient).after sampleSystem (sampleRun.take 3)) (sampleRun.drop 3) ++
        announcements c.toClient.lines =
      (machine SampleClient).trace announced
        ((machine SampleClient).after sampleSystem (sampleRun.take 3)) (sampleRun.drop 3) := by
  obtain ⟨c, hears⟩ := sampleRun_hears
  have hall := @hears_all _ _ _ _ _ (sampleRun.take 2) (sampleRun.drop 3) isRun_sampleRun _ hears
  exact ⟨c, hears, hall⟩

end System

end Gaze
