import Gaze.System.Invariant

/-!
# The events of the system

* `System.Inv.acting`: what the events of the clients and of the network do.
* `System.Inv.answering`: what those of the server do; `System.Inv.serving`: in particular,
  serving a command.
* `System.Inv.next`: every event keeps the invariant, for some owners of the ids.
* `System.inv_of_reachable`: it holds in every reachable state.
-/

namespace Gaze

open Java Protocol

namespace System

variable {ι : Type} {s s' : System ι} {owner : Text → Option ι} {handler : ClientHandler}
  {choice : Choice}

/-! ## Connections -/

theorem Inv.lose (hs : Inv owner s) (handler : ClientHandler) :
    Inv owner (s.withConnection handler .lose) :=
  hs.withConnection fun c hc => ⟨rfl, fun h => h, .inl, (hs.sound handler c hc).lose⟩

@[simp] theorem client_closeIfOver (i : ι) (handler : ClientHandler) :
    (s.closeIfOver i handler).client = s.client := by
  rw [System.closeIfOver]
  split_ifs <;> rfl

@[simp] theorem client_say (i : ι) (command : Command) : (s.say i command).client = s.client := by
  rw [System.say]
  split <;> rfl

theorem Inv.closeIfOver (hs : Inv owner s) (i : ι) (handler : ClientHandler) :
    Inv owner (s.closeIfOver i handler) := by
  rw [System.closeIfOver]
  split_ifs
  · exact hs.lose handler
  · exact hs

theorem Inv.finish (hs : Inv owner s) (handler : ClientHandler) :
    Inv owner (s.withConnection handler .finish) :=
  hs.withConnection fun c hc => ⟨rfl, fun h => h, .inl, (hs.sound handler c hc).finish⟩

/-- A client opens a connection. -/
theorem Inv.opens (hs : Inv owner s) (i : ι) (hnew : s.connections.get handler = none) :
    Inv owner { s with connections := s.connections.put handler (.new i) .id } := by
  have hold : ∀ k c, s.connections.get k = some c →
      (s.connections.put handler (.new i) .id).get k = some c := by
    intro k c hc
    rw [HashMap.get_put, if_neg]
    · exact hc
    · rintro rfl
      exact absurd (hnew.symm.trans hc) (by simp)
  refine ⟨hs.server, fun k hk => ?_, fun k c hc hadmitted => ?_, fun k p hp => ?_,
    fun j k h => ?_, hs.playerId, fun k c hc => ?_⟩
  · obtain ⟨c, hc⟩ := hs.accepted k hk
    exact ⟨c, hold k c hc⟩
  · rw [HashMap.get_put] at hc
    split_ifs at hc
    · obtain rfl := Option.some.inj hc
      exact absurd hadmitted (by simp [Connection.new])
    · exact hs.admitted k c hc hadmitted
  · obtain ⟨c, hc, hrest⟩ := hs.bound k p hp
    exact ⟨c, hold k c hc, hrest⟩
  · obtain ⟨c, hc, hclient⟩ := hs.out j k h
    exact ⟨c, hold k c hc, hclient⟩
  · rw [HashMap.get_put] at hc
    split_ifs at hc with hk
    · obtain rfl := Option.some.inj hc
      -- No client uses a connection that was not there.
      refine Connection.sound_new i fun hstage => ?_
      obtain ⟨c, hc', -⟩ := hs.out i k (by
        rw [Client.out]
        simp [Connection.new] at hstage
        simp [hstage])
      rw [hk, hnew] at hc'
      exact absurd hc' (by simp)
    · exact hs.sound k c hc

/-- A client writes a command, which is not an introduction. -/
theorem Inv.say (hs : Inv owner s) {i : ι} {command : Command}
    (hid : ∀ id, command.playerId = some id → (s.client i).playerId = some id)
    (hintro : command.isIntroduction = false) : Inv owner (s.say i command) := by
  rw [System.say]
  cases hout : (s.client i).out with
  | none => exact hs
  | some handler =>
    refine hs.withConnection fun c hc => ⟨by simp, by simp, by simp +contextual, ?_⟩
    obtain ⟨c', hc', rfl⟩ := hs.out i handler hout
    obtain rfl := Option.some.inj (hc.symm.trans hc')
    exact (hs.sound handler c hc).say (fun id h => hs.playerId _ id (hid id h))
      fun h => absurd h (by simp [hintro])

/-! ## The server -/

/-- The system once the handler has served a command: the others are left. -/
def withServed (s : System ι) (handler : ClientHandler) (commands : List Command)
    (server : Server) : System ι :=
  s.withConnection handler fun c => c.served commands (server.players.get handler).isSome

/-- What serving a command does to the system. -/
structure Serving (s : System ι) (handler : ClientHandler) (choice : Choice) (s' : System ι)
    (c : Connection ι) (command : Command) (commands : List Command) (server : Server)
    (ms : List Server.Message) (ok : Bool) : Prop where
  get : s.connections.get handler = some c
  toServer : c.toServer = command :: commands
  accepted : handler ∈ s.server.clients
  fresh : choice.uuid.text ∉ s.server.uuids
  wellFormed : server.WellFormed
  served : s.server.Served handler choice command server ms ok
  result : (s.server.handle (.received handler command.line choice)).result = .ok () ↔ ok = true
  next : s' =
    if ok then (s.withServed handler commands server).serverDoes server (Server.wire ms)
    else ((s.serverDoes server []).serverDoes server
      (Server.wire (server.farewell handler))).withConnection handler .finish

/-- The server sends news, without changing. -/
theorem Inv.news (hs : Inv owner s) {ms : List Server.Message}
    (hms : ∀ k m, (k, m) ∈ ms → m.IsNews) : Inv owner (s.serverDoes s.server (Server.wire ms)) :=
  hs.serverDoes ms hs.server (fun _ h => h) (fun _ h => h) hs.accepted hs.bound fun k _ _ =>
    .inl fun m hm => .inl (hms k m (Server.mem_messagesTo.1 hm))

/-- A `RECONNECT` that is recognised comes from the client the player belongs to. -/
theorem Inv.owner_of_format (hs : Inv owner s) {k k' : ClientHandler} {c : Connection ι}
    {p : Player} (hc : s.connections.get k = some c) (hp : s.server.players.get k' = some p)
    {id : Option Text} (hcommand : Command.reconnect id ∈ c.toServer)
    (hid : Command.format id = p.playerId) : owner p.playerId = some c.client := by
  cases id with
  | none =>
    have huuid := hs.server.uuids _ (hs.server.issued k' p hp)
    rw [← hid] at huuid
    exact absurd huuid (by decide)
  | some id =>
    have hknows := ((hs.sound k c hc).commands _ hcommand id rfl).2
    rwa [show id = p.playerId from hid] at hknows

/-- An id that has not been given may belong to any client. -/
theorem Inv.exists_owner (hs : Inv owner s) {id : Text} (hid : id ∉ s.server.uuids) (i : ι) :
    ∃ owner', owner' id = some i ∧ (∀ id' ∈ s.server.uuids, owner' id' = owner id') ∧
      Inv owner' s := by
  have hold : ∀ id' ∈ s.server.uuids, Function.update owner id (some i) id' = owner id' := by
    intro id' hid'
    refine Function.update_of_ne ?_ ..
    rintro rfl
    exact hid hid'
  exact ⟨_, Function.update_self .., hold, hs.congr_owner hold⟩

section Serving

variable {c : Connection ι} {command : Command} {commands : List Command} {server : Server}
  {ms : List Server.Message} {ok : Bool}

/-- Once a command is served, the players are bound to connections of their clients;
    only an introduction binds a player to a connection that has not been admitted. -/
theorem Serving.bound (hs : Inv owner s)
    (h : Serving s handler choice s' c command commands server ms ok)
    (howner : owner choice.uuid.text = some c.client) {k : ClientHandler} {p : Player}
    (hp : server.players.get k = some p) : ∃ c', s.connections.get k = some c' ∧
      owner p.playerId = some c'.client ∧
      (c'.admitted = true ∨ k = handler ∧ command.isIntroduction = true) := by
  cases h.served.binding hp with
  | kept q hq hid =>
    obtain ⟨c', hc', hadmitted, hclient⟩ := hs.bound k q hq
    exact ⟨c', hc', hid ▸ hclient, .inl hadmitted⟩
  | created name hk hcommand hnew =>
    subst hk hcommand hnew
    exact ⟨c, h.get, howner, .inr ⟨rfl, rfl⟩⟩
  | moved id k' hk hcommand hold hid =>
    subst hk hcommand
    exact ⟨c, h.get, hs.owner_of_format h.get hold (h.toServer ▸ List.mem_cons_self ..) hid,
      .inr ⟨rfl, rfl⟩⟩

/-- The connections once the command has been read. -/
theorem Serving.get_withServed (h : Serving s handler choice s' c command commands server ms ok)
    {k : ClientHandler} {c' : Connection ι} (hc' : s.connections.get k = some c') :
    ∃ c'', (s.withServed handler commands server).connections.get k = some c'' ∧
      c''.client = c'.client ∧ (c'.admitted = true → c''.admitted = true) ∧
      (k = handler → c'' = c.served commands (server.players.get handler).isSome) := by
  rw [withServed, get_withConnection, hc']
  split_ifs with hk
  · subst hk
    obtain rfl := Option.some.inj (h.get.symm.trans hc')
    exact ⟨_, rfl, rfl, fun h => by simp [Connection.served, h], fun _ => rfl⟩
  · exact ⟨_, rfl, rfl, fun h => h, fun h => absurd h hk⟩

theorem Serving.inv_withServed (hs : Inv owner s)
    (h : Serving s handler choice s' c command commands server ms ok)
    (howner : owner choice.uuid.text = some c.client) :
    Inv owner (s.withServed handler commands server) := by
  refine hs.withConnection fun c' hc' => ?_
  obtain rfl := Option.some.inj (h.get.symm.trans hc')
  refine ⟨rfl, fun h => by simp [Connection.served, h], fun _ => .inr h.accepted,
    (hs.sound handler c h.get).served h.toServer fun hsome => ?_⟩
  obtain ⟨p, hp⟩ := Option.isSome_iff_exists.1 hsome
  obtain ⟨c', hc', -, h'⟩ := h.bound hs howner hp
  obtain rfl := Option.some.inj (h.get.symm.trans hc')
  exact h'.imp_right And.right

theorem Serving.bound_withServed (hs : Inv owner s)
    (h : Serving s handler choice s' c command commands server ms ok)
    (howner : owner choice.uuid.text = some c.client) {k : ClientHandler} {p : Player}
    (hp : server.players.get k = some p) :
    ∃ c', (s.withServed handler commands server).connections.get k = some c' ∧
      c'.admitted = true ∧ owner p.playerId = some c'.client := by
  obtain ⟨c', hc', hclient, hadmitted⟩ := h.bound hs howner hp
  obtain ⟨c'', hc'', hclient', hadmitted', heq⟩ := h.get_withServed hc'
  refine ⟨c'', hc'', ?_, hclient.trans (congrArg some hclient'.symm)⟩
  rcases hadmitted with hadmitted | ⟨rfl, -⟩
  · exact hadmitted' hadmitted
  · rw [heq rfl]
    simp [Connection.served, hp]

/-- An introduction comes from a handler without player. -/
theorem Serving.unbound (hs : Inv owner s)
    (h : Serving s handler choice s' c command commands server ms ok)
    (hintro : command.isIntroduction = true) : s.server.players.get handler = none := by
  obtain ⟨hadmitted, -⟩ := (hs.sound handler c h.get).introduction_served h.toServer hintro
  by_contra hne
  obtain ⟨p, hp⟩ := Option.ne_none_iff_exists'.1 hne
  obtain ⟨c', hc', hadmitted', -⟩ := hs.bound handler p hp
  obtain rfl := Option.some.inj (h.get.symm.trans hc')
  exact absurd hadmitted' (by simp [hadmitted])

/-- The answers are news, or the id of the player, or the refusal of the introduction. -/
theorem Serving.takes (hs : Inv owner s)
    (h : Serving s handler choice s' c command commands server ms ok)
    (howner : owner choice.uuid.text = some c.client) {k : ClientHandler} {c' : Connection ι}
    (hc' : (s.withServed handler commands server).connections.get k = some c') :
    c'.Takes (Knows owner server.uuids c'.client) (s.client c'.client).stage k
      (Server.messagesTo k ms) := by
  -- A refusal is the only answer, on a connection that had just been introduced.
  by_cases hrefusal : ∃ m ∈ Server.messagesTo k ms, m.isRefusal = true
  · obtain ⟨m, hm, hrefusal⟩ := hrefusal
    rcases h.served.messages h.wellFormed (Server.mem_messagesTo.1 hm) with
      hnews | ⟨rfl, hintro, ⟨p, -, rfl⟩ | ⟨-, rfl, rfl⟩⟩
    · exact absurd hrefusal (by simp [hnews.isRefusal])
    · exact absurd hrefusal (by simp [ServerMessage.isRefusal])
    · obtain ⟨-, hzero⟩ := (hs.sound k c h.get).introduction_served h.toServer hintro
      obtain ⟨c'', hc'', -, -, heq⟩ := h.get_withServed h.get
      obtain rfl := Option.some.inj (hc'.symm.trans hc'')
      refine .inr ⟨m, by simp [Server.messagesTo], hrefusal, ?_⟩
      rw [heq rfl, h.unbound hs hintro]
      exact hzero
  · refine .inl fun m hm => ?_
    rcases h.served.messages h.wellFormed (Server.mem_messagesTo.1 hm) with
      hnews | ⟨rfl, -, ⟨p, hp, rfl⟩ | ⟨h', -⟩⟩
    · exact .inl hnews
    · obtain ⟨c'', hc'', -, hclient⟩ := h.bound_withServed hs howner hp
      obtain rfl := Option.some.inj (hc'.symm.trans hc'')
      have hissued := h.wellFormed.issued k p hp
      exact .inr ⟨_, rfl, h.wellFormed.uuids _ hissued, hissued, hclient⟩
    · exact absurd ⟨m, hm, h'⟩ hrefusal

theorem Serving.uuids_subset
    (h : Serving s handler choice s' c command commands server ms ok) :
    s.server.uuids ⊆ server.uuids := by
  rcases h.served.uuids_eq with heq | ⟨_, -, heq⟩
  · rw [heq]
    exact fun _ h => h
  · rw [heq]
    exact List.subset_cons_self ..

/-- Serving a command without exception keeps the invariant. -/
theorem Serving.inv_of_ok (hs : Inv owner s)
    (h : Serving s handler choice s' c command commands server ms true)
    (howner : owner choice.uuid.text = some c.client) : Inv owner s' := by
  rw [h.next, if_pos rfl]
  refine (h.inv_withServed hs howner).serverDoes ms h.wellFormed h.uuids_subset
    (fun k hk => h.served.clients_eq.symm ▸ hk) (fun k hk => ?_)
    (fun k p hp => h.bound_withServed hs howner hp) fun k c' hc' => h.takes hs howner hc'
  obtain ⟨c', hc'⟩ := hs.accepted k (h.served.clients_eq ▸ hk)
  obtain ⟨c'', hc'', -⟩ := h.get_withServed hc'
  exact ⟨c'', hc''⟩

/-- The system once a command has been served. -/
theorem Serving.after (h : Serving s handler choice s' c command commands server ms ok) :
    s'.server = server ∧ s'.stopping = s.stopping ∧ s'.client = s.client := by
  rw [h.next]
  split_ifs <;> exact ⟨rfl, rfl, rfl⟩

/-- A connection is only admitted when a player is bound to it. -/
theorem Serving.connection (h : Serving s handler choice s' c command commands server ms ok)
    {k : ClientHandler} {c' : Connection ι} (hc' : s'.connections.get k = some c') :
    ∃ c₀, s.connections.get k = some c₀ ∧ c'.client = c₀.client ∧
      (c'.admitted = true → c₀.admitted = true ∨ (server.players.get k).isSome) := by
  rw [h.next] at hc'
  split_ifs at hc'
  · rw [get_serverDoes, withServed, get_withConnection] at hc'
    obtain ⟨c₁, hc₁, rfl⟩ := Option.map_eq_some_iff.1 hc'
    rw [Connection.tell_client, Connection.tell_admitted]
    split_ifs at hc₁ with hk
    · obtain ⟨c₀, hc₀, rfl⟩ := Option.map_eq_some_iff.1 hc₁
      exact ⟨c₀, hc₀, rfl, fun hadmitted => by simpa [Connection.served, hk] using hadmitted⟩
    · exact ⟨c₁, hc₁, rfl, .inl⟩
  · rw [get_withConnection, get_serverDoes, get_serverDoes_nil] at hc'
    split_ifs at hc'
    · rw [Option.map_map] at hc'
      obtain ⟨c₀, hc₀, rfl⟩ := Option.map_eq_some_iff.1 hc'
      exact ⟨c₀, hc₀, by simp [Connection.finish], fun hadmitted => .inl (by
        simpa [Connection.finish] using hadmitted)⟩
    · obtain ⟨c₀, hc₀, rfl⟩ := Option.map_eq_some_iff.1 hc'
      exact ⟨c₀, hc₀, by simp, fun hadmitted => .inl (by simpa using hadmitted)⟩

/-- The connections stay, and stay admitted. -/
theorem Serving.kept (h : Serving s handler choice s' c command commands server ms ok)
    {k : ClientHandler} {c₀ : Connection ι} (hc₀ : s.connections.get k = some c₀) :
    ∃ c', s'.connections.get k = some c' ∧ c'.client = c₀.client ∧
      (c₀.admitted = true → c'.admitted = true) := by
  rw [h.next]
  split_ifs
  · obtain ⟨c₁, hc₁, hclient, hadmitted, -⟩ := h.get_withServed hc₀
    exact ⟨_, by rw [get_serverDoes, hc₁]; rfl, by simpa using hclient, by simpa using hadmitted⟩
  · rw [get_withConnection, get_serverDoes, get_serverDoes_nil, hc₀]
    split_ifs
    · exact ⟨_, rfl, by simp [Connection.finish], by simp [Connection.finish]⟩
    · exact ⟨_, rfl, by simp, by simp⟩

/-- Serving a command keeps the invariant; the id that is given belongs to the client. -/
theorem Serving.inv (hs : Inv owner s)
    (h : Serving s handler choice s' c command commands server ms ok) :
    ∃ owner', (∀ id ∈ s.server.uuids, owner' id = owner id) ∧ Inv owner' s' := by
  obtain ⟨owner', hnew, hold, hs'⟩ := hs.exists_owner h.fresh c.client
  refine ⟨owner', hold, ?_⟩
  cases ok with
  | true => exact h.inv_of_ok hs' hnew
  | false =>
    obtain ⟨rfl, hfind, -⟩ := h.served.of_error
    -- The exception leaves the players as they are, and the handler says farewell.
    have hmid : Inv owner' (s.serverDoes server (Server.wire [])) := by
      refine hs'.serverDoes [] h.wellFormed h.uuids_subset
        (fun k hk => h.served.clients_eq.symm ▸ hk)
        (fun k hk => hs'.accepted k (h.served.clients_eq ▸ hk)) (fun k p hp => ?_)
        fun k _ _ => .inl fun m hm => absurd hm List.not_mem_nil
      obtain ⟨c', hc', hclient, hadmitted | ⟨-, hintro⟩⟩ := h.bound hs' hnew hp
      · exact ⟨c', hc', hadmitted, hclient⟩
      · cases command with
        | found => exact absurd hintro (by simp [Command.isIntroduction])
        | _ => exact absurd hfind (by simp [Command.isFind])
    rw [h.next]
    exact (hmid.news fun k m hm => h.wellFormed.farewell_isNews hm).finish handler

end Serving

/-! ## Clients -/

variable [DecidableEq ι]

/-- A client that does not open a connection keeps the invariant. -/
theorem Inv.moves (hs : Inv owner s) {i : ι} {c : Client}
    (hid : ∀ id, c.playerId = some id → Knows owner s.server.uuids i id)
    (hstage : c.stage = (s.client i).stage ∨ c.stage = .opening ∨ c.stage = .ended) :
    Inv owner (s.withClient i c) := by
  refine hs.withClient hid (fun k h => ?_) fun k c' _ _ h => ?_
  · rw [Client.out] at h
    rcases hstage with heq | heq | heq
    · rw [heq] at h
      exact hs.out i k h
    · simp [heq] at h
    · simp [heq] at h
  · rcases hstage with heq | heq | heq
    · exact .inl (heq ▸ h)
    · simp [heq] at h
    · simp [heq] at h

/-- The exception of a client keeps the invariant. -/
theorem Inv.failed (hs : Inv owner s) (i : ι) :
    Inv owner (s.withClient i (s.client i).failed) :=
  hs.moves (fun id h => hs.playerId i id h) (.inr (.inl rfl))

/-- A client introduces itself. -/
theorem Inv.introduces (hs : Inv owner s) {i : ι} (hstage : (s.client i).stage = .opened handler) :
    Inv owner ((s.withClient i ((s.client i).introduced handler)).withConnection handler fun c =>
      c.say (s.client i).introduction) := by
  have hout : (s.client i).out = some handler := by rw [Client.out, hstage]
  have hclient : Inv owner (s.withClient i ((s.client i).introduced handler)) := by
    refine hs.withClient (fun id h => hs.playerId i id h) (fun k h => ?_) fun k c _ _ h => ?_
    · rw [Client.out, Client.introduced] at h
      dsimp only at h
      split_ifs at h
      obtain rfl := Option.some.inj h
      exact hs.out i handler hout
    · rw [Client.introduced] at h
      dsimp only at h
      split_ifs at h
  refine hclient.withConnection fun c hc => ⟨by simp, by simp, by simp +contextual, ?_⟩
  obtain ⟨c', hc', rfl⟩ := hs.out i handler hout
  obtain rfl := Option.some.inj (hc.symm.trans hc')
  refine (hclient.sound handler c hc).say (fun id h => ?_) fun _ => ?_
  · refine hs.playerId _ id ?_
    rw [Client.introduction] at h
    split_ifs at h
    · exact h
    · exact absurd h (by simp [Command.playerId])
  · -- The introduction was the one of this connection.
    have hone := (hs.sound handler c hc).introductions
    rw [client_withClient]
    simp only [Connection.introductions, if_pos hstage] at hone
    have hstage' : ((s.client c.client).introduced handler).stage ≠ .opened handler := by
      rw [Client.introduced]
      dsimp only
      split_ifs <;> simp
    simp only [Connection.introductions, if_neg hstage']
    omega

omit [DecidableEq ι] in
/-- A line that a client reads is no exception. -/
theorem Inv.onMessage (hs : Inv owner s) {i : ι} {c : Connection ι}
    (hstage : (s.client i).stage = .listening handler)
    (hc : s.connections.get handler = some c) {l : Text} {lines : List Text}
    (hl : c.toClient.lines = l :: lines) :
    ∃ c' event, (s.client i).onMessage l = .ok (c', event) ∧ c'.stage = (s.client i).stage ∧
      ∀ id, c'.playerId = some id →
        (s.client i).playerId = some id ∨ Knows owner s.server.uuids i id := by
  obtain ⟨c₀, hc₀, rfl⟩ := hs.out i handler (by rw [Client.out, hstage])
  obtain rfl := Option.some.inj (hc.symm.trans hc₀)
  exact ((hs.sound handler c hc).lines l (by simp [hl])).onMessage (s.client c.client)

/-- A client reads a line. -/
theorem Inv.reads (hs : Inv owner s) {i : ι} {c : Connection ι}
    (hstage : (s.client i).stage = .listening handler)
    (hc : s.connections.get handler = some c) {l : Text} {lines : List Text}
    (hl : c.toClient.lines = l :: lines) {c' : Client} {event : Option GameEvent}
    (honMessage : (s.client i).onMessage l = .ok (c', event)) :
    c'.stage = (s.client i).stage ∧
      Inv owner ((s.withConnection handler fun c => c.read lines).withClient i
        c'.afterMessage) := by
  obtain ⟨c'', event', honMessage', hstage', hid⟩ := hs.onMessage hstage hc hl
  obtain ⟨rfl, -⟩ := Prod.mk.inj (Except.ok.inj (honMessage.symm.trans honMessage'))
  refine ⟨hstage', ?_⟩
  have hread : Inv owner (s.withConnection handler fun c => c.read lines) := by
    refine hs.withConnection fun c' hc' => ?_
    obtain rfl := Option.some.inj (hc.symm.trans hc')
    exact ⟨rfl, fun h => h, .inl, (hs.sound handler c hc).read hl⟩
  refine hread.moves (fun id h => ?_) ?_
  · have hafter : c'.afterMessage.playerId = c'.playerId := by
      rw [Client.afterMessage]
      split_ifs <;> rfl
    rcases hid id (hafter ▸ h) with h | h
    · exact hs.playerId _ id h
    · exact h
  · rw [Client.afterMessage]
    split_ifs
    · exact .inl hstage'
    · exact .inr (.inr rfl)

/-! ## All the events -/

/-- Serving a command is one of the cases of `Served`, and its messages are what is sent. -/
theorem Inv.serving_emitted (hs : Inv owner s) (h : s.next (.serves handler choice) = some s') :
    ∃ c command commands server ms ok,
      Serving s handler choice s' c command commands server ms ok ∧
        (s.server.handle (.received handler command.line choice)).emitted = Server.wire ms ∧
        (s.server.handle (.received handler command.line choice)).state = server := by
  rw [System.next] at h
  cases hc : s.connections.get handler with
  | none => simp [hc] at h
  | some c =>
    simp only [hc] at h
    cases hcommands : c.toServer with
    | nil => simp [hcommands] at h
    | cons command commands =>
      simp only [hcommands] at h
      split_ifs at h with hguard
      obtain ⟨haccepted, -, hfresh⟩ := hguard
      -- The commands on a connection are well formed, so that `Served` says what they do.
      have hplain : command.HasPlainId := Command.hasPlainId fun id hid =>
        hs.server.uuids id ((hs.sound handler c hc).commands command (by simp [hcommands]) id hid).1
      have hwell := hs.server.handle (.received handler command.line choice) ⟨haccepted, hfresh⟩
      have hserved : s.server.HasServed handler choice command
          (s.server.handle (.received handler command.line choice)) := Server.served command hplain
      obtain ⟨ms, ok, hemitted, hresult, hserved⟩ := hserved
      refine ⟨c, command, commands, _, ms, ok, ⟨hc, hcommands, haccepted, hfresh, hwell, hserved,
        hresult, ?_⟩, hemitted, rfl⟩
      rw [hemitted, Server.handle_disconnected] at h
      cases ok with
      | true =>
        rw [hresult.2 rfl] at h
        exact (Option.some.inj h).symm
      | false =>
        obtain ⟨rfl, -, -⟩ := hserved.of_error
        split at h
        · rename_i heq
          exact absurd (hresult.1 heq) (by simp)
        · exact (Option.some.inj h).symm

/-- Serving a command is one of the cases of `Served`. -/
theorem Inv.serving (hs : Inv owner s) (h : s.next (.serves handler choice) = some s') :
    ∃ c command commands server ms ok,
      Serving s handler choice s' c command commands server ms ok := by
  obtain ⟨c, command, commands, server, ms, ok, hserving, -⟩ := hs.serving_emitted h
  exact ⟨c, command, commands, server, ms, ok, hserving⟩

/-- What the events of the server do. -/
inductive Answering (s : System ι) : Event ι → System ι → Prop
  /-- The server accepts a connection, or its dictionary changes. -/
  | silent (e : Event ι) (server : Server) : e.isSilent = true → server.players = s.server.players →
      server.uuids = s.server.uuids → s.server.clients ⊆ server.clients →
      Answering s e (s.serverDoes server [])
  | served (handler : ClientHandler) (choice : Choice) (s' : System ι) (c : Connection ι)
      (command : Command) (commands : List Command) (server : Server) (ms : List Server.Message)
      (ok : Bool) : Serving s handler choice s' c command commands server ms ok →
      Answering s (.serves handler choice) s'
  | dropped (handler : ClientHandler) : handler ∈ s.server.clients →
      Answering s (.dropped handler) ((s.serverDoes s.server
        (Server.wire (s.server.farewell handler))).withConnection handler .finish)
  | stopped : Answering s .stopped { s.serverDoes (s.server.withPlayers .empty)
      (Server.wire (s.server.announce .serverStopped)) with stopping := true }

/-- An event of the server is one of the cases of `Answering`. -/
theorem Inv.answering (hs : Inv owner s) : ∀ {e : Event ι}, e.isOfServer = true →
    s.next e = some s' → Answering s e s'
  | .accepted handler, _, h => by
    simp only [System.next] at h
    split_ifs at h
    obtain rfl := Option.some.inj h
    exact .silent _ _ rfl rfl rfl (List.subset_append_left ..)
  | .serves handler choice, _, h => by
    obtain ⟨c, command, commands, server, ms, ok, hserving⟩ := hs.serving h
    exact .served handler choice s' c command commands server ms ok hserving
  | .dropped handler, _, h => by
    simp only [System.next] at h
    split at h
    · split_ifs at h with hguard
      rw [Server.handle_disconnected] at h
      obtain rfl := Option.some.inj h
      exact .dropped handler hguard.1
    · cases h
  | .stopped, _, h => by
    simp only [System.next] at h
    split_ifs at h
    rw [Server.handle_stopped] at h
    obtain rfl := Option.some.inj h
    exact .stopped
  | .validated anamorphosis, _, h => by
    simp only [System.next] at h
    split_ifs at h
    obtain rfl := Option.some.inj h
    exact .silent _ _ rfl rfl rfl fun _ h => h
  | .drawn difficulty random, _, h => by
    obtain rfl := Option.some.inj h
    exact .silent _ _ rfl rfl rfl fun _ h => h

/-- What the events of the clients and of the network do. -/
inductive Acting (s : System ι) : Event ι → System ι → Prop
  | connectServer (i : ι) (playerName : Text) : (s.client i).stage = .idle →
      Acting s (.connectServer i playerName)
        (s.withClient i ((s.client i).connectServer playerName))
  | opens (i : ι) (handler : ClientHandler) : (s.client i).stage = .opening →
      s.connections.get handler = none → Acting s (.opens i handler)
        ({ s with connections := s.connections.put handler (.new i) .id }.withClient i
          { s.client i with stage := .opened handler })
  | refused (i : ι) : Acting s (.refused i) (s.withClient i (s.client i).failed)
  | introduces (i : ι) (handler : ClientHandler) : (s.client i).stage = .opened handler →
      Acting s (.introduces i) (((s.withClient i ((s.client i).introduced handler)).withConnection
        handler fun c => c.say (s.client i).introduction).closeIfOver i handler)
  /-- The line that a client reads is no exception. -/
  | reads (i : ι) (handler : ClientHandler) (c : Connection ι) (l : Text) (lines : List Text)
      (c' : Client) (event : Option GameEvent) : (s.client i).stage = .listening handler →
      s.connections.get handler = some c → c.toClient.lines = l :: lines →
      (s.client i).onMessage l = .ok (c', event) →
      Acting s (.reads i) (((s.withConnection handler fun c => c.read lines).withClient i
        c'.afterMessage).closeIfOver i handler)
  | hangsUp (i : ι) : Acting s (.hangsUp i) (s.withClient i (s.client i).failed)
  | toggleReady (i : ι) :
      Acting s (.toggleReady i) (s.say i (.ready (s.client i).playerId))
  | setFound (i : ι) (anamorphosis : Anamorphosis) :
      Acting s (.setFound i anamorphosis) (s.say i (.found anamorphosis))
  | startGame (i : ι) : Acting s (.startGame i) (s.say i .start)
  | sendRoomName (i : ι) (roomName : Text) :
      Acting s (.sendRoomName i roomName) (s.say i (.roomName roomName))
  | disconnect (i : ι) : Acting s (.disconnect i)
      ((s.say i .quit).withClient i { s.client i with running := false })
  | lost (handler : ClientHandler) : Acting s (.lost handler) (s.withConnection handler .lose)

/-- An event of the clients or of the network is one of the cases of `Acting`. -/
theorem Inv.acting (hs : Inv owner s) : ∀ {e : Event ι}, e.isOfServer = false →
    s.next e = some s' → Acting s e s'
  | .connectServer i playerName, _, h => by
    simp only [System.next] at h
    split at h
    · rename_i hstage
      obtain rfl := Option.some.inj h
      exact .connectServer i playerName hstage
    · cases h
  | .opens i handler, _, h => by
    simp only [System.next] at h
    split at h
    · rename_i hstage hnew
      obtain rfl := Option.some.inj h
      exact .opens i handler hstage hnew
    · cases h
  | .refused i, _, h => by
    simp only [System.next] at h
    split at h
    · obtain rfl := Option.some.inj h
      exact .refused i
    · cases h
  | .introduces i, _, h => by
    simp only [System.next] at h
    split at h
    · rename_i handler hstage
      obtain rfl := Option.some.inj h
      exact .introduces i handler hstage
    · cases h
  | .reads i, _, h => by
    simp only [System.next] at h
    split at h
    · rename_i handler hstage
      split at h
      · rename_i l lines hl
        obtain ⟨c, hc, hl⟩ := Option.map_eq_some_iff.1 hl
        obtain ⟨c', event, honMessage, -⟩ := hs.onMessage hstage hc hl
        simp only [honMessage, Option.some.injEq] at h
        exact h ▸ .reads i handler c l lines c' event hstage hc hl honMessage
      · cases h
    · cases h
  | .hangsUp i, _, h => by
    simp only [System.next] at h
    split at h
    · split_ifs at h
      obtain rfl := Option.some.inj h
      exact .hangsUp i
    · cases h
  | .toggleReady i, _, h => Option.some.inj h ▸ .toggleReady i
  | .setFound i anamorphosis, _, h => Option.some.inj h ▸ .setFound i anamorphosis
  | .startGame i, _, h => Option.some.inj h ▸ .startGame i
  | .sendRoomName i roomName, _, h => Option.some.inj h ▸ .sendRoomName i roomName
  | .disconnect i, _, h => Option.some.inj h ▸ .disconnect i
  | .lost handler, _, h => Option.some.inj h ▸ .lost handler

/-- The events of the clients and of the network keep the invariant. -/
theorem Inv.of_acting (hs : Inv owner s) {e : Event ι} (h : Acting s e s') : Inv owner s' := by
  cases h with
  | connectServer i playerName =>
    exact hs.moves (by simp [Client.connectServer]) (.inr (.inl rfl))
  | opens i handler hstage hnew =>
    refine (hs.opens i hnew).withClient (fun id h => hs.playerId i id h) (fun k h => ?_)
      fun k c hc _ h => ?_
    · obtain rfl : handler = k := Option.some.inj h
      exact ⟨.new i, by simp, rfl⟩
    · -- Nothing has been written on the new connection.
      obtain rfl : handler = k := Stage.opened.inj h
      obtain rfl : Connection.new i = c := by simpa using hc
      refine .inr ?_
      simp [Connection.introductions, Connection.new, Stream.start, hstage]
  | refused i | hangsUp i => exact hs.failed i
  | introduces i handler hstage => exact (hs.introduces hstage).closeIfOver i handler
  | reads i handler c l lines c' event hstage hc hl honMessage =>
    exact (hs.reads hstage hc hl honMessage).2.closeIfOver i handler
  | toggleReady i => exact hs.say (fun id h => h) rfl
  | setFound | startGame | sendRoomName => exact hs.say (by simp [Command.playerId]) rfl
  | disconnect i =>
    have hsay : Inv owner (s.say i .quit) := hs.say (by simp [Command.playerId]) rfl
    refine hsay.moves (fun id h => ?_) (.inl ?_)
    · exact hsay.playerId i id (by rw [client_say]; exact h)
    · rw [client_say]
  | lost handler => exact hs.lose handler

/-- Every event keeps the invariant. -/
theorem Inv.next (hs : Inv owner s) : ∀ {e : Event ι}, s.next e = some s' → ∃ owner', Inv owner' s'
  | .connectServer .., h | .opens .., h | .refused _, h | .introduces _, h | .reads _, h
  | .hangsUp _, h | .toggleReady _, h | .setFound .., h | .startGame _, h | .sendRoomName .., h
  | .disconnect _, h | .lost _, h => ⟨owner, hs.of_acting (hs.acting rfl h)⟩
  | .accepted handler, h => by
    simp only [System.next] at h
    split_ifs at h with hguard
    obtain ⟨-, hc, hnew⟩ := hguard
    obtain rfl := Option.some.inj h
    refine ⟨owner, hs.serverDoes [] (hs.server.handle (.accepted handler) hnew)
      (fun _ h => h) (fun _ h => List.mem_append_left _ h) (fun k hk => ?_) hs.bound
      fun _ _ _ => .inl fun m hm => absurd hm List.not_mem_nil⟩
    -- The handler is the one of a connection that its client has opened.
    rcases List.mem_append.1 hk with hk | hk
    · exact hs.accepted k hk
    · rw [List.mem_singleton.1 hk]
      exact Option.isSome_iff_exists.1 hc
  | .serves handler choice, h => by
    obtain ⟨c, command, commands, server, ms, ok, hserving⟩ := hs.serving h
    obtain ⟨owner', -, hs'⟩ := hserving.inv hs
    exact ⟨owner', hs'⟩
  | .dropped handler, h => by
    simp only [System.next] at h
    split at h
    · split_ifs at h
      rw [Server.handle_disconnected] at h
      obtain rfl := Option.some.inj h
      exact ⟨owner, (hs.news fun k m hm => hs.server.farewell_isNews hm).finish handler⟩
    · cases h
  | .stopped, h => by
    simp only [System.next] at h
    split_ifs at h
    have hwell := hs.server.handle .stopped trivial
    rw [Server.handle_stopped] at h hwell
    obtain rfl := Option.some.inj h
    have hstop := hs.serverDoes (s.server.announce .serverStopped) hwell (fun _ h => h)
      (fun _ h => h) hs.accepted (fun k p hp => absurd hp (by simp))
      fun k c hc => .inl fun m hm => .inl ?_
    · exact ⟨owner, hstop.server, hstop.accepted, hstop.admitted, hstop.bound, hstop.out,
        hstop.playerId, hstop.sound⟩
    · rw [(Server.mem_announce.1 (Server.mem_messagesTo.1 hm)).2]
      trivial
  | .validated anamorphosis, h => by
    simp only [System.next] at h
    split_ifs at h with hall
    obtain rfl := Option.some.inj h
    exact ⟨owner, hs.serverDoes [] (hs.server.handle (.validated anamorphosis) hall)
      (fun _ h => h) (fun _ h => h) hs.accepted hs.bound fun _ _ _ =>
        .inl fun m hm => absurd hm List.not_mem_nil⟩
  | .drawn difficulty random, h => by
    obtain rfl := Option.some.inj h
    exact ⟨owner, hs.serverDoes [] (hs.server.handle (.drawn difficulty random) trivial)
      (fun _ h => h) (fun _ h => h) hs.accepted hs.bound fun _ _ _ =>
        .inl fun m hm => absurd hm List.not_mem_nil⟩

/-- An event that may happen leads to the next state. -/
theorem next_of_enabled {e : Event ι} (he : (machine ι).Enabled s e) :
    s.next e = some ((machine ι).step s e) := by
  obtain ⟨s', hs'⟩ := Option.isSome_iff_exists.1 he
  have hstep : (machine ι).step s e = (s.next e).getD s := rfl
  rw [hstep, hs', Option.getD_some]

/-- The invariant holds in every reachable state. -/
theorem inv_of_reachable (hs : (machine ι).Reachable s) : ∃ owner, Inv owner s := by
  refine hs.invariant (I := fun s => ∃ owner, Inv owner s) ?_ fun s e ⟨owner, hs⟩ he =>
    hs.next (next_of_enabled he)
  rintro _ ⟨_, ⟨roomName, all, rfl⟩, rfl⟩
  have hwell := Server.wellFormed_of_reachable (.init ⟨roomName, all, rfl⟩)
  exact ⟨fun _ => none, hwell, nofun, nofun, nofun, nofun, nofun, nofun⟩

/-! ## A sample run -/

/-- The clients of the sample runs. -/
inductive SampleClient
  | host
  | guest
  deriving DecidableEq

/-- The handlers of their connections. -/
def host : ClientHandler := ⟨0, true⟩
def guest : ClientHandler := ⟨1, false⟩

/-- The handler of the second connection of the host. -/
def hostAgain : ClientHandler := ⟨2, true⟩

/-- A new server, and two clients. -/
def sampleSystem : System SampleClient := new Server.sampleServer

/-- A client connects. -/
def connects (i : SampleClient) (handler : ClientHandler) (n : ℕ) : List (Event SampleClient) :=
  [.connectServer i "player".toList, .opens i handler, .accepted handler, .introduces i,
    .serves handler (Server.sampleChoice n)]

/-- A client gets ready. -/
def getsReady (i : SampleClient) (handler : ClientHandler) : List (Event SampleClient) :=
  [.toggleReady i, .serves handler (Server.sampleChoice 7)]

/-- A client whose connection is lost reconnects, and the handlers process the `RECONNECT`
    and the loss. -/
def reconnects (i : SampleClient) (handler handler' : ClientHandler) : List (Event SampleClient) :=
  [.opens i handler', .accepted handler', .introduces i,
    .serves handler' (Server.sampleChoice 7), .reads i, .dropped handler]

/-- The host starts the game. -/
def hostStarts : List (Event SampleClient) :=
  [.startGame .host, .serves host (Server.sampleChoice 7)]

/-- The host and a guest have connected, and are ready. -/
def lobbyRun : List (Event SampleClient) :=
  connects .host host 0 ++ connects .guest guest 1 ++ getsReady .host host ++ getsReady .guest guest

/-- They read what has been written to them when the game starts. -/
def readsStart : List (Event SampleClient) :=
  List.replicate 7 (.reads .host) ++ List.replicate 6 (.reads .guest)

/-- The host and a guest start to play. -/
def sampleRun : List (Event SampleClient) := lobbyRun ++ hostStarts ++ readsStart

theorem isRun_sampleRun : (machine SampleClient).IsRun sampleSystem sampleRun where
  init := ⟨_, ⟨_, _, rfl⟩, rfl⟩
  enabled := by decide +kernel

end System

end Gaze
