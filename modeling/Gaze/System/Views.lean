import Gaze.System.Meanwhile

/-!
# The lists of players the clients hold

A client holds the last list of players it has read. It is that of the server, once
the client has read all its messages, as long as every change has been announced to
it. Two changes are not:

* a find that counts without any list being sent (`Server.Silent`): in the lobby or
  after the end of the game, or when it ends the main game and the first players
  have the same score;
* the changes a client has missed when it reconnects: a `RECONNECT` is not answered
  with a list.

`System.views_agree` shows that these are the only ones.
-/

namespace Gaze

open Java Protocol Client

namespace Server

variable {s s' : Server} {handler : ClientHandler} {choice : Choice} {c : Command}
  {ms : List Message}

/-- The find counts, but no list of players is sent. -/
def Silent (s : Server) (handler : ClientHandler) : Command → Prop
  | .found a => ∃ p ∈ s.players.get handler, s.gameState = .lobby ∨ s.gameState = .ended ∨
      s.gameState = .mainGame ∧ p.nbFoundAnamorphosis + 1 ≥ 4 ∧
        1 < (leaders (s.credited handler a.difficulty).players.values).length ∧
        (s.credited handler a.difficulty).unscored = false ∧
        s.anamorphDictionary.candidates .medium ≠ []
  | _ => False

instance (s : Server) (handler : ClientHandler) : ∀ c, Decidable (s.Silent handler c)
  | .found _ => inferInstanceAs (Decidable (∃ p ∈ s.players.get handler, _))
  | .connect _ | .reconnect _ | .ready _ | .start | .roomName _ | .quit =>
    inferInstanceAs (Decidable False)

/-- The command is a `RECONNECT` with the id of a player. -/
def Recognises (s : Server) : Command → Prop
  | .reconnect id => (s.getHandler (Command.format id)).isSome
  | _ => False

instance (s : Server) : ∀ c, Decidable (s.Recognises c)
  | .reconnect id => inferInstanceAs (Decidable ((s.getHandler (Command.format id)).isSome = true))
  | .connect _ | .ready _ | .found _ | .start | .roomName _ | .quit =>
    inferInstanceAs (Decidable False)

theorem shown_announce (hs : s.clients.Nodup) {k : ClientHandler} (hk : k ∈ s.clients)
    (m : ServerMessage) (players : List Player) :
    shown players (messagesTo k (s.announce m)) = m.list.getD players := by
  rw [messagesTo_announce hs, if_pos hk]
  rfl

/-- What the answers to a command make of a list of players: it becomes that of the
    server, or stays as it is. -/
theorem Served.lists (h : Served s handler choice c s' ms true) (hs : s.clients.Nodup)
    {k : ClientHandler} (hk : k ∈ s.clients) (players : List Player) :
    shown players (messagesTo k ms) = s'.players.values ∨
      shown players (messagesTo k ms) = players ∧ (s'.players = s.players ∨ s.Silent handler c ∨
        s.Recognises c ∧ ∃ k' p, s.players.get k' = some p ∧
          s'.players = (s.players.remove k').put handler p choice.arrangement) := by
  cases h with
  | accepted name =>
    refine .inl ?_
    have hlist := shown_announce (s := s.connected handler name choice) hs hk
      (.players (s.connected handler name choice).players.values)
    rw [messagesTo_cons, messagesTo_cons]
    split_ifs <;> exact hlist _
  | late | unknown | notReady =>
    refine .inr ⟨?_, .inl rfl⟩
    rw [messagesTo_cons]
    split_ifs <;> rfl
  | recognised id k' p hp hid =>
    -- The player moves to the handler, and nobody is told.
    refine .inr ⟨?_, .inr (.inr ⟨?_, k', p, hp, rfl⟩)⟩
    · rw [messagesTo_cons]
      split_ifs <;> rfl
    · rw [Recognises, Option.isSome_iff_ne_none, Ne, getHandler_eq_none_iff]
      exact fun hnone => hnone p (HashMap.mem_values.2 ⟨k', hp⟩) hid.symm
  | ignored | quit | roomKept => exact .inr ⟨rfl, .inl rfl⟩
  | started | roomNamed => exact .inr ⟨shown_announce hs hk _ _, .inl rfl⟩
  | ready | found | foundLast => exact .inl (shown_announce hs hk _ _)
  | foundOutside a p hp hphase =>
    exact .inr ⟨rfl, .inr (.inl ⟨p, hp, hphase.imp_right .inl⟩)⟩
  | foundTied a p dict drawn hp hphase hfour htie hscored hcandidates =>
    exact .inr ⟨shown_announce hs hk _ _, .inr (.inl ⟨p, hp, .inr (.inr
      ⟨hphase, hfour, htie, hscored, hcandidates⟩)⟩)⟩

end Server

namespace System

variable {ι : Type} {s s' : System ι} {owner : Text → Option ι}

/-- The lists of the clients, once they have read the lines written to them, are that of
    the server. -/
def WillAgree (s : System ι) : Prop := ∀ i k c, s.Hears i k c →
  (view (s.client i).players c.toClient.lines).Perm s.server.players.values

theorem WillAgree.meanwhile (h : s.WillAgree) (hm : Meanwhile s s') : s'.WillAgree := by
  intro i k c' hc'
  obtain ⟨c, hc, hview⟩ := hm.hears i k c' hc'
  rw [hview, hm.server]
  exact h i k c hc

/-- What messages make of the list of a client that hears the server. -/
theorem Hears.serverDoes (hs : Inv owner s) {server : Server} {ms : List Server.Message}
    {known : ι → Text → Prop} (htakes : ∀ k c, s.connections.get k = some c →
      c.Takes (known c.client) (s.client c.client).stage k (Server.messagesTo k ms))
    {i : ι} {k : ClientHandler} {c' : Connection ι}
    (h : (s.serverDoes server (Server.wire ms)).Hears i k c') : ∃ c, s.Hears i k c ∧
      view (s.client i).players c'.toClient.lines =
        shown (view (s.client i).players c.toClient.lines) (Server.messagesTo k ms) := by
  have hget := h.get
  rw [get_serverDoes, textsTo_wire] at hget
  obtain ⟨c, hc, rfl⟩ := Option.map_eq_some_iff.1 hget
  have hup : c.up = true := by simpa using h.up
  have hadmitted : c.admitted = true := by simpa using h.admitted
  refine ⟨c, ⟨h.stage, hc, hup, hadmitted⟩, ?_⟩
  -- An admitted connection has been introduced: nothing is refused on it.
  have hone := (hs.sound k c hc).introductions
  simp only [Connection.introductions, if_pos hadmitted] at hone
  have hstart : c.toClient.reader = LineReader.start := by
    by_contra hne
    rw [if_neg hne] at hone
    omega
  rcases htakes k c hc with hfit | ⟨m, -, -, hzero⟩
  · rw [Connection.tell, if_pos hup, Stream.writes_start (fun m hm => (hfit m hm).hasUuids)
      (fun m hm => (hfit m hm).isRefusal) hstart, view_append,
      view_lines fun m hm => (hfit m hm).isReadable]
  · simp only [Connection.introductions, if_pos hadmitted] at hzero
    omega

/-- The server announces its list of players. -/
theorem WillAgree.of_shown (hs : Inv owner s) {server : Server} {ms : List Server.Message}
    (known : ι → Text → Prop) (htakes : ∀ k c, s.connections.get k = some c →
      c.Takes (known c.client) (s.client c.client).stage k (Server.messagesTo k ms))
    (hshown : ∀ i k c, s.Hears i k c → (shown (view (s.client i).players c.toClient.lines)
      (Server.messagesTo k ms)).Perm server.players.values) :
    (s.serverDoes server (Server.wire ms)).WillAgree := by
  intro i k c' hc'
  obtain ⟨c, hc, hview⟩ := hc'.serverDoes hs htakes
  have hplayers : ((s.serverDoes server (Server.wire ms)).client i).players =
      (s.client i).players := rfl
  rw [hplayers, hview]
  exact hshown i k c hc

theorem WillAgree.congr (h : s.WillAgree) (hclient : s'.client = s.client)
    (hget : ∀ k, s'.connections.get k = s.connections.get k)
    (hplayers : s'.server.players = s.server.players) : s'.WillAgree := by
  intro i k c hc
  rw [hclient, hplayers]
  exact h i k c ⟨hclient ▸ hc.stage, hget k ▸ hc.get, hc.up, hc.admitted⟩

/-- A client that hears the server has been accepted. -/
theorem Hears.accepted (hs : Inv owner s) {i : ι} {k : ClientHandler} {c : Connection ι}
    (h : s.Hears i k c) : k ∈ s.server.clients := hs.admitted k c h.get h.admitted

/-- When a handler ends, the list is announced, or has not changed. -/
theorem WillAgree.farewell (hs : Inv owner s) {server : Server} (hwell : server.WellFormed)
    (hclients : server.clients = s.server.clients) (handler : ClientHandler)
    (h : server.players.containsKey handler = false → s.WillAgree ∧ server = s.server) :
    (s.serverDoes server (Server.wire (server.farewell handler))).WillAgree := by
  refine .of_shown hs (fun _ _ => True) (fun k c _ => .inl fun m hm => .inl
    (hwell.farewell_isNews (Server.mem_messagesTo.1 hm))) fun i k c hc => ?_
  cases hbound : server.players.containsKey handler with
  | true =>
    rw [Server.farewell, if_pos hbound,
      Server.shown_announce hwell.nodup (hclients ▸ hc.accepted hs)]
    exact .rfl
  | false =>
    obtain ⟨hagree, rfl⟩ := h hbound
    rw [Server.farewell, if_neg (by simp [hbound])]
    exact hagree i k c hc

/-- The client of a connection, if it listens to it, will hold the list of the server. -/
def UpToDate (s : System ι) (handler : ClientHandler) (c : Connection ι) : Prop :=
  (s.client c.client).stage = .listening handler → c.up = true →
    (view (s.client c.client).players c.toClient.lines).Perm s.server.players.values

/-- No command is served that is a silent find, or the `RECONNECT` of a client that has
    missed a change. -/
def KeepsViews (s : System ι) : Event ι → Prop
  | .serves handler _ => ∀ c ∈ s.connections.get handler, ∀ command ∈ c.toServer.head?,
      ¬s.server.Silent handler command ∧ (s.server.Recognises command → s.UpToDate handler c)
  | _ => True

instance (s : System ι) (handler : ClientHandler) (c : Connection ι) :
    Decidable (s.UpToDate handler c) :=
  inferInstanceAs (Decidable (_ → _ → List.Perm _ _))

instance (s : System ι) : ∀ e, Decidable (s.KeepsViews e)
  | .serves handler _ => inferInstanceAs (Decidable (∀ c ∈ s.connections.get handler,
      ∀ command ∈ c.toServer.head?, _ ∧ (_ → s.UpToDate handler c)))
  | .connectServer _ _ | .opens _ _ | .refused _ | .introduces _ | .reads _ | .hangsUp _
  | .toggleReady _ | .setFound _ _ | .startGame _ | .sendRoomName _ _ | .disconnect _ | .lost _
  | .accepted _ | .dropped _ | .stopped | .validated _ | .drawn _ _ =>
    inferInstanceAs (Decidable True)

/-- Serving a command without exception keeps the views. -/
theorem WillAgree.serving (h : s.WillAgree) (hs : Inv owner s) {handler : ClientHandler}
    {choice : Choice} {c : Connection ι} {command : Command} {commands : List Command}
    {server : Server} {ms : List Server.Message}
    (hserving : Serving s handler choice s' c command commands server ms true)
    (hkeeps : s.KeepsViews (.serves handler choice)) : s'.WillAgree := by
  obtain ⟨owner', hnew, -, hs'⟩ := hs.exists_owner hserving.fresh c.client
  have hmid := hserving.inv_withServed hs' hnew
  obtain ⟨hsilent, hrecognises⟩ := hkeeps c hserving.get command
    (by rw [hserving.toServer]; rfl)
  rw [hserving.next, if_pos rfl]
  refine .of_shown hmid _ (fun k c' hc' => hserving.takes hs' hnew hc') fun i k c' hc' => ?_
  -- The connection is admitted already, or has just been introduced.
  obtain ⟨c₀, hc₀, hstream, hup, hadmitted⟩ : ∃ c₀, s.connections.get k = some c₀ ∧
      c'.toClient = c₀.toClient ∧ c₀.up = true ∧
      (c₀.admitted = true ∨ k = handler ∧ (server.players.get handler).isSome) := by
    have hget := hc'.get
    rw [withServed, get_withConnection] at hget
    split_ifs at hget with hk
    · obtain ⟨c₀, hc₀, rfl⟩ := Option.map_eq_some_iff.1 hget
      refine ⟨c₀, hc₀, rfl, hc'.up, ?_⟩
      simpa [Connection.served, hk] using hc'.admitted
    · exact ⟨c', hget, rfl, hc'.up, .inl hc'.admitted⟩
  have hk : k ∈ s.server.clients := hc'.accepted hmid
  have hstage : (s.client i).stage = .listening k := hc'.stage
  rw [show ((s.withServed handler commands server).client i) = s.client i from rfl, hstream]
  rcases hserving.served.lists hs.server.nodup hk (view (s.client i).players c₀.toClient.lines) with
    htold | ⟨hsame, hkept | hfind | ⟨hknown, k', p, hp, hmoved⟩⟩
  · rw [htold]
  · rw [hsame, hkept]
    refine h i k c₀ ⟨hstage, hc₀, hup, ?_⟩
    rcases hadmitted with hadmitted | ⟨rfl, hbound⟩
    · exact hadmitted
    · rw [hkept] at hbound
      obtain ⟨p, hp⟩ := Option.isSome_iff_exists.1 hbound
      obtain ⟨c₁, hc₁, hadmitted, -⟩ := hs.bound k p hp
      rwa [Option.some.inj (hc₀.symm.trans hc₁)]
  -- A find that is not announced is excluded.
  · exact absurd hfind hsilent
  · rw [hsame, hmoved]
    have hintro : command.isIntroduction = true := by
      cases command with
      | reconnect => rfl
      | _ => exact hknown.elim
    -- A player that is recognised moves in the map: the players are those of before.
    have hvalues := HashMap.values_remove_put_perm hp (hserving.unbound hs hintro)
      choice.arrangement
    refine List.Perm.trans ?_ hvalues.symm
    rcases hadmitted with hadmitted | ⟨rfl, -⟩
    · exact h i k c₀ ⟨hstage, hc₀, hup, hadmitted⟩
    · obtain rfl := Option.some.inj (hserving.get.symm.trans hc₀)
      obtain ⟨c₁, hc₁, rfl⟩ := hs.out i k (by rw [Client.out, hstage])
      obtain rfl := Option.some.inj (hserving.get.symm.trans hc₁)
      exact hrecognises hknown hstage hup

/-- The events that announce the changes keep the views. -/
theorem WillAgree.next [DecidableEq ι] (h : s.WillAgree) (hs : Inv owner s) {e : Event ι}
    (hkeeps : s.KeepsViews e) (hnext : s.next e = some s') : s'.WillAgree := by
  cases he : e.isOfServer with
  | false => exact h.meanwhile (hs.meanwhile he hnext)
  | true =>
    cases hs.answering he hnext with
    | silent _ server _ hplayers => exact h.congr rfl (fun k => get_serverDoes_nil ..) hplayers
    | served handler choice _ c command commands server ms ok hserving =>
      cases ok with
      | true => exact h.serving hs hserving hkeeps
      | false =>
        -- The exception ends the handler, whose player is then announced with the others.
        obtain ⟨-, -, hbound⟩ := hserving.served.of_error
        rw [hserving.next, if_neg (by decide)]
        have hlist := WillAgree.farewell hs hserving.wellFormed hserving.served.clients_eq handler
          fun hunbound => absurd hbound (by simp [hunbound])
        have htwice : ((s.serverDoes server []).serverDoes server
            (Server.wire (server.farewell handler))).WillAgree := by
          refine hlist.congr rfl (fun k => ?_) rfl
          rw [get_serverDoes, get_serverDoes_nil, get_serverDoes]
        exact htwice.meanwhile (.finish handler)
    | dropped handler =>
      exact (WillAgree.farewell hs hs.server rfl handler fun _ => ⟨h, rfl⟩).meanwhile
        (.finish handler)
    | stopped =>
      have hstop : (s.serverDoes (s.server.withPlayers .empty)
          (Server.wire (s.server.announce .serverStopped))).WillAgree := by
        refine .of_shown hs (fun _ _ => True)
          (fun k c _ => .inl fun m hm => .inl ?_) fun i k c hc => ?_
        · rw [(Server.mem_announce.1 (Server.mem_messagesTo.1 hm)).2]
          trivial
        · rw [Server.shown_announce hs.server.nodup (hc.accepted hs)]
          exact .rfl
      exact hstop.congr rfl (fun k => rfl) rfl

/-- A client that hears the server, and has read all that was written to it, holds the list
    of the server. -/
def ViewsAgree (s : System ι) : Prop := ∀ i k c, s.Hears i k c → c.toClient.lines = [] →
  (s.client i).players.Perm s.server.players.values

/-- In the runs without silent finds, and where no client reconnects that has missed a
    change, the lists of the clients are that of the server. -/
theorem views_agree [DecidableEq ι] {es : List (Event ι)} (h : (machine ι).IsRun s es)
    (hkeeps : (machine ι).Along KeepsViews s es) : ((machine ι).after s es).ViewsAgree := by
  have hagree : ((machine ι).after s es).WillAgree := by
    refine h.invariant_of_along hkeeps ?_ fun s e hreach hI he hkeeps => ?_
    · rintro _ ⟨server, -, rfl⟩ i k c hc
      exact absurd hc.stage (by simp [System.new, Client.new])
    · obtain ⟨owner, hs⟩ := inv_of_reachable hreach
      exact hI.next hs hkeeps (next_of_enabled he)
  intro i k c hc hlines
  have hperm := hagree i k c hc
  rwa [hlines] at hperm

theorem sampleRun_views_agree : ((machine SampleClient).after sampleSystem sampleRun).ViewsAgree :=
  views_agree isRun_sampleRun (by decide +kernel)

/-- The host gets ready, loses its connection before it reads that it is, and
    reconnects. -/
def missedRun : List (Event SampleClient) :=
  connects .host host 0 ++ List.replicate 3 (.reads .host) ++
    [.toggleReady .host, .lost host, .serves host (Server.sampleChoice 7), .hangsUp .host] ++
    reconnects .host host hostAgain

/-- The host does not know that it is ready, though no message is in flight. -/
theorem missed_change : ¬∀ s es, (machine SampleClient).IsRun s es →
    ((machine SampleClient).after s es).Quiescent →
      ((machine SampleClient).after s es).ViewsAgree := by
  intro h
  have hrun : (machine SampleClient).IsRun sampleSystem missedRun :=
    ⟨⟨_, ⟨_, _, rfl⟩, rfl⟩, by decide +kernel⟩
  have hagree := h _ _ hrun (by decide +kernel)
  have hhears :
      (((machine SampleClient).after sampleSystem missedRun).connections.get hostAgain).any
        (fun c => c.up && c.admitted && decide (c.toClient.lines = [])) = true := by decide +kernel
  obtain ⟨c, hc, hall⟩ := (Option.any_eq_true ..).1 hhears
  obtain ⟨⟨hup, hadmitted⟩, hlines⟩ :
      (c.up = true ∧ c.admitted = true) ∧ c.toClient.lines = [] := by simpa using hall
  have hperm := hagree .host hostAgain c ⟨by decide +kernel, hc, hup, hadmitted⟩ hlines
  exact absurd hperm (by decide +kernel)

end System

end Gaze
