import Gaze.System.Players

/-!
# The commands on their way

What the clients have written and the server has not read yet.

* `System.Inv.pending_next`: during the events of the clients and of the network, only
  what they write is added.
* `System.Serving.pending`: when a command is served, it goes, and those after it go
  too if an exception escapes.
* `System.onePlayer_of_reachable`: a client asks for a player once, and has one player
  at most.
-/

namespace Gaze

open Java Protocol

/-- The command asks for a new player. -/
def Command.isConnect : Command → Bool
  | connect _ => true
  | _ => false

/-- The client has not asked for a player yet. -/
def Client.isNewborn (c : Client) : Bool :=
  match c.stage with
  | .idle => true
  | .opening | .opened _ => !c.reconnecting
  | .listening _ | .ended => false

namespace System

variable {ι : Type} [DecidableEq ι] {s s' : System ι} {owner : Text → Option ι}
  {q : Command → Bool}

/-! ## The commands on their way -/

/-- How many commands of a kind a client has on their way to the server. -/
def pending (s : System ι) (q : Command → Bool) (i : ι) : ℕ :=
  s.connections.sum fun c => if c.client = i then c.toServer.countP q else 0

theorem pending_new (server : Server) (i : ι) : (new server).pending q i = 0 := rfl

/-- The client has a stream, and its connection is not lost. -/
def canWrite (s : System ι) (i : ι) : Bool :=
  (s.client i).out.any fun handler => (s.connections.get handler).any Connection.up

/-- The command a client writes in an event, or tries to. -/
def said (s : System ι) : Event ι → Option (ι × Command)
  | .introduces i => some (i, (s.client i).introduction)
  | .toggleReady i => some (i, .ready (s.client i).playerId)
  | .setFound i anamorphosis => some (i, .found anamorphosis)
  | .startGame i => some (i, .start)
  | .sendRoomName i roomName => some (i, .roomName roomName)
  | .disconnect i => some (i, .quit)
  | _ => none

/-- How many commands of a kind a client writes in an event. -/
def written (s : System ι) (q : Command → Bool) (i : ι) (e : Event ι) : ℕ :=
  match s.said e with
  | some (j, command) => if j = i ∧ s.canWrite i = true ∧ q command = true then 1 else 0
  | none => 0

/-- Nothing is on its way when no message is in flight. -/
theorem Quiescent.pending (h : s.Quiescent) (i : ι) : s.pending q i = 0 := by
  refine List.sum_eq_zero fun n hn => ?_
  obtain ⟨c, hc, rfl⟩ := List.mem_map.1 hn
  rw [(h c hc).1]
  exact ite_self 0

theorem pending_withConnection {handler : ClientHandler} {c : Connection ι}
    (hc : s.connections.get handler = some c) {f : Connection ι → Connection ι}
    (hf : (f c).client = c.client) (i : ι) :
    (s.withConnection handler f).pending q i + (if c.client = i then c.toServer.countP q else 0) =
      s.pending q i + (if c.client = i then (f c).toServer.countP q else 0) := by
  have hsum := HashMap.sum_replace hc f fun c => if c.client = i then c.toServer.countP q else 0
  rwa [hf] at hsum

/-- A connection whose commands stay the same. -/
theorem pending_withConnection_of_eq {handler : ClientHandler} {f : Connection ι → Connection ι}
    (hf : ∀ c, (f c).client = c.client ∧ (f c).toServer = c.toServer) (i : ι) :
    (s.withConnection handler f).pending q i = s.pending q i :=
  HashMap.sum_replace_of_eq _ _ fun c => by rw [(hf c).1, (hf c).2]

theorem pending_serverDoes (server : Server) (sent : List Sent) (i : ι) :
    (s.serverDoes server sent).pending q i = s.pending q i :=
  HashMap.sum_mapValues _ fun k c => by simp

/-- A client writes a command, if it can. -/
theorem pending_say {j : ι} {handler : ClientHandler} {c : Connection ι}
    (hout : (s.client j).out = some handler) (hc : s.connections.get handler = some c)
    (hclient : c.client = j) (command : Command) (i : ι) :
    (s.withConnection handler fun c => c.say command).pending q i = s.pending q i +
      if j = i ∧ s.canWrite i = true ∧ q command = true then 1 else 0 := by
  have h := pending_withConnection (q := q) (f := fun c => c.say command) hc
    (c.say_client command) i
  rw [c.say_toServer] at h
  -- A command written on a lost connection goes nowhere.
  by_cases hj : j = i
  · subst hj
    have hcan : s.canWrite j = c.up := by simp [canWrite, hout, hc]
    rw [if_pos hclient, if_pos hclient] at h
    rw [hcan]
    cases hup : c.up with
    | true =>
      rw [hup, if_pos rfl, List.countP_append, List.countP_singleton] at h
      simp only [true_and]
      omega
    | false =>
      rw [hup, if_neg (by decide)] at h
      simp only [Bool.false_eq_true, false_and, and_false, if_false]
      omega
  · have hne : c.client ≠ i := fun heq => hj (hclient.symm.trans heq)
    rw [if_neg hne, if_neg hne] at h
    simp only [hj, false_and, if_false]
    exact h

/-- The command of a client is on its way, if the client can write it. -/
theorem Inv.pending_say (hs : Inv owner s) (j : ι) (command : Command) (i : ι) :
    (s.say j command).pending q i = s.pending q i +
      if j = i ∧ s.canWrite i = true ∧ q command = true then 1 else 0 := by
  rw [System.say]
  cases hout : (s.client j).out with
  | none =>
    have hnot : ¬(j = i ∧ s.canWrite i = true ∧ q command = true) := by
      rintro ⟨rfl, hcan, -⟩
      simp [canWrite, hout] at hcan
    rw [if_neg hnot]
    rfl
  | some handler =>
    obtain ⟨c, hc, hclient⟩ := hs.out j handler hout
    exact System.pending_say hout hc hclient command i

theorem pending_closeIfOver (j : ι) (handler : ClientHandler) (i : ι) :
    (s.closeIfOver j handler).pending q i = s.pending q i := by
  rw [closeIfOver]
  split_ifs
  · exact pending_withConnection_of_eq (f := .lose) (fun c => ⟨rfl, rfl⟩) i
  · rfl

/-- While the server does nothing, the commands on their way are those of before, and
    those that are written. -/
theorem Inv.pending_next (hs : Inv owner s) (i : ι) {e : Event ι} (he : e.isOfServer = false)
    (hnext : s.next e = some s') : s'.pending q i = s.pending q i + s.written q i e := by
  cases hs.acting he hnext with
  | connectServer | refused | hangsUp => rfl
  | opens j handler _ hnew =>
    -- Nothing is on its way on the new connection.
    have hsum := HashMap.sum_put hnew (Connection.new j) .id
      fun c => if c.client = i then c.toServer.countP q else 0
    have hnone : (if j = i then List.countP q [] else 0) = 0 := by split_ifs <;> rfl
    exact hsum.trans (by rw [Nat.add_comm]; exact congrArg (s.pending q i + ·) hnone)
  | introduces j handler hstage =>
    have hout : (s.client j).out = some handler := by rw [Client.out, hstage]
    obtain ⟨c, hc, hclient⟩ := hs.out j handler hout
    rw [pending_closeIfOver]
    exact System.pending_say hout hc hclient _ i
  | reads j handler c l lines =>
    rw [pending_closeIfOver]
    exact pending_withConnection_of_eq (f := fun c => c.read lines) (fun c => ⟨rfl, rfl⟩) i
  | toggleReady j | setFound j | startGame j | sendRoomName j | disconnect j =>
    exact hs.pending_say j _ i
  | lost handler => exact pending_withConnection_of_eq (f := .lose) (fun c => ⟨rfl, rfl⟩) i

/-- When a handler ends, the commands on their way to it are gone. -/
theorem pending_dropped {handler : ClientHandler} {c : Connection ι}
    (hc : s.connections.get handler = some c) (server : Server) (sent : List Sent) (i : ι) :
    ((s.serverDoes server sent).withConnection handler .finish).pending q i +
      (if c.client = i then c.toServer.countP q else 0) = s.pending q i := by
  have hfinish := pending_withConnection (q := q) (s := s.serverDoes server sent) (f := .finish)
    (by rw [get_serverDoes, hc]; rfl) rfl i
  rw [Connection.tell_client, Connection.tell_toServer, pending_serverDoes] at hfinish
  change _ = _ + (if c.client = i then 0 else 0) at hfinish
  rwa [ite_self, Nat.add_zero] at hfinish

/-- What becomes of the commands on their way when the server serves one of them. -/
theorem Serving.pending {handler : ClientHandler} {choice : Choice} {c : Connection ι}
    {command : Command} {commands : List Command} {server : Server} {ms : List Server.Message}
    {ok : Bool} (h : Serving s handler choice s' c command commands server ms ok) (i : ι) :
    s'.pending q i + (if c.client = i then
      (if q command then 1 else 0) + (if ok then 0 else commands.countP q) else 0) =
      s.pending q i := by
  have hcount : c.toServer.countP q = (if q command then 1 else 0) + commands.countP q := by
    rw [h.toServer, List.countP_cons, Nat.add_comm]
  generalize (if q command = true then 1 else 0) = n at hcount ⊢
  rw [h.next]
  cases ok with
  | true =>
    have hserved := pending_withConnection (q := q) h.get
      (f := fun c => c.served commands (server.players.get handler).isSome) rfl i
    change _ = _ + (if c.client = i then commands.countP q else 0) at hserved
    simp only [if_true]
    rw [pending_serverDoes, withServed]
    split_ifs at hserved ⊢ <;> omega
  | false =>
    -- An exception ends the handler: the commands that follow are gone as well.
    have hdropped := pending_dropped (q := q) (s := s.serverDoes server [])
      ((get_serverDoes_nil ..).trans h.get) server (Server.wire (server.farewell handler)) i
    rw [pending_serverDoes] at hdropped
    simp only [Bool.false_eq_true, if_false]
    split_ifs at hdropped ⊢ <;> omega

/-! ## One player for each client -/

/-- How many times a client will ask, or is asking, for a player. -/
def requests (s : System ι) (i : ι) : ℕ :=
  (if (s.client i).isNewborn then 1 else 0) + s.pending Command.isConnect i

/-- A client that asks for a player is not newborn any more. -/
theorem Inv.newborn_next (hs : Inv owner s) (i : ι) {e : Event ι} (he : e.isOfServer = false)
    (hnext : s.next e = some s') :
    (if (s'.client i).isNewborn then 1 else 0) + s.written Command.isConnect i e ≤
      if (s.client i).isNewborn then 1 else 0 := by
  cases hs.acting he hnext with
  | connectServer j playerName hstage =>
    by_cases hi : i = j
    · subst hi
      simp [Client.isNewborn, Client.connectServer, written, said, hstage]
    · simp [client_withClient_of_ne hi, written, said]
  | opens j handler hstage =>
    by_cases hi : i = j
    · subst hi
      simp [Client.isNewborn, written, said, hstage]
    · simp [client_withClient_of_ne hi, written, said]
  | refused j | hangsUp j =>
    by_cases hi : i = j
    · subst hi
      simp [Client.isNewborn, Client.failed, written, said]
    · simp [client_withClient_of_ne hi, written, said]
  | introduces j handler hstage =>
    rw [client_closeIfOver]
    change (if ((s.withClient j _).client i).isNewborn then 1 else 0) + _ ≤ _
    by_cases hi : i = j
    · -- It only asks for a player if it is newborn, and then it is not any more.
      subst hi
      have hafter : ((s.client i).introduced handler).isNewborn = false := by
        rw [Client.introduced, Client.isNewborn]
        dsimp only
        split_ifs <;> rfl
      have hnewborn : (s.client i).isNewborn = !(s.client i).reconnecting := by
        rw [Client.isNewborn, hstage]
      rw [client_withClient, hafter, hnewborn, written, said, Client.introduction]
      cases (s.client i).reconnecting with
      | true => simp [Command.isConnect]
      | false =>
        simp only [Bool.not_false, Bool.false_eq_true, if_false, if_true, Nat.zero_add]
        split_ifs
        · exact le_rfl
        · exact Nat.zero_le 1
    · rw [client_withClient_of_ne hi, written, said]
      simp [Ne.symm hi]
  | reads j handler c l lines c' event hstage hc hl honMessage =>
    rw [client_closeIfOver]
    by_cases hi : i = j
    · subst hi
      have hstage' := (hs.reads hstage hc hl honMessage).1
      have hafter : c'.afterMessage.isNewborn = false := by
        rw [Client.afterMessage]
        split_ifs
        · rw [Client.isNewborn, hstage', hstage]
        · rfl
      simp [hafter, written, said]
    · rw [client_withClient_of_ne hi]
      exact le_rfl
  | toggleReady j | setFound j | startGame j | sendRoomName j =>
    simp [written, said, Command.isConnect]
  | disconnect j =>
    by_cases hi : i = j
    · subst hi
      simp only [client_withClient, written, said, Command.isConnect, Bool.false_eq_true, and_false,
        if_false, Nat.add_zero]
      exact le_rfl
    · simp [client_withClient_of_ne hi, written, said, Command.isConnect]
  | lost handler => exact le_rfl

/-- A client has one player: it asks for it once, and before it has one. -/
structure OnePlayer (s : System ι) : Prop where
  requests : ∀ i, s.requests i ≤ 1
  admitted : ∀ i, s.Admitted i → s.requests i = 0
  single : ∀ k k' p p' c c', s.server.players.get k = some p →
    s.server.players.get k' = some p' → s.connections.get k = some c →
    s.connections.get k' = some c' → c.client = c'.client → k = k'

theorem OnePlayer.mono (h : s.OnePlayer) (hrequests : ∀ i, s'.requests i ≤ s.requests i)
    (hadmitted : ∀ i, s'.Admitted i → s.Admitted i ∨ s'.requests i = 0)
    (hsingle : ∀ k k' p p' c c', s'.server.players.get k = some p →
      s'.server.players.get k' = some p' → s'.connections.get k = some c →
      s'.connections.get k' = some c' → c.client = c'.client → k = k') : s'.OnePlayer where
  requests i := (hrequests i).trans (h.requests i)
  admitted i hi := by
    rcases hadmitted i hi with hi | hzero
    · exact Nat.le_zero.1 ((hrequests i).trans (h.admitted i hi).le)
    · exact hzero
  single := hsingle

theorem OnePlayer.of_stays (h : s.OnePlayer) (hs : Inv owner s) (hstays : s.Stays s')
    (hrequests : ∀ i, s'.requests i ≤ s.requests i) : s'.OnePlayer := by
  refine h.mono hrequests (fun i hi => .inl ?_) ?_
  · obtain ⟨k, c', hc', rfl, hadmitted⟩ := hi
    obtain ⟨c, hc, hclient, hadmitted'⟩ := hstays.connection hc' (.inr hadmitted)
    exact ⟨k, c, hc, hclient.symm, hadmitted'.symm.trans hadmitted⟩
  · have hold : ∀ {k p c'}, s'.server.players.get k = some p → s'.connections.get k = some c' →
        ∃ c, s.connections.get k = some c ∧ c'.client = c.client := by
      intro k p c' hp hc'
      obtain ⟨c₀, hc₀, -⟩ := hs.bound k p (hstays.players k p hp)
      obtain ⟨c, hc, hclient, -⟩ := hstays.connection hc' (.inl (by simp [hc₀]))
      exact ⟨c, hc, hclient⟩
    intro k k' p p' c c' hp hp' hc hc' heq
    obtain ⟨c₀, hc₀, hclient⟩ := hold hp hc
    obtain ⟨c₀', hc₀', hclient'⟩ := hold hp' hc'
    exact h.single k k' p p' c₀ c₀' (hstays.players k p hp) (hstays.players k' p' hp') hc₀ hc₀'
      (hclient.symm.trans (heq.trans hclient'))

/-- The events of the clients and of the network keep one player for each client. -/
theorem OnePlayer.meanwhile (h : s.OnePlayer) (hs : Inv owner s) {e : Event ι}
    (he : e.isOfServer = false) (hnext : s.next e = some s') : s'.OnePlayer := by
  refine h.of_stays hs (hs.meanwhile he hnext).stays fun i => ?_
  have hpending := hs.pending_next (q := Command.isConnect) i he hnext
  have hnewborn := hs.newborn_next i he hnext
  rw [System.requests, System.requests, hpending]
  omega

/-- Once a command is served, a connection is bound to a player of its client that was
    already bound to it, or is the one that has been served. -/
theorem Serving.newcomer (h : s.OnePlayer) (hs : Inv owner s) {handler : ClientHandler}
    {choice : Choice} {c : Connection ι} {command : Command} {commands : List Command}
    {server : Server} {ms : List Server.Message} {ok : Bool}
    (hserving : Serving s handler choice s' c command commands server ms ok)
    {k k' : ClientHandler} {p p' q : Player} {c₀ c₀' : Connection ι}
    (hp : server.players.get k = some p) (hq : s.server.players.get k = some q)
    (hid : p.playerId = q.playerId) (hp' : server.players.get k' = some p')
    (hc₀ : s.connections.get k = some c₀) (hc₀' : s.connections.get k' = some c₀')
    (heq : c₀.client = c₀'.client) : k = k' := by
  obtain ⟨c₁, hc₁, hadmitted, -⟩ := hs.bound k q hq
  obtain rfl := Option.some.inj (hc₀.symm.trans hc₁)
  cases hserving.served.binding hp' with
  | kept q' hq' => exact h.single k k' q q' c₀ c₀' hq hq' hc₀ hc₀' heq
  | created name hk hcommand =>
    -- The client asks for a player, and has one.
    subst hk hcommand
    obtain rfl := Option.some.inj (hserving.get.symm.trans hc₀')
    have hpending := hserving.pending (q := Command.isConnect) c.client
    have hzero := h.admitted c.client ⟨k, c₀, hc₀, heq, hadmitted⟩
    rw [System.requests] at hzero
    simp only [if_true, Command.isConnect] at hpending
    omega
  | moved id k₀ hk hcommand hold hformat =>
    subst hk hcommand
    obtain rfl := Option.some.inj (hserving.get.symm.trans hc₀')
    obtain ⟨c₂, hc₂, -, howner⟩ := hs.bound k₀ p' hold
    have howner' := hs.owner_of_format hserving.get hold
      (hserving.toServer ▸ List.mem_cons_self ..) hformat
    have hclient : c₂.client = c.client := Option.some.inj (howner.symm.trans howner')
    obtain rfl := h.single k k₀ q p' c₀ c₂ hq hold hc₀ hc₂ (heq.trans hclient.symm)
    obtain rfl := Option.some.inj (hq.symm.trans hold)
    exact hserving.wellFormed.distinct k k' p q hp hp' hid

theorem OnePlayer.serving (h : s.OnePlayer) (hs : Inv owner s) {handler : ClientHandler}
    {choice : Choice} {c : Connection ι} {command : Command} {commands : List Command}
    {server : Server} {ms : List Server.Message} {ok : Bool}
    (hserving : Serving s handler choice s' c command commands server ms ok) : s'.OnePlayer := by
  obtain ⟨hserver, -, hclient⟩ := hserving.after
  -- Serving a `CONNECT` uses the only request of its client.
  have hrequests : ∀ i, s'.requests i + (if c.client = i then
      (if command.isConnect then 1 else 0) else 0) ≤ s.requests i := by
    intro i
    have hpending := hserving.pending (q := Command.isConnect) i
    rw [System.requests, System.requests, hclient]
    split_ifs at hpending ⊢ <;> omega
  refine h.mono (fun i => (Nat.le_add_right ..).trans (hrequests i)) (fun i hi => ?_) ?_
  · obtain ⟨k, c', hc', rfl, hadmitted'⟩ := hi
    obtain ⟨c₀, hc₀, hclient₀, hadmitted⟩ := hserving.connection hc'
    rcases hadmitted hadmitted' with hadmitted | hbound
    · exact .inl ⟨k, c₀, hc₀, hclient₀.symm, hadmitted⟩
    · obtain ⟨p, hp⟩ := Option.isSome_iff_exists.1 hbound
      cases hserving.served.binding hp with
      | kept q hq =>
        obtain ⟨c₁, hc₁, hadmitted, -⟩ := hs.bound k q hq
        obtain rfl := Option.some.inj (hc₀.symm.trans hc₁)
        exact .inl ⟨k, c₀, hc₀, hclient₀.symm, hadmitted⟩
      | created name hk hcommand =>
        subst hk hcommand
        obtain rfl := Option.some.inj (hserving.get.symm.trans hc₀)
        have hone := (hrequests c'.client).trans (h.requests c'.client)
        rw [if_pos hclient₀.symm, Command.isConnect, if_pos rfl] at hone
        exact .inr (by omega)
      | moved id k₀ hk hcommand hold hformat =>
        subst hk hcommand
        obtain rfl := Option.some.inj (hserving.get.symm.trans hc₀)
        obtain ⟨c₂, hc₂, hadmitted, howner⟩ := hs.bound k₀ p hold
        have howner' := hs.owner_of_format hserving.get hold
          (hserving.toServer ▸ List.mem_cons_self ..) hformat
        exact .inl ⟨k₀, c₂, hc₂,
          (Option.some.inj (howner.symm.trans howner')).trans hclient₀.symm, hadmitted⟩
  · intro k k' p p' c₁ c₁' hp hp' hc₁ hc₁' heq
    rw [hserver] at hp hp'
    obtain ⟨c₀, hc₀, hclient₀, -⟩ := hserving.connection hc₁
    obtain ⟨c₀', hc₀', hclient₀', -⟩ := hserving.connection hc₁'
    have heq₀ : c₀.client = c₀'.client := hclient₀.symm.trans (heq.trans hclient₀')
    -- A player is new on the handler that has been served, and nowhere else.
    have hnew : ∀ {k p}, server.players.get k = some p → k = handler ∨
        ∃ q, s.server.players.get k = some q ∧ p.playerId = q.playerId := by
      intro k p hp
      cases hserving.served.binding hp with
      | kept q hq hid => exact .inr ⟨q, hq, hid⟩
      | created name hk => exact .inl hk
      | moved id k₀ hk => exact .inl hk
    rcases hnew hp with hk | ⟨q, hq, hid⟩
    · rcases hnew hp' with hk' | ⟨q', hq', hid'⟩
      · exact hk.trans hk'.symm
      · exact (hserving.newcomer h hs hp' hq' hid' hp hc₀' hc₀ heq₀.symm).symm
    · exact hserving.newcomer h hs hp hq hid hp' hc₀ hc₀' heq₀

/-- The events of the server keep one player for each client. -/
theorem OnePlayer.answering (h : s.OnePlayer) (hs : Inv owner s) {e : Event ι}
    (hanswering : Answering s e s') : s'.OnePlayer := by
  have hrequests : ∀ (server : Server) (sent : List Sent) i,
      (s.serverDoes server sent).requests i = s.requests i := by
    intro server sent i
    rw [System.requests, pending_serverDoes]
    rfl
  cases hanswering with
  | served handler choice _ c command commands server ms ok hserving => exact h.serving hs hserving
  | silent _ server he hplayers huuids hclients =>
    exact h.of_stays hs (.serverDoes [] fun k p hp => hplayers ▸ hp) fun i => (hrequests _ _ i).le
  | dropped handler haccepted =>
    obtain ⟨c, hc⟩ := hs.accepted handler haccepted
    refine h.of_stays hs (.answering (.dropped handler haccepted) (by simp)) fun i => ?_
    have hdropped := pending_dropped (q := Command.isConnect) hc s.server
      (Server.wire (s.server.farewell handler)) i
    exact Nat.add_le_add_left ((Nat.le_add_right ..).trans hdropped.le) _
  | stopped =>
    exact h.of_stays hs (.answering .stopped (by simp)) fun i =>
      (hrequests (s.server.withPlayers .empty) _ i).le

/-- Every event keeps one player for each client. -/
theorem OnePlayer.next (h : s.OnePlayer) (hs : Inv owner s) {e : Event ι}
    (hnext : s.next e = some s') : s'.OnePlayer := by
  cases he : e.isOfServer with
  | false => exact h.meanwhile hs he hnext
  | true => exact h.answering hs (hs.answering he hnext)

/-- The clients of a new server have not asked for a player yet. -/
theorem onePlayer_new (server : Server) (hserver : server.players = .empty) :
    (new server : System ι).OnePlayer where
  requests i := by
    rw [System.requests, pending_new]
    exact le_rfl
  admitted i := by
    rintro ⟨k, c, hc, -⟩
    exact absurd hc (by simp [new])
  single k k' p p' c c' hp := absurd hp (by simp [new, hserver])

/-- In every reachable state, each client has one player. -/
theorem onePlayer_of_reachable (hs : (machine ι).Reachable s) : s.OnePlayer := by
  have hboth : s.OnePlayer ∧ ∃ owner, Inv owner s := by
    refine hs.invariant (I := fun s => s.OnePlayer ∧ ∃ owner, Inv owner s) ?_ ?_
    · rintro _ ⟨_, ⟨roomName, all, rfl⟩, rfl⟩
      exact ⟨onePlayer_new _ rfl, inv_of_reachable (.init ⟨_, ⟨roomName, all, rfl⟩, rfl⟩)⟩
    · rintro s e ⟨h, owner, hs⟩ he
      exact ⟨h.next hs (next_of_enabled he), hs.next (next_of_enabled he)⟩
  exact hboth.1

end System

end Gaze
