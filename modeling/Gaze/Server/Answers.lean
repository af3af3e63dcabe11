import Gaze.Server.Commands

/-!
# The answers of the server

What the messages that answer a command are, and to which players the handlers
are bound once it has been served.

* `Served.messages`: all the messages are news for everybody, except the id of the
  player, and the refusal, that answer the introduction of a client.
* `Served.binding`: a player that is bound to a handler was already bound to it,
  or has just been introduced.
-/

namespace Gaze

open Java Protocol

/-- The message tells something about the game: it is neither the id of a player,
    nor a refusal, and its list of players is not empty. -/
def ServerMessage.IsNews : ServerMessage → Prop
  | id _ | alreadyStarted | unknownId => False
  | players ps | finished ps => ps ≠ [] ∧ ∀ p ∈ ps, isUuid p.playerId
  | deathMatch ps _ => ∀ p ∈ ps, isUuid p.playerId
  | roomName _ | start | notReady | serverStopped => True

namespace ServerMessage

variable {m : ServerMessage}

theorem IsNews.hasUuids (h : m.IsNews) : m.HasUuids := by
  cases m with
  | players | finished => exact h.2
  | deathMatch => exact h
  | id | alreadyStarted | unknownId => exact h.elim
  | roomName | start | notReady | serverStopped => trivial

theorem IsNews.isRefusal (h : m.IsNews) : m.isRefusal = false := by
  cases m with
  | alreadyStarted | unknownId => exact h.elim
  | _ => rfl

end ServerMessage

namespace Server

/-- The messages for a handler. -/
def messagesTo (handler : ClientHandler) (ms : List Message) : List ServerMessage :=
  (ms.filter fun m => m.1 = handler).map Prod.snd

theorem mem_messagesTo {handler : ClientHandler} {ms : List Message} {m : ServerMessage} :
    m ∈ messagesTo handler ms ↔ (handler, m) ∈ ms := by
  simp [messagesTo]

@[simp] theorem messagesTo_nil (handler : ClientHandler) : messagesTo handler [] = [] := rfl

theorem messagesTo_cons (handler k : ClientHandler) (m : ServerMessage) (ms : List Message) :
    messagesTo k ((handler, m) :: ms) =
      if handler = k then m :: messagesTo k ms else messagesTo k ms := by
  by_cases h : handler = k <;> simp [messagesTo, h]

/-- Every client gets an announcement once. -/
theorem messagesTo_announce {s : Server} (hs : s.clients.Nodup) (k : ClientHandler)
    (m : ServerMessage) : messagesTo k (s.announce m) = if k ∈ s.clients then [m] else [] := by
  have hfilter : s.clients.filter ((fun m : Message => m.1 = k) ∘ fun client => (client, m)) =
      List.replicate (s.clients.count k) k := List.filter_beq ..
  rw [messagesTo, announce, List.filter_map, List.map_map, hfilter, List.map_replicate, hs.count]
  split_ifs <;> rfl

theorem mem_announce {s : Server} {k : ClientHandler} {m m' : ServerMessage} :
    (k, m') ∈ s.announce m ↔ k ∈ s.clients ∧ m' = m := by
  simp [announce, eq_comm]

variable {s s' : Server} {handler : ClientHandler} {choice : Choice} {c : Command}
  {ms : List Message} {ok : Bool}

theorem Served.clients_eq (h : Served s handler choice c s' ms ok) : s'.clients = s.clients := by
  cases h <;> rfl

/-- Only the id of a new player is given. -/
theorem Served.uuids_eq (h : Served s handler choice c s' ms ok) :
    s'.uuids = s.uuids ∨ ∃ name, c = .connect name ∧ s'.uuids = choice.uuid.text :: s.uuids := by
  cases h with
  | accepted name => exact .inr ⟨name, rfl, rfl⟩
  | _ => exact .inl rfl

/-- A list of the players is news, if there is one. -/
theorem WellFormed.isNews (hs : s.WellFormed) {p : Player} (hp : s.players.get handler = some p) :
    (ServerMessage.players s.players.values).IsNews ∧
      (ServerMessage.finished s.players.values).IsNews := by
  have hne : s.players.values ≠ [] := List.ne_nil_of_mem (HashMap.mem_values.2 ⟨handler, hp⟩)
  exact ⟨⟨hne, hs.isUuid⟩, ⟨hne, hs.isUuid⟩⟩

/-- The messages are news, except those that answer an introduction. -/
theorem Served.messages (h : Served s handler choice c s' ms ok) (hs' : s'.WellFormed)
    {k : ClientHandler} {m : ServerMessage} (hm : (k, m) ∈ ms) :
    m.IsNews ∨ k = handler ∧ c.isIntroduction = true ∧
      ((∃ p, s'.players.get handler = some p ∧ m = .id p.playerId) ∨
        m.isRefusal = true ∧ ms = [(k, m)] ∧ s' = s) := by
  cases h with
  | accepted name =>
    have hp : (s.connected handler name choice).players.get handler =
        some (Player.new name 0 false choice.uuid.text) := by simp [connected]
    rcases List.mem_cons.1 hm with heq | hm
    -- The id comes first, and what follows is news.
    · cases heq
      exact .inr ⟨rfl, rfl, .inl ⟨_, hp, rfl⟩⟩
    · rcases List.mem_cons.1 hm with heq | hm
      · cases heq
        exact .inl trivial
      · rw [(mem_announce.1 hm).2]
        exact .inl (hs'.isNews hp).1
  -- A refusal is the only message, and the server does not change.
  | late | unknown =>
    cases List.mem_singleton.1 hm
    exact .inr ⟨rfl, rfl, .inr ⟨rfl, rfl, rfl⟩⟩
  | recognised id k' p hp hid =>
    cases List.mem_singleton.1 hm
    exact .inr ⟨rfl, rfl, .inl ⟨p, by simp, rfl⟩⟩
  | ready id p hp =>
    rw [(mem_announce.1 hm).2]
    have hget : (s.players.replace handler toggleReady).get handler = some (toggleReady p) := by
      simp [hp]
    exact .inl (hs'.isNews hget).1
  | started | roomNamed =>
    rw [(mem_announce.1 hm).2]
    exact .inl trivial
  | notReady =>
    cases List.mem_singleton.1 hm
    exact .inl trivial
  | found a p hp =>
    rw [(mem_announce.1 hm).2]
    have hget : (s.credited handler a.difficulty).players.get handler =
        some (credit a.difficulty p) := by simp [credited, hp]
    exact .inl (hs'.isNews hget).1
  | foundLast a p hp =>
    rw [(mem_announce.1 hm).2]
    have hget : (s.credited handler a.difficulty).players.get handler =
        some (credit a.difficulty p) := by simp [credited, hp]
    exact .inl (hs'.isNews hget).2
  | foundTied a p dict drawn =>
    rw [(mem_announce.1 hm).2]
    exact .inl fun q hq => hs'.isUuid q ((Ranking.leadingRun_isPrefix _ _).subset hq)
  | ignored | quit | roomKept | foundOutside | foundUnscored | foundUndrawn =>
    exact absurd hm List.not_mem_nil

/-- Why a player is bound to a handler once a command has been served. -/
inductive Binding (s : Server) (handler : ClientHandler) (choice : Choice) (c : Command)
    (k : ClientHandler) (p' : Player) : Prop
  /-- It was already bound to it; the command may be one of its finds. -/
  | kept (p : Player) : s.players.get k = some p → p'.playerId = p.playerId →
      p'.nbFoundAnamorphosis = p.nbFoundAnamorphosis + (if k = handler ∧ c.isFind then 1 else 0) →
      Binding s handler choice c k p'
  /-- It is new. -/
  | created (name : Text) : k = handler → c = .connect name →
      p' = Player.new name 0 false choice.uuid.text → Binding s handler choice c k p'
  /-- It was bound to another handler. -/
  | moved (id : Option Text) (k' : ClientHandler) : k = handler → c = .reconnect id →
      s.players.get k' = some p' → Command.format id = p'.playerId → Binding s handler choice c k p'

theorem Binding.of_get {k : ClientHandler} {p : Player} (hp : s.players.get k = some p)
    (hc : c.isFind = false) : Binding s handler choice c k p :=
  .kept p hp rfl (by simp [hc])

/-- A find counts once, for the player of the handler. -/
theorem Binding.of_credited {a : Anamorphosis} {k : ClientHandler} {p' : Player}
    (hp : (s.credited handler a.difficulty).players.get k = some p') :
    Binding s handler choice (.found a) k p' := by
  rw [credited, withPlayers_players, HashMap.get_replace] at hp
  split_ifs at hp with hk
  · obtain ⟨p, hget, rfl⟩ := Option.map_eq_some_iff.1 hp
    exact .kept p hget rfl (by simp [hk, Command.isFind, credit, addScore, countFind])
  · exact .kept p' hp rfl (by simp [hk])

/-- Why a player is bound to a handler once the command has been served. -/
theorem Served.binding (h : Served s handler choice c s' ms ok) {k : ClientHandler} {p' : Player}
    (hp' : s'.players.get k = some p') : Binding s handler choice c k p' := by
  cases h with
  | accepted name =>
    rw [connected, withPlayers_players, HashMap.get_put] at hp'
    split_ifs at hp' with hk
    · exact .created name hk rfl (Option.some.inj hp').symm
    · exact .of_get hp' rfl
  | recognised id k' p hp hid =>
    rw [withPlayers_players, HashMap.get_put] at hp'
    split_ifs at hp' with hk
    · obtain rfl := Option.some.inj hp'
      exact .moved id k' hk rfl hp hid
    -- The handler that has lost its player has none; the others keep theirs.
    · rw [HashMap.get_remove] at hp'
      split_ifs at hp' with hk'
      exact .of_get hp' rfl
  | ready id p hp =>
    rw [withPlayers_players, HashMap.get_replace] at hp'
    split_ifs at hp' with hk
    · obtain ⟨q, hq, rfl⟩ := Option.map_eq_some_iff.1 hp'
      exact .kept q hq rfl (by simp [Command.isFind, toggleReady])
    · exact .of_get hp' rfl
  | ignored _ _ hp =>
    have hne : k ≠ handler := by
      rintro rfl
      exact absurd (hp.symm.trans hp') (by simp)
    exact .kept p' hp' rfl (by simp [hne])
  | late | unknown | quit | started | notReady | roomNamed | roomKept => exact .of_get hp' rfl
  | foundOutside | foundUnscored | found | foundLast | foundTied | foundUndrawn =>
    exact .of_credited hp'

/-- The players are still there once a command has been served, if an introduction
    comes from a handler without player. -/
theorem Served.persists (h : Served s handler choice c s' ms ok)
    (hunbound : c.isIntroduction = true → s.players.get handler = none) {k : ClientHandler}
    {p : Player} (hp : s.players.get k = some p) :
    ∃ k' p', s'.players.get k' = some p' ∧ p'.playerId = p.playerId := by
  have hne : c.isIntroduction = true → k ≠ handler := by
    rintro hc rfl
    exact absurd ((hunbound hc).symm.trans hp) (by simp)
  have hreplace : ∀ f : Player → Player, (∀ q, (f q).playerId = q.playerId) →
      ∃ k' p', (s.players.replace handler f).get k' = some p' ∧ p'.playerId = p.playerId := by
    intro f hf
    by_cases hk : k = handler
    · subst hk
      exact ⟨k, f p, by simp [hp], hf p⟩
    · exact ⟨k, p, by simp [hk, hp], rfl⟩
  -- Only a `RECONNECT` moves a player, to the handler that introduces itself.
  cases h with
  | accepted name => exact ⟨k, p, by simp [connected, hne rfl, hp], rfl⟩
  | recognised id k' q hq =>
    by_cases hk : k = k'
    · subst hk
      obtain rfl := Option.some.inj (hp.symm.trans hq)
      exact ⟨handler, p, by simp, rfl⟩
    · exact ⟨k, p, by simp [hne rfl, hk, hp], rfl⟩
  | ready => exact hreplace _ fun _ => rfl
  | foundOutside | foundUnscored | found | foundLast | foundTied | foundUndrawn =>
    exact hreplace _ fun _ => rfl
  | late | unknown | ignored | quit | started | notReady | roomNamed | roomKept =>
    exact ⟨k, p, hp, rfl⟩

/-- A `START` is only sent when a registered player asks for it and all the players are
    ready. -/
theorem Served.start (h : Served s handler choice c s' ms ok) {k : ClientHandler}
    (hm : (k, ServerMessage.start) ∈ ms) :
    c = .start ∧ (s.players.get handler).isSome ∧ s.areAllPlayerReady ∧ k ∈ s.clients ∧
      s'.players = s.players := by
  cases h with
  | started p hp hready => exact ⟨rfl, by simp [hp], hready, (mem_announce.1 hm).1, rfl⟩
  | accepted name =>
    rcases List.mem_cons.1 hm with heq | hm
    · cases heq
    · rcases List.mem_cons.1 hm with heq | hm
      · cases heq
      · exact absurd (mem_announce.1 hm).2 (by simp)
  | ready | roomNamed | found | foundLast | foundTied =>
    exact absurd (mem_announce.1 hm).2 (by simp)
  | late | recognised | unknown | notReady => exact absurd (List.mem_singleton.1 hm) (by simp)
  | ignored | quit | roomKept | foundOutside | foundUnscored | foundUndrawn =>
    exact absurd hm List.not_mem_nil

/-- An exception only escapes from a find, before anything is sent. -/
theorem Served.of_error (h : Served s handler choice c s' ms false) :
    ms = [] ∧ c.isFind = true ∧ s'.players.containsKey handler = true := by
  cases h with
  | foundUnscored a p hp | foundUndrawn a p dict hp =>
    exact ⟨rfl, rfl, by simp [HashMap.containsKey, credited, hp]⟩

/-- The messages when a handler ends. -/
def farewell (s : Server) (handler : ClientHandler) : List Message :=
  if s.players.containsKey handler then s.announce (.players s.players.values) else []

theorem handle_disconnected :
    s.handle (.disconnected handler) = ⟨s, wire (s.farewell handler), .ok ()⟩ := by
  have hlist : s.playerList = wire (s.announce (.players s.players.values)) :=
    broadcast_eq_wire rfl rfl
  rw [handle, exec_onClientDisconnected, farewell, hlist]
  split_ifs <;> rfl

theorem handle_stopped :
    s.handle .stopped = ⟨s.withPlayers .empty, wire (s.announce .serverStopped), .ok ()⟩ := by
  have hstop : s.broadcast buildServerStoppedInstruction = wire (s.announce .serverStopped) :=
    broadcast_eq_wire rfl rfl
  rw [handle, exec_onServerStopped, hstop]

theorem WellFormed.farewell_isNews (hs : s.WellFormed) {k : ClientHandler} {m : ServerMessage}
    (hm : (k, m) ∈ s.farewell handler) : m.IsNews := by
  rw [farewell] at hm
  split_ifs at hm with hbound
  · obtain ⟨p, hp⟩ := HashMap.containsKey_iff.1 hbound
    rw [(mem_announce.1 hm).2]
    exact (hs.isNews hp).1
  · exact absurd hm List.not_mem_nil

end Server

end Gaze
