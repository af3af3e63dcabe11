import Gaze.Server

/-!
# Runs of the server

The server is a machine moved by what happens around it: connections are
accepted, lines are received, handlers end, and the host plays with the same
dictionary. Each event is processed at once, without interference.

* `Server.WellFormed`: every player is bound to a handler that has been accepted,
  under an id of its own that `UUID.randomUUID` has given.
* `Server.wellFormed_of_reachable`: it holds in every reachable state.
-/

namespace Gaze

open Java Protocol

namespace Server

/-- What happens to the server. -/
inductive Event
  /-- A connection is accepted. -/
  | accepted (handler : ClientHandler)
  /-- A handler receives a line. -/
  | received (handler : ClientHandler) (line : Text) (choice : Choice)
  /-- A handler ends. -/
  | disconnected (handler : ClientHandler)
  /-- The server is stopped. -/
  | stopped
  /-- The host validates an anamorphosis in its own game. -/
  | validated (anamorphosis : Anamorphosis)
  /-- The host draws an anamorphosis for its own game. -/
  | drawn (difficulty : Difficulty) (random : ℕ)

/-- What the server does. -/
def handle (s : Server) : Event → Outcome Server Sent Unit
  | .accepted handler => ⟨{ s with clients := s.clients ++ [handler] }, [], .ok ()⟩
  | .received handler line choice => (onMessageReceived handler (some line) choice).exec s
  | .disconnected handler => (onClientDisconnected handler).exec s
  | .stopped => onServerStopped.exec s
  | .validated anamorphosis =>
    ⟨s.withDictionary (s.anamorphDictionary.setAlreadyValidated anamorphosis), [], .ok ()⟩
  | .drawn difficulty random =>
    ⟨s.withDictionary (s.anamorphDictionary.getRandom difficulty true random).1, [], .ok ()⟩

/-- Handlers are accepted once, and `UUID.randomUUID` gives fresh ids. -/
def Enabled (s : Server) : Event → Prop
  | .accepted handler => handler ∉ s.clients
  | .received handler _ choice => handler ∈ s.clients ∧ choice.uuid.text ∉ s.uuids
  | .disconnected handler => handler ∈ s.clients
  | .stopped => True
  | .validated anamorphosis => anamorphosis ∈ s.anamorphDictionary.all
  | .drawn _ _ => True

instance (s : Server) : ∀ e, Decidable (s.Enabled e)
  | .accepted handler => inferInstanceAs (Decidable (handler ∉ s.clients))
  | .received handler _ choice =>
    inferInstanceAs (Decidable (handler ∈ s.clients ∧ choice.uuid.text ∉ s.uuids))
  | .disconnected handler => inferInstanceAs (Decidable (handler ∈ s.clients))
  | .stopped | .drawn _ _ => inferInstanceAs (Decidable True)
  | .validated anamorphosis =>
    inferInstanceAs (Decidable (anamorphosis ∈ s.anamorphDictionary.all))

/-- The server as a machine. -/
def machine : Machine Server Event where
  Init s := ∃ roomName all, s = new roomName (AnamorphDictionary.new all)
  Enabled := Enabled
  step s e := (s.handle e).state

instance (s : Server) (e : Event) : Decidable (machine.Enabled s e) :=
  inferInstanceAs (Decidable (s.Enabled e))

/-! ## What the methods keep -/

variable {s : Server} {handler : ClientHandler} {data : Text} {choice : Choice}

/-- `s'` has the clients and the ids of `s`, and the players `players`. -/
structure Holds (s' s : Server) (players : HashMap ClientHandler Player) : Prop where
  clients : s'.clients = s.clients
  uuids : s'.uuids = s.uuids
  players : s'.players = players

theorem finishMainGame_holds (choice : Choice) (players : List Player) :
    Holds ((finishMainGame players choice).exec s).state s s.players := by
  cases players with
  | nil => exact ⟨rfl, rfl, rfl⟩
  | cons first players =>
    rw [exec_finishMainGame]
    split_ifs
    · split <;> exact ⟨rfl, rfl, rfl⟩
    · exact ⟨rfl, rfl, rfl⟩

/-- A find only changes the player bound to the handler. -/
theorem onAnamorphosisFound_holds (data : Text) (choice : Choice) {p : Player}
    (hp : s.players.get handler = some p) :
    Holds ((onAnamorphosisFound handler data choice).exec s).state s
      (s.players.replace handler (recordFind data)) := by
  cases hd : parseAnamorphosisFoundMessage data with
  | error e =>
    rw [exec_onAnamorphosisFound_of_error hd, recordFind_of_error hd]
    exact ⟨rfl, rfl, rfl⟩
  | ok d =>
    have hcredited : Holds (s.credited handler d) s (s.players.replace handler (credit d)) :=
      ⟨rfl, rfl, rfl⟩
    rw [exec_onAnamorphosisFound hp hd, recordFind_of_ok hd]
    -- The phase decides what is sent and which phase follows, never what the records become.
    cases s.gameState with
    | lobby | ended => exact hcredited
    | deathMatch =>
      dsimp only
      split_ifs
      · exact hcredited
      · exact ⟨rfl, rfl, rfl⟩
    | mainGame =>
      dsimp only
      split_ifs
      · exact hcredited
      · obtain ⟨hclients, huuids, hplayers⟩ := finishMainGame_holds choice
          (s := s.credited handler d) (s.credited handler d).players.values
        exact ⟨hclients, huuids, hplayers⟩
      · exact hcredited

/-! ## The invariant -/

/-- Every player is bound to an accepted handler, under an id of its own that has
    been given; handlers are accepted once. -/
structure WellFormed (s : Server) : Prop where
  accepted : ∀ handler p, s.players.get handler = some p → handler ∈ s.clients
  issued : ∀ handler p, s.players.get handler = some p → p.playerId ∈ s.uuids
  distinct : ∀ handler handler' p p', s.players.get handler = some p →
    s.players.get handler' = some p' → p.playerId = p'.playerId → handler = handler'
  uuids : ∀ id ∈ s.uuids, isUuid id
  nodup : s.clients.Nodup

theorem WellFormed.isUuid (hs : WellFormed s) : ∀ p ∈ s.players.values, isUuid p.playerId := by
  intro p hp
  obtain ⟨k, hk⟩ := HashMap.mem_values.1 hp
  exact hs.uuids _ (hs.issued k p hk)

theorem WellFormed.of_holds {s' : Server} (hs : WellFormed s) (h : Holds s' s s.players) :
    WellFormed s' where
  accepted := by rw [h.clients, h.players]; exact hs.accepted
  issued := by rw [h.uuids, h.players]; exact hs.issued
  distinct := by rw [h.players]; exact hs.distinct
  uuids := by rw [h.uuids]; exact hs.uuids
  nodup := by rw [h.clients]; exact hs.nodup

/-- Changing a player without changing its id keeps the invariant. -/
theorem WellFormed.replace {s' : Server} {f : Player → Player} (hs : WellFormed s)
    (hf : ∀ p, (f p).playerId = p.playerId) (h : Holds s' s (s.players.replace handler f)) :
    WellFormed s' := by
  have hget : ∀ k p, s'.players.get k = some p →
      ∃ q, s.players.get k = some q ∧ p.playerId = q.playerId := by
    intro k p hp
    rw [h.players, HashMap.get_replace] at hp
    split_ifs at hp
    · obtain ⟨q, hq, rfl⟩ := Option.map_eq_some_iff.1 hp
      exact ⟨q, hq, hf q⟩
    · exact ⟨p, hp, rfl⟩
  refine ⟨fun k p hp => ?_, fun k p hp => ?_, fun k k' p p' hp hp' heq => ?_, ?_, ?_⟩
  · obtain ⟨q, hq, -⟩ := hget k p hp
    exact h.clients ▸ hs.accepted k q hq
  · obtain ⟨q, hq, hid⟩ := hget k p hp
    exact h.uuids ▸ hid ▸ hs.issued k q hq
  · obtain ⟨q, hq, hid⟩ := hget k p hp
    obtain ⟨q', hq', hid'⟩ := hget k' p' hp'
    exact hs.distinct k k' q q' hq hq' (by rw [← hid, ← hid', heq])
  · exact h.uuids ▸ hs.uuids
  · exact h.clients ▸ hs.nodup

/-- Removing a player keeps the invariant. -/
theorem WellFormed.remove (h : ClientHandler) (hs : WellFormed s) :
    WellFormed (s.withPlayers (s.players.remove h)) := by
  have hget : ∀ k p, (s.players.remove h).get k = some p → s.players.get k = some p := by
    intro k p hp
    rw [HashMap.get_remove] at hp
    split_ifs at hp
    exact hp
  exact ⟨fun k p hp => hs.accepted k p (hget k p hp), fun k p hp => hs.issued k p (hget k p hp),
    fun k k' p p' hp hp' => hs.distinct k k' p p' (hget k p hp) (hget k' p' hp'), hs.uuids,
    hs.nodup⟩

/-- Binding an accepted handler to a player whose id nobody has keeps the invariant. -/
theorem WellFormed.put {p : Player} {a : Arrangement (ClientHandler × Player)}
    (hs : WellFormed s) (hh : handler ∈ s.clients) (hissued : p.playerId ∈ s.uuids)
    (hfresh : ∀ k q, s.players.get k = some q → q.playerId ≠ p.playerId) :
    WellFormed (s.withPlayers (s.players.put handler p a)) := by
  have hget : ∀ k q, (s.players.put handler p a).get k = some q →
      k = handler ∧ q = p ∨ k ≠ handler ∧ s.players.get k = some q := by
    intro k q hq
    rw [HashMap.get_put] at hq
    split_ifs at hq with hk
    · exact .inl ⟨hk, (Option.some.inj hq).symm⟩
    · exact .inr ⟨hk, hq⟩
  refine ⟨fun k q hq => ?_, fun k q hq => ?_, fun k k' q q' hq hq' heq => ?_, hs.uuids,
    hs.nodup⟩
  · rcases hget k q hq with ⟨rfl, -⟩ | ⟨-, hq⟩
    · exact hh
    · exact hs.accepted k q hq
  · rcases hget k q hq with ⟨-, rfl⟩ | ⟨-, hq⟩
    · exact hissued
    · exact hs.issued k q hq
  -- Two handlers with one id: neither is the new one, whose id nobody had.
  · rcases hget k q hq with ⟨rfl, rfl⟩ | ⟨-, hold⟩ <;>
      rcases hget k' q' hq' with ⟨rfl, rfl⟩ | ⟨-, hold'⟩
    · rfl
    · exact absurd heq.symm (hfresh k' q' hold')
    · exact absurd heq (hfresh k q hold)
    · exact hs.distinct k k' q q' hold hold' heq

/-- Receiving a line keeps the invariant. -/
theorem WellFormed.received (hs : WellFormed s) (hh : handler ∈ s.clients)
    (huuid : choice.uuid.text ∉ s.uuids) (l : Text) :
    WellFormed ((onMessageReceived handler (some l) choice).exec s).state := by
  have hcases := receiving s handler l choice
  generalize (onMessageReceived handler (some l) choice).exec s = o at hcases
  cases hcases with
  | unreadable | ignored | unnamed | late | unknown | notReady | roomUnnamed | roomKept => exact hs
  | connected name =>
    -- The new id is fresh, so that no other player has it.
    have huuids : WellFormed (s.withUuid choice.uuid.text) :=
      ⟨hs.accepted, fun k p hp => List.mem_cons_of_mem _ (hs.issued k p hp), hs.distinct,
        List.forall_mem_cons.2 ⟨choice.uuid.isUuid, hs.uuids⟩, hs.nodup⟩
    refine huuids.put hh (List.mem_cons_self ..) fun k q hq heq => huuid ?_
    have hissued := hs.issued k q hq
    rwa [heq] at hissued
  | recognised h p _ _ hp =>
    -- The id is taken from the other handler before this one gets it.
    refine (hs.remove h).put hh (hs.issued h p hp) fun k q hq heq => ?_
    rw [withPlayers_players, HashMap.get_remove] at hq
    split_ifs at hq with hk
    exact hk (hs.distinct k h q p hq hp heq)
  | disconnected => exact hs.remove handler
  | ready => exact hs.replace (f := toggleReady) (fun _ => rfl) ⟨rfl, rfl, rfl⟩
  | started | roomNamed => exact hs.of_holds ⟨rfl, rfl, rfl⟩
  | found p hp => exact hs.replace (recordFind_playerId _) (onAnamorphosisFound_holds _ _ hp)

theorem exec_onClientDisconnected : (onClientDisconnected handler).exec s =
    ⟨s, if s.players.containsKey handler then s.playerList else [], .ok ()⟩ := by
  by_cases h : s.players.containsKey handler <;> simp [onClientDisconnected, h]

theorem exec_onServerStopped : onServerStopped.exec s =
    ⟨s.withPlayers .empty, s.broadcast buildServerStoppedInstruction, .ok ()⟩ := by
  simp [onServerStopped]

/-- Every event keeps the invariant. -/
theorem WellFormed.handle (hs : WellFormed s) : ∀ e, s.Enabled e → WellFormed (s.handle e).state
  | .accepted _, hnot => ⟨fun k p hp => List.mem_append_left _ (hs.accepted k p hp), hs.issued,
      hs.distinct, hs.uuids, List.Nodup.append hs.nodup (List.nodup_singleton _)
        (List.disjoint_singleton.2 hnot)⟩
  | .received _ l _, ⟨hh, huuid⟩ => hs.received hh huuid l
  | .disconnected handler, _ => by
    rw [Server.handle, exec_onClientDisconnected]
    exact hs
  | .stopped, _ => by
    rw [Server.handle, exec_onServerStopped]
    exact ⟨by simp, by simp, by simp, hs.uuids, hs.nodup⟩
  | .validated _, _ => hs.of_holds ⟨rfl, rfl, rfl⟩
  | .drawn _ _, _ => hs.of_holds ⟨rfl, rfl, rfl⟩

/-- The invariant holds in every reachable state. -/
theorem wellFormed_of_reachable (hs : machine.Reachable s) : WellFormed s := by
  refine hs.invariant ?_ fun s e hs he => hs.handle e he
  rintro _ ⟨roomName, all, rfl⟩
  exact ⟨by simp [new], by simp [new], by simp [new], by simp [new], by simp [new]⟩

/-! ## A sample run -/

theorem isUuid_sample {n : ℕ} (hn : n < 10) :
    isUuid ("01234567-89ab-cdef-0123-00000000000".toList ++ [Nat.digitChar n]) := by
  decide +revert

/-- The ids of the sample players. -/
def sampleUuid (n : ℕ) : Uuid where
  text := "01234567-89ab-cdef-0123-00000000000".toList ++ [Nat.digitChar (n % 10)]
  isUuid := isUuid_sample (Nat.mod_lt n (by decide))

/-- The environment's choices, with some id. -/
def sampleChoice (n : ℕ) : Choice := ⟨sampleUuid n, .id, 0⟩

/-- A new server. -/
def sampleServer : Server :=
  new "room".toList
    (.new [⟨0, .easy, "a".toList⟩, ⟨1, .medium, "b".toList⟩, ⟨2, .hard, "c".toList⟩])

/-- The host creates a room, connects, and starts to play. -/
def sampleRun : List Event :=
  [.accepted ⟨0, true⟩, .received ⟨0, true⟩ "CONNECT host".toList (sampleChoice 0),
    .received ⟨0, true⟩ "READY".toList (sampleChoice 1),
    .received ⟨0, true⟩ "START".toList (sampleChoice 1)]

theorem isRun_sampleRun : machine.IsRun sampleServer sampleRun where
  init := ⟨_, _, rfl⟩
  enabled := by decide

end Server

end Gaze
