import Gaze.System.Meanwhile

/-!
# The players of the clients

Serving commands is the only way to get, move, or change a player: all other events
leave the players under their handlers, or remove them (`System.Stays`).

* `System.havePlayers_of_reachable`: until the server is stopped, each client it has
  admitted has a player.
-/

namespace Gaze

open Java Protocol

namespace System

variable {ι : Type} {s s' : System ι} {owner : Text → Option ι}

/-! ## Events that serve no command -/

/-- The players stay, under the same handlers, or go; the connections stay, and new ones
    are not admitted. -/
structure Stays (s s' : System ι) : Prop where
  players : ∀ k p, s'.server.players.get k = some p → s.server.players.get k = some p
  kept : ∀ k c, s.connections.get k = some c → ∃ c', s'.connections.get k = some c' ∧
    c'.client = c.client ∧ c'.admitted = c.admitted
  new : ∀ k c', s'.connections.get k = some c' → s.connections.get k = none →
    c'.admitted = false

theorem Meanwhile.stays (h : Meanwhile s s') : s.Stays s' where
  players k p hp := h.server ▸ hp
  kept := h.kept
  new k c' hc' hnone := by
    rcases h.connection k c' hc' with ⟨hnot, -⟩ | ⟨c, hc, -⟩
    · exact hnot
    · exact absurd (hnone.symm.trans hc) (by simp)

namespace Stays

/-- What an admitted connection was. -/
theorem connection (h : s.Stays s') {k : ClientHandler} {c' : Connection ι}
    (hc' : s'.connections.get k = some c')
    (hk : (s.connections.get k).isSome ∨ c'.admitted = true) :
    ∃ c, s.connections.get k = some c ∧ c'.client = c.client ∧ c'.admitted = c.admitted := by
  cases hc : s.connections.get k with
  | none =>
    rcases hk with hk | hk
    · exact absurd hk (by simp [hc])
    · exact absurd hk (by simp [h.new k c' hc' hc])
  | some c =>
    obtain ⟨c'', hc'', hrest⟩ := h.kept k c hc
    obtain rfl := Option.some.inj (hc'.symm.trans hc'')
    exact ⟨c, rfl, hrest⟩

theorem trans {s'' : System ι} (h : s.Stays s') (h' : s'.Stays s'') : s.Stays s'' where
  players k p hp := h.players k p (h'.players k p hp)
  kept k c hc := by
    obtain ⟨c', hc', hclient, hadmitted⟩ := h.kept k c hc
    obtain ⟨c'', hc'', hclient', hadmitted'⟩ := h'.kept k c' hc'
    exact ⟨c'', hc'', hclient'.trans hclient, hadmitted'.trans hadmitted⟩
  new k c'' hc'' hnone := by
    by_contra hadmitted
    rw [Bool.not_eq_false] at hadmitted
    obtain ⟨c', hc', -, hadmitted'⟩ := h'.connection hc'' (.inr hadmitted)
    exact absurd (hadmitted'.symm.trans hadmitted) (by simp [h.new k c' hc' hnone])

/-- The server sends messages, its players staying or going. -/
theorem serverDoes {server : Server} (sent : List Sent)
    (hplayers : ∀ k p, server.players.get k = some p → s.server.players.get k = some p) :
    s.Stays (s.serverDoes server sent) where
  players := hplayers
  kept k c hc := ⟨_, by rw [get_serverDoes, hc]; rfl, by simp, by simp⟩
  new k c' hc' hnone := absurd hc' (by simp [hnone])

/-- The events of the server, but for the commands it serves. -/
theorem answering {e : Event ι} (h : Answering s e s')
    (he : ∀ handler choice, e ≠ .serves handler choice) :
    s.Stays s' := by
  cases h with
  | silent _ server _ hplayers => exact .serverDoes [] fun k p hp => hplayers ▸ hp
  | served handler choice => exact absurd rfl (he handler choice)
  | dropped handler =>
    exact (Stays.serverDoes _ fun _ _ hp => hp).trans (Meanwhile.finish handler).stays
  | stopped =>
    have hstays : s.Stays (s.serverDoes (s.server.withPlayers .empty)
      (Server.wire (s.server.announce .serverStopped))) :=
      .serverDoes _ fun k p hp => absurd hp (by simp)
    exact ⟨hstays.players, hstays.kept, hstays.new⟩

end Stays

/-! ## A player for each admitted client -/

/-- The server has admitted a connection of the client. -/
def Admitted (s : System ι) (i : ι) : Prop :=
  ∃ k c, s.connections.get k = some c ∧ c.client = i ∧ c.admitted = true

/-- The player is bound to a connection of the client. -/
def IsPlayerOf (s : System ι) (i : ι) (p : Player) : Prop :=
  ∃ k c, s.connections.get k = some c ∧ c.client = i ∧ s.server.players.get k = some p

/-- A player stays a player of its client. -/
theorem Serving.isPlayerOf {handler : ClientHandler} {choice : Choice} {c : Connection ι}
    {command : Command} {commands : List Command} {server : Server} {ms : List Server.Message}
    {ok : Bool} (h : Serving s handler choice s' c command commands server ms ok)
    (hs : Inv owner s) {i : ι} {p : Player} (hp : s.IsPlayerOf i p) : ∃ p', s'.IsPlayerOf i p' := by
  obtain ⟨k, c₀, hc₀, rfl, hget⟩ := hp
  obtain ⟨c₁, hc₁, -, howner⟩ := hs.bound k p hget
  obtain rfl := Option.some.inj (hc₀.symm.trans hc₁)
  obtain ⟨k', p', hp', hid⟩ := h.served.persists (h.unbound hs) hget
  obtain ⟨owner', hold, hs'⟩ := h.inv hs
  rw [← h.after.1] at hp'
  obtain ⟨c', hc', -, howner'⟩ := hs'.bound k' p' hp'
  rw [hid, hold _ (hs.server.issued k p hget), howner] at howner'
  exact ⟨p', k', c', hc', (Option.some.inj howner').symm, hp'⟩

/-- While the server is not stopped, each admitted client has a player. -/
def HavePlayers (s : System ι) : Prop :=
  s.stopping = false → ∀ i, s.Admitted i → ∃ p, s.IsPlayerOf i p

theorem HavePlayers.of_stays (h : s.HavePlayers) (hstays : s.Stays s')
    (hstopping : s'.stopping = false → s.stopping = false)
    (hplayers : s'.server.players = s.server.players) : s'.HavePlayers := by
  intro hrunning i ⟨k, c', hc', hi, hadmitted⟩
  obtain ⟨c, hc, hclient, hadmitted'⟩ := hstays.connection hc' (.inr hadmitted)
  obtain ⟨p, k₀, c₀, hc₀, hi₀, hp⟩ := h (hstopping hrunning) i
    ⟨k, c, hc, hclient.symm.trans hi, hadmitted'.symm.trans hadmitted⟩
  obtain ⟨c₀', hc₀', hclient₀, -⟩ := hstays.kept k₀ c₀ hc₀
  exact ⟨p, k₀, c₀', hc₀', hclient₀.trans hi₀, hplayers ▸ hp⟩

theorem HavePlayers.next [DecidableEq ι] (h : s.HavePlayers) (hs : Inv owner s) {e : Event ι}
    (hnext : s.next e = some s') : s'.HavePlayers := by
  cases he : e.isOfServer with
  | false =>
    have hm := hs.meanwhile he hnext
    exact h.of_stays hm.stays (fun h => hm.stopping ▸ h) (congrArg Server.players hm.server)
  | true =>
    cases hs.answering he hnext with
    | silent _ server _ hplayers =>
      exact h.of_stays (.serverDoes [] fun k p hp => hplayers ▸ hp) id hplayers
    | served handler choice _ c command commands server ms ok hserving =>
      obtain ⟨hserver, hstopping, -⟩ := hserving.after
      intro hrunning i ⟨k, c', hc', hi, hadmitted'⟩
      obtain ⟨c₀, hc₀, hclient, hadmitted⟩ := hserving.connection hc'
      -- The connection was admitted, or is admitted because a player is bound to it.
      rcases hadmitted hadmitted' with hadmitted | hbound
      · obtain ⟨p, hp⟩ := h (hstopping ▸ hrunning) i ⟨k, c₀, hc₀, hclient.symm.trans hi, hadmitted⟩
        exact hserving.isPlayerOf hs hp
      · obtain ⟨p, hp⟩ := Option.isSome_iff_exists.1 hbound
        exact ⟨p, k, c', hc', hi, hserver ▸ hp⟩
    | dropped handler haccepted =>
      exact h.of_stays (.answering (.dropped handler haccepted) (by simp)) id rfl
    | stopped => exact fun hrunning => absurd hrunning (by simp)

theorem havePlayers_of_reachable [DecidableEq ι] (hs : (machine ι).Reachable s) :
    s.HavePlayers := by
  have hboth : s.HavePlayers ∧ ∃ owner, Inv owner s := by
    refine hs.invariant (I := fun s => s.HavePlayers ∧ ∃ owner, Inv owner s) ?_ ?_
    · rintro _ ⟨_, ⟨roomName, all, rfl⟩, rfl⟩
      refine ⟨fun _ i ⟨k, c, hc, _⟩ => absurd hc (by simp [new]), ?_⟩
      exact inv_of_reachable (.init ⟨_, ⟨roomName, all, rfl⟩, rfl⟩)
    · rintro s e ⟨h, owner, hs⟩ he
      exact ⟨h.next hs (next_of_enabled he), hs.next (next_of_enabled he)⟩
  exact hboth.1

end System

end Gaze
