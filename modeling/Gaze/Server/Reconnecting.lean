import Gaze.Server.Runs

/-!
# Coming back to a game

A player whose connection is lost comes back through another one: its new handler
sends `RECONNECT` with the id of the player, who is then bound to this handler.

The server takes the player from the handler it was bound to, and binds the new
handler to it, whoever this handler was bound to before. `rebinds_iff` says when
nobody is lost that way.
-/

namespace Gaze

open Java Protocol

namespace Server

variable {s : Server} {handler : ClientHandler} {choice : Choice} {l : Text}

/-- The server `s'` has the players of `s`: the player with the given id, if there is
    one, is bound to the handler, and the others are where they were. -/
structure Rebinds (s : Server) (handler : ClientHandler) (id : Text) (s' : Server) : Prop where
  /-- The set of the players is the same. -/
  players : s'.players.values.Perm s.players.values
  /-- The player with the id is bound to the handler, and to no other. -/
  bound : ∀ k p, s.players.get k = some p → p.playerId = id →
    ∀ k', s'.players.get k' = some p ↔ k' = handler
  /-- The others are bound to the same handlers. -/
  kept : ∀ k p, s.players.get k = some p → p.playerId ≠ id → s'.players.get k = some p
  /-- If nobody has the id, nothing changes. -/
  unknown : (∀ p ∈ s.players.values, p.playerId ≠ id) → s'.players = s.players

/-- If the handler has a player with another id, nobody has the given one. -/
def Returns (s : Server) (handler : ClientHandler) (id : Text) : Prop :=
  ∀ q, s.players.get handler = some q → q.playerId ≠ id → ∀ p ∈ s.players.values, p.playerId ≠ id

theorem exec_received_reconnect (htype : parseInstructionType l = .ok reconnectMessageType) :
    (onMessageReceived handler (some l) choice).exec s =
      (onReconnect handler (parseInstructionData l) choice).exec s := by
  rw [exec_received htype (by simp)]
  rfl

/-- What becomes of the players when one of them comes back. -/
theorem get_reconnected (players : HashMap ClientHandler Player) (h : ClientHandler) (p : Player)
    (a : Arrangement (ClientHandler × Player)) (k : ClientHandler) :
    ((players.remove h).put handler p a).get k =
      if k = handler then some p else if k = h then none else players.get k := by
  rw [HashMap.get_put, HashMap.get_remove]

/-- Nobody is lost when the handler is bound to nobody else. -/
theorem WellFormed.rebinds (hs : WellFormed s) {h : ClientHandler} {p : Player}
    (hp : s.players.get h = some p)
    (hfree : ∀ q, s.players.get handler = some q → q.playerId = p.playerId)
    (a : Arrangement (ClientHandler × Player)) :
    Rebinds s handler p.playerId (s.withPlayers ((s.players.remove h).put handler p a)) := by
  -- Once the player is taken from its handler, nobody is bound to the other one.
  have hnone : (s.players.remove h).get handler = none := by
    rw [HashMap.get_remove]
    split_ifs with heq
    · rfl
    · cases hq : s.players.get handler with
      | none => rfl
      | some q => exact absurd (hs.distinct _ _ q p hq hp (hfree q hq)) heq
  refine ⟨?_, fun k q hq hid k' => ?_, fun k q hq hid => ?_, fun hunknown => ?_⟩
  · exact (HashMap.values_put_perm hnone p a).trans (HashMap.values_perm_cons hp).symm
  · obtain rfl := hs.distinct k h q p hq hp hid
    obtain rfl := Option.some.inj (hp.symm.trans hq)
    rw [withPlayers_players, get_reconnected]
    split_ifs with hk hold
    · simp [hk]
    · simp [hk]
    · exact ⟨fun hget => absurd (hs.distinct k' k p p hget hp rfl) hold, fun h => absurd h hk⟩
  · have hk : k ≠ handler := fun heq => hid (hfree q (heq ▸ hq))
    have hold : k ≠ h := by
      rintro rfl
      exact hid (congrArg Player.playerId (Option.some.inj (hq.symm.trans hp)))
    rw [withPlayers_players, get_reconnected, if_neg hk, if_neg hold, hq]
  · exact absurd rfl (hunknown p (HashMap.mem_values.2 ⟨h, hp⟩))

/-- A `RECONNECT` keeps the players, whatever the server and the handler, exactly if the
    handler has no player, or the player it asks for, or asks for nobody. -/
theorem rebinds_iff (hs : machine.Reachable s) (handler : ClientHandler) (choice : Choice)
    (htype : parseInstructionType l = .ok reconnectMessageType) :
    Rebinds s handler (parseInstructionData l)
        ((onMessageReceived handler (some l) choice).exec s).state ↔
      Returns s handler (parseInstructionData l) := by
  have hwf := wellFormed_of_reachable hs
  rw [exec_received_reconnect htype]
  cases hfind : s.getHandler (parseInstructionData l) with
  | none =>
    have hunknown := getHandler_eq_none_iff.1 hfind
    rw [exec_onReconnect_of_unknown hfind]
    refine ⟨fun _ _ _ _ => hunknown, fun _ => ⟨.rfl, fun k p hp hid => ?_, ?_, fun _ => rfl⟩⟩
    · exact absurd hid (hunknown p (HashMap.mem_values.2 ⟨k, hp⟩))
    · exact fun _ _ hp _ => hp
  | some h =>
    obtain ⟨p, hp, hid⟩ := getHandler_eq_some hfind
    have hmem : p ∈ s.players.values := HashMap.mem_values.2 ⟨h, hp⟩
    rw [exec_onReconnect_of_known hfind hp, ← hid]
    constructor
    · intro hrebinds q hq hother
      -- The player of the handler would have to be where the one who comes back is.
      have hkept := hrebinds.kept handler q hq hother
      rw [withPlayers_players, get_reconnected, if_pos rfl] at hkept
      exact absurd (congrArg Player.playerId (Option.some.inj hkept)).symm hother
    · intro hreturns
      refine hwf.rebinds hp (fun q hq => ?_) choice.arrangement
      by_contra hother
      exact hreturns q hq hother p hmem rfl

/-- Two players have connected, the host and another one. -/
def twoPlayers : List Event :=
  [.accepted ⟨0, true⟩, .received ⟨0, true⟩ "CONNECT host".toList (sampleChoice 0),
    .accepted ⟨1, false⟩, .received ⟨1, false⟩ "CONNECT guest".toList (sampleChoice 1),
    .accepted ⟨2, false⟩]

/-- A line with the id of the host. -/
def hostLine : Text := line reconnectMessageType (sampleUuid 0).text

theorem isRun_twoPlayers : machine.IsRun sampleServer twoPlayers := ⟨⟨_, _, rfl⟩, by decide⟩

/-- The host comes back through a new connection. -/
theorem host_returns : Rebinds (machine.after sampleServer twoPlayers) ⟨2, false⟩
    (parseInstructionData hostLine)
    ((onMessageReceived ⟨2, false⟩ (some hostLine) (sampleChoice 2)).exec
      (machine.after sampleServer twoPlayers)).state := by
  have hnone : (machine.after sampleServer twoPlayers).players.get ⟨2, false⟩ = none := by decide
  refine (rebinds_iff isRun_twoPlayers.reachable _ _ (by decide)).2 fun q hq => ?_
  exact absurd (hnone.symm.trans hq) (Option.some_ne_none q).symm

/-- The connection of a player asks for another one, and its own player is lost. -/
theorem guest_lost : ¬∀ s, machine.Reachable s → ∀ handler l choice,
    parseInstructionType l = .ok reconnectMessageType →
      Rebinds s handler (parseInstructionData l)
        ((onMessageReceived handler (some l) choice).exec s).state := by
  intro h
  have hrebinds := h _ isRun_twoPlayers.reachable ⟨1, false⟩ hostLine (sampleChoice 2) (by decide)
  have hkept := hrebinds.kept ⟨1, false⟩ ⟨"guest".toList, 0, false, (sampleUuid 1).text, 0⟩
    (by decide) (by decide)
  exact absurd hkept (by decide)

end Server

end Gaze
