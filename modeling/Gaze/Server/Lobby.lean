import Gaze.Server.Exceptions
import Gaze.Server.Phases

/-!
# The lobby

Players gather in the lobby, until the game starts.

* `Built.fits_iff`: a server is built for a number of players, which it keeps and
  never looks at. There are no more players than that exactly in the runs where
  nobody new connects while they are that many.
* `leaves_lobby_iff`: the game should start when the host asks for it, with two
  players at least, who are all ready. Only a `START` that finds all the players
  ready leaves the lobby, whoever sends it; so this holds exactly in the runs where
  each of these `START`s comes from the host, with two players at least.
-/

namespace Gaze

open Java Protocol

namespace Server

variable {s : Server} {handler : ClientHandler} {data : Text} {choice : Choice}

/-! ## The number of players -/

/-- The event is an accepted `CONNECT` from a handler without player. -/
def Admits (s : Server) : Event → Prop
  | .received handler l _ => s.players.get handler = none ∧
      parseInstructionType l = .ok connectMessageType ∧
      (URLDecoder.decode (parseInstructionData l)).isSome ∧ s.gameState = .lobby
  | _ => False

instance (s : Server) : ∀ e, Decidable (s.Admits e)
  | .received handler l _ => inferInstanceAs (Decidable (s.players.get handler = none ∧
      parseInstructionType l = .ok connectMessageType ∧
      (URLDecoder.decode (parseInstructionData l)).isSome ∧ s.gameState = .lobby))
  | .accepted _ | .disconnected _ | .stopped | .validated _ | .drawn _ _ =>
    inferInstanceAs (Decidable False)

/-- A new player is one more. -/
theorem size_admits {e : Event} (h : s.Admits e) :
    (s.handle e).state.players.size = s.players.size + 1 := by
  cases e with
  | received handler l choice =>
    obtain ⟨hnone, htype, hname, hlobby⟩ := h
    obtain ⟨name, hname⟩ := urlDecode_ok_iff.2 hname
    rw [handle, exec_received htype (by simp), dispatch, if_pos rfl, exec_onConnect,
      parseConnectInstructionData, hname]
    simp only [if_pos hlobby, connected, withPlayers_players]
    exact HashMap.size_put_of_new hnone _ _
  | _ => exact h.elim

/-- Nothing else makes more of them. -/
theorem size_handle_le {e : Event} (h : ¬s.Admits e) :
    (s.handle e).state.players.size ≤ s.players.size := by
  cases e with
  | received handler l choice =>
    have hcases := receiving s handler l choice
    rw [handle]
    generalize (onMessageReceived handler (some l) choice).exec s = o at hcases ⊢
    cases hcases with
    | connected name htype hname hlobby =>
      -- The handler had a player already, who is replaced.
      have hbound : s.players.get handler ≠ none := fun hnone =>
        h ⟨hnone, htype, urlDecode_ok_iff.1 ⟨name, hname⟩, hlobby⟩
      exact (HashMap.size_put_of_mem hbound _ _).le
    | recognised k p _ _ hp => exact HashMap.size_remove_put_le hp _
    | disconnected => exact HashMap.size_remove_le _ _
    | ready => exact (HashMap.size_replace _ _ _).le
    | found p hp =>
      rw [(onAnamorphosisFound_holds _ _ hp).players]
      exact (HashMap.size_replace _ _ _).le
    | _ => exact le_rfl
  | disconnected handler =>
    rw [handle, exec_onClientDisconnected]
  | stopped =>
    rw [handle, exec_onServerStopped]
    exact Nat.zero_le _
  | accepted | validated | drawn => exact le_rfl

/-- A server with the number of players it is built for, the `maxPlayer` of its
    `ServerBase`. -/
structure Built where
  server : Server
  maxPlayer : Int32

namespace Built

/-- The constructor. -/
def new (roomName : Text) (anamorphDictionary : AnamorphDictionary) (maxPlayer : Int32) : Built :=
  ⟨Server.new roomName anamorphDictionary, maxPlayer⟩

/-- The server as a machine: nothing reads the number of players it is built for. -/
def machine : Machine Built Event where
  Init b := ∃ roomName all maxPlayer, b = new roomName (AnamorphDictionary.new all) maxPlayer
  Enabled b e := b.server.Enabled e
  step b e := ⟨(b.server.handle e).state, b.maxPlayer⟩

instance (b : Built) (e : Event) : Decidable (machine.Enabled b e) :=
  inferInstanceAs (Decidable (b.server.Enabled e))

/-- There are no more players than the server is built for. -/
def Fits (b : Built) : Prop := (b.server.players.size : ℤ) ≤ b.maxPlayer.toInt

/-- Whoever is admitted has a place. -/
def HasRoom (b : Built) (e : Event) : Prop :=
  b.server.Admits e → (b.server.players.size : ℤ) < b.maxPlayer.toInt

instance (b : Built) (e : Event) : Decidable (b.HasRoom e) :=
  inferInstanceAs (Decidable (_ → _))

theorem fits_step_iff {b : Built} {e : Event} (hb : b.Fits) :
    (machine.step b e).Fits ↔ b.HasRoom e := by
  have hfits : (machine.step b e).Fits ↔
      ((b.server.handle e).state.players.size : ℤ) ≤ b.maxPlayer.toInt := Iff.rfl
  by_cases h : b.server.Admits e
  · rw [hfits, size_admits h, HasRoom]
    push_cast
    simp only [h, true_implies, Int.add_one_le_iff]
  · have hle := size_handle_le h
    rw [Fits] at hb
    exact ⟨fun _ hadmits => absurd hadmits h, fun _ => hfits.2 (by omega)⟩

/-- There are never more players than the server is built for exactly in the runs where
    everyone who is admitted has a place, if the number is not negative. -/
theorem fits_iff {b : Built} {es : List Event} (h : machine.IsRun b es) :
    (∀ es', es' <+: es → (machine.after b es').Fits) ↔
      0 ≤ b.maxPlayer.toInt ∧ machine.Along HasRoom b es := by
  obtain ⟨roomName, all, maxPlayer, rfl⟩ := h.init
  exact h.always_iff (P := HasRoom) fun _ _ _ hb _ => fits_step_iff hb

/-- Some players connect, one after the other. -/
def gathered (n : ℕ) : List Event :=
  (List.range n).flatMap fun k => [.accepted ⟨k, k = 0⟩,
    .received ⟨k, k = 0⟩ "CONNECT player".toList (sampleChoice k)]

/-- There is a place for each of four players. -/
theorem four_players_fit : (machine.after (new "room".toList (.new []) 4) (gathered 4)).Fits :=
  (fits_iff ⟨⟨_, _, _, rfl⟩, by decide⟩).2 ⟨by decide, by decide⟩ _ List.prefix_rfl

/-- A fifth player connects to a server built for four. -/
theorem fifth_player_admitted :
    ¬∀ b es, machine.IsRun b es → ∀ es', es' <+: es → (machine.after b es').Fits := by
  intro h
  have hrun : machine.IsRun (new "room".toList (.new []) 4) (gathered 5) :=
    ⟨⟨_, _, _, rfl⟩, by decide⟩
  have hfits := h _ _ hrun _ List.prefix_rfl
  exact absurd hfits (by rw [Fits]; decide)

end Built

/-! ## The start of the game -/

/-- `Server.startGame`, which nothing calls. -/
def startGame : Method Unit := do
  if (← .reads fun s => s.players.size) < 2 then
    return ()
  if ¬(← .reads areAllPlayerReady) then
    return ()

/-- It looks at the players, and starts nothing. -/
theorem exec_startGame : startGame.exec s = ⟨s, [], .ok ()⟩ := by
  rw [startGame, Prog.exec_bind, Prog.exec_reads, Outcome.andThen_ok]
  split_ifs
  · rfl
  · rw [Prog.exec_bind, Prog.exec_reads, Outcome.andThen_ok]
    split_ifs <;> rfl

/-- If the step leaves the lobby, it is a `START` of the host, while there are two players
    at least, who are all ready. -/
def LeavesLobbyRight (s : Server) (e : Event) : Prop :=
  s.gameState = .lobby → (s.handle e).state.gameState ≠ .lobby →
    ∃ handler l choice, e = .received handler l choice ∧
      parseInstructionType l = .ok startMessageType ∧ handler.isHost ∧ 2 ≤ s.players.size ∧
      s.areAllPlayerReady

/-- A `START` that finds all the players ready in the lobby comes from the host, and
    they are two at least. -/
def HostStarts (s : Server) : Event → Prop
  | .received handler l choice => s.gameState = .lobby → s.Starts (.received handler l choice) →
      handler.isHost ∧ 2 ≤ s.players.size
  | _ => True

instance (s : Server) : ∀ e, Decidable (s.HostStarts e)
  | .received handler l choice => inferInstanceAs (Decidable (s.gameState = .lobby →
      s.Starts (.received handler l choice) → handler.isHost ∧ 2 ≤ s.players.size))
  | .accepted _ | .disconnected _ | .stopped | .validated _ | .drawn _ _ =>
    inferInstanceAs (Decidable True)

/-- A find in the lobby stays there. -/
theorem gameState_onAnamorphosisFound_of_lobby {p : Player} (hp : s.players.get handler = some p)
    (hs : s.gameState = .lobby) :
    ((onAnamorphosisFound handler data choice).exec s).state.gameState = .lobby := by
  cases hd : parseAnamorphosisFoundMessage data with
  | error e =>
    rw [exec_onAnamorphosisFound_of_error hd]
    exact hs
  | ok d =>
    rw [exec_onAnamorphosisFound hp hd, hs]
    exact hs

/-- Only a `START` that finds all the players ready leaves the lobby. -/
theorem leaves_lobby_iff_starts {e : Event} (hs : s.gameState = .lobby) :
    (s.handle e).state.gameState ≠ .lobby ↔ s.Starts e := by
  cases e with
  | received handler l choice =>
    by_cases hstarts : s.Starts (.received handler l choice)
    · rw [handle, exec_starts hstarts]
      simp [hstarts]
    · simp only [hstarts, iff_false, ne_eq, not_not]
      have hcases := receiving s handler l choice
      rw [handle]
      generalize (onMessageReceived handler (some l) choice).exec s = o at hcases ⊢
      cases hcases with
      | started p hp htype hready => exact absurd ⟨by simp [hp], htype, hready⟩ hstarts
      | found p hp => exact gameState_onAnamorphosisFound_of_lobby hp hs
      | _ => exact hs
  | disconnected handler =>
    rw [handle, exec_onClientDisconnected]
    simp [Starts, hs]
  | stopped =>
    rw [handle, exec_onServerStopped]
    simp [Starts, hs]
  | accepted | validated | drawn => simp [handle, Starts, hs]

theorem leavesLobbyRight_iff (e : Event) : s.LeavesLobbyRight e ↔ s.HostStarts e := by
  cases e with
  | received handler l choice =>
    constructor
    · intro h hlobby hstarts
      obtain ⟨handler', l', choice', heq, -, hhost, hsize, -⟩ :=
        h hlobby ((leaves_lobby_iff_starts hlobby).2 hstarts)
      obtain ⟨rfl, -, -⟩ := Event.received.inj heq
      exact ⟨hhost, hsize⟩
    · intro h hlobby hleaves
      have hstarts := (leaves_lobby_iff_starts hlobby).1 hleaves
      obtain ⟨hhost, hsize⟩ := h hlobby hstarts
      exact ⟨handler, l, choice, rfl, hstarts.2.1, hhost, hsize, hstarts.2.2⟩
  | _ => exact ⟨fun _ => trivial, fun _ hlobby hleaves =>
      ((leaves_lobby_iff_starts hlobby).1 hleaves).elim⟩

/-- The lobby is only left by a `START` of the host, with two players at least who are all
    ready, exactly in the runs where whoever sends a `START` that finds all the players
    ready in the lobby is the host, and they are two at least. -/
theorem leaves_lobby_iff {es : List Event} (h : machine.IsRun s es) :
    machine.Along LeavesLobbyRight s es ↔ machine.Along HostStarts s es :=
  h.along_congr fun _ e _ _ => leavesLobbyRight_iff e

/-- Two players get ready, and the host starts the game. -/
def sampleStart : List Event :=
  [.accepted ⟨0, true⟩, .received ⟨0, true⟩ "CONNECT host".toList (sampleChoice 0),
    .accepted ⟨1, false⟩, .received ⟨1, false⟩ "CONNECT guest".toList (sampleChoice 1),
    .received ⟨0, true⟩ "READY".toList (sampleChoice 2),
    .received ⟨1, false⟩ "READY".toList (sampleChoice 2),
    .received ⟨0, true⟩ "START".toList (sampleChoice 2)]

theorem sampleStart_leaves_lobby : machine.Along LeavesLobbyRight sampleServer sampleStart :=
  (leaves_lobby_iff ⟨⟨_, _, rfl⟩, by decide⟩).2 (by decide)

/-- The host, alone and ready, starts the game. -/
theorem host_starts_alone :
    ¬∀ s es, machine.IsRun s es → machine.Along LeavesLobbyRight s es := by
  intro h
  obtain ⟨-, -, -, hlast, -⟩ := h _ _ isRun_sampleRun
  obtain ⟨_, _, _, -, -, -, hsize, -⟩ := hlast (by decide) (by decide)
  exact absurd hsize (by decide)

end Server

end Gaze
