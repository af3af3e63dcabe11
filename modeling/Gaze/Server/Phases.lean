import Gaze.Server.Runs

/-!
# The phases of a game

* `starts_iff`: a `START` is only sent when a registered player asks for it and
  all the players are ready, and it is sent to all the clients.
* `phases_forward_iff`: the phases go forward, with no `START` after the lobby,
  exactly in the runs where nobody asks for a `START` after the lobby, all the
  players being ready.
-/

namespace Gaze

open Java Protocol

/-- The phase moves forward, or stays. -/
def GameState.Forward : GameState → GameState → Prop
  | .lobby, g => g = .lobby ∨ g = .mainGame
  | .mainGame, g => g = .mainGame ∨ g = .deathMatch ∨ g = .ended
  | .deathMatch, g => g = .deathMatch ∨ g = .ended
  | .ended, g => g = .ended

namespace Server

variable {s : Server} {handler : ClientHandler} {data : Text} {choice : Choice}

/-- The event is a `START` from a registered player, while all the players are
    ready. -/
def Starts (s : Server) : Event → Prop
  | .received handler l _ => (s.players.get handler).isSome ∧
      parseInstructionType l = .ok startMessageType ∧ s.areAllPlayerReady
  | _ => False

instance (s : Server) : ∀ e, Decidable (s.Starts e)
  | .received handler l _ => inferInstanceAs (Decidable ((s.players.get handler).isSome ∧
      parseInstructionType l = .ok startMessageType ∧ s.areAllPlayerReady))
  | .accepted _ | .disconnected _ | .stopped | .validated _ | .drawn _ _ =>
    inferInstanceAs (Decidable False)

/-! ## What is sent -/

theorem withData_ne_start {type data : Text} (h : type.head? ≠ some 'S') (hne : type ≠ []) :
    withData type data ≠ buildStartInstruction := by
  obtain ⟨c, type, rfl⟩ := List.exists_cons_of_ne_nil hne
  intro heq
  have hhead := congrArg List.head? heq
  exact h hhead

theorem playerListInstruction_ne_start {type : Text} (h : type.head? ≠ some 'S') (hne : type ≠ [])
    (players : List Player) : buildPlayerListInstruction type players ≠ buildStartInstruction := by
  rw [buildPlayerListInstruction_eq]
  exact withData_ne_start h hne

theorem mem_broadcast {message text : Text} :
    (handler, text) ∈ s.broadcast message ↔ handler ∈ s.clients ∧ text = message := by
  simp [broadcast, eq_comm]

/-- No `START` is sent. -/
def NoStart (sent : List Sent) : Prop := ∀ handler, (handler, buildStartInstruction) ∉ sent

theorem NoStart.nil : NoStart [] := fun _ => List.not_mem_nil

theorem NoStart.cons {handler : ClientHandler} {message : Text} {sent : List Sent}
    (h : message ≠ buildStartInstruction) (hs : NoStart sent) :
    NoStart ((handler, message) :: sent) := by
  intro h' hmem
  rcases List.mem_cons.1 hmem with heq | hmem
  · exact h (congrArg Prod.snd heq).symm
  · exact hs h' hmem

theorem noStart_broadcast {message : Text} (h : message ≠ buildStartInstruction) :
    NoStart (s.broadcast message) := fun _ hmem => h (mem_broadcast.1 hmem).2.symm

theorem noStart_playerList : NoStart s.playerList :=
  noStart_broadcast (playerListInstruction_ne_start (by decide) (by decide) _)

theorem noStart_finishMainGame (players : List Player) :
    NoStart ((finishMainGame players choice).exec s).emitted := by
  cases players with
  | nil => simpa [finishMainGame, index] using NoStart.nil
  | cons first players =>
    rw [exec_finishMainGame]
    split_ifs
    · split
      · refine noStart_broadcast ?_
        rw [buildDeathMatchInstruction_eq]
        exact withData_ne_start (by decide) (by decide)
      · exact .nil
    · exact noStart_broadcast (playerListInstruction_ne_start (by decide) (by decide) _)

theorem noStart_onAnamorphosisFound {p : Player} (hp : s.players.get handler = some p) :
    NoStart ((onAnamorphosisFound handler data choice).exec s).emitted := by
  cases hd : parseAnamorphosisFoundMessage data with
  | error e =>
    rw [exec_onAnamorphosisFound_of_error hd]
    exact .nil
  | ok d =>
    rw [exec_onAnamorphosisFound hp hd]
    cases s.gameState with
    | lobby | ended => exact .nil
    | deathMatch =>
      dsimp only
      split_ifs
      · exact .nil
      · exact noStart_broadcast (playerListInstruction_ne_start (by decide) (by decide) _)
    | mainGame =>
      dsimp only
      split_ifs
      · exact .nil
      · exact noStart_finishMainGame _
      · exact noStart_playerList

/-- What a line does to the phase and to the `START`s, when it starts nothing. -/
theorem noStart_received {l : Text} (h : ¬s.Starts (.received handler l choice)) :
    NoStart ((onMessageReceived handler (some l) choice).exec s).emitted := by
  have hcases := receiving s handler l choice
  generalize (onMessageReceived handler (some l) choice).exec s = o at hcases ⊢
  cases hcases with
  | unreadable | ignored | unnamed | roomUnnamed | roomKept => exact .nil
  | connected =>
    exact (noStart_playerList.cons (withData_ne_start (by decide) (by decide))).cons
      (withData_ne_start (by decide) (by decide))
  | late | unknown | notReady => exact NoStart.nil.cons (by decide)
  | recognised => exact NoStart.nil.cons (withData_ne_start (by decide) (by decide))
  | disconnected | ready => exact noStart_playerList
  | started p hp htype hready => exact absurd ⟨by simp [hp], htype, hready⟩ h
  | roomNamed => exact noStart_broadcast (withData_ne_start (by decide) (by decide))
  | found p hp => exact noStart_onAnamorphosisFound hp

/-- A `START` that is accepted. -/
theorem exec_starts {l : Text} (h : s.Starts (.received handler l choice)) :
    (onMessageReceived handler (some l) choice).exec s =
      ⟨s.withGameState .mainGame, s.broadcast buildStartInstruction, .ok ()⟩ := by
  obtain ⟨hbound, htype, hready⟩ := h
  obtain ⟨p, hp⟩ := Option.isSome_iff_exists.1 hbound
  rw [exec_received_start hp htype, exec_onStart, if_pos hready]

/-- A `START` is only sent when a registered player asks for it and all the players
    are ready, and it is sent to all the clients. -/
theorem starts_iff (e : Event) : (handler, buildStartInstruction) ∈ (s.handle e).emitted ↔
    s.Starts e ∧ handler ∈ s.clients := by
  cases e with
  | received h l c =>
    rw [handle]
    by_cases hstarts : s.Starts (.received h l c)
    · rw [exec_starts hstarts, mem_broadcast]
      simp [hstarts]
    · simp [hstarts, noStart_received hstarts handler]
  | disconnected h =>
    rw [handle, exec_onClientDisconnected]
    split_ifs
    · simp [Starts, noStart_playerList handler]
    · simp [Starts]
  | stopped =>
    rw [handle, exec_onServerStopped, mem_broadcast]
    simp +decide [Starts]
  | accepted h => simp [handle, Starts]
  | validated a => simp [handle, Starts]
  | drawn d random => simp [handle, Starts]

/-! ## The phases -/

theorem Forward.refl (g : GameState) : g.Forward g := by
  cases g <;> simp [GameState.Forward]

/-- A find moves the phase forward. -/
theorem forward_onAnamorphosisFound {p : Player} (hp : s.players.get handler = some p) :
    s.gameState.Forward ((onAnamorphosisFound handler data choice).exec s).state.gameState := by
  cases hd : parseAnamorphosisFoundMessage data with
  | error e =>
    rw [exec_onAnamorphosisFound_of_error hd]
    exact Forward.refl _
  | ok d =>
    have hphase : (s.credited handler d).gameState = s.gameState := rfl
    rw [exec_onAnamorphosisFound hp hd]
    cases hs : s.gameState with
    | lobby | ended => simp [hphase, hs, GameState.Forward]
    | deathMatch =>
      dsimp only
      split_ifs <;> simp [hphase, hs, GameState.Forward]
    | mainGame =>
      dsimp only
      split_ifs
      · simp [hphase, hs, GameState.Forward]
      -- The main game goes to the death match, or to its end; both are later.
      · cases (s.credited handler d).players.values with
        | nil => simp [finishMainGame, index, hphase, hs, GameState.Forward]
        | cons first players =>
          rw [exec_finishMainGame]
          split_ifs
          · split <;> simp [GameState.Forward]
          · simp [GameState.Forward]
      · simp [hphase, hs, GameState.Forward]

/-- Without `START`, the phase moves forward. -/
theorem forward_handle {e : Event} (h : ¬s.Starts e) :
    s.gameState.Forward (s.handle e).state.gameState := by
  cases e with
  | received handler l choice =>
    have hcases := receiving s handler l choice
    rw [handle]
    generalize (onMessageReceived handler (some l) choice).exec s = o at hcases ⊢
    cases hcases with
    | started p hp htype hready =>
      -- Only a `START` that is accepted may go back to the main game.
      exact absurd ⟨by simp [hp], htype, hready⟩ h
    | found p hp => exact forward_onAnamorphosisFound hp
    | _ => exact Forward.refl _
  | disconnected h =>
    rw [handle, exec_onClientDisconnected]
    exact Forward.refl _
  | stopped =>
    rw [handle, exec_onServerStopped]
    exact Forward.refl _
  | accepted | validated | drawn => exact Forward.refl _

/-- The step moves the phase forward, and sends no `START` after the lobby. -/
def MovesForward (s : Server) (e : Event) : Prop :=
  s.gameState.Forward (s.handle e).state.gameState ∧
    (s.gameState ≠ .lobby → NoStart (s.handle e).emitted)

/-- A `START` is accepted after the lobby. -/
def StartsLate (s : Server) (e : Event) : Prop := s.gameState ≠ .lobby ∧ s.Starts e

instance (s : Server) (e : Event) : Decidable (s.StartsLate e) :=
  inferInstanceAs (Decidable (_ ∧ _))

theorem movesForward_iff {e : Event} (he : s.Enabled e) : s.MovesForward e ↔ ¬s.StartsLate e := by
  constructor
  · rintro ⟨-, hno⟩ ⟨hphase, hstarts⟩
    cases e with
    | received handler l choice =>
      exact hno hphase handler ((starts_iff _).2 ⟨hstarts, he.1⟩)
    | _ => exact hstarts
  · intro hlate
    by_cases hstarts : s.Starts e
    · have hlobby : s.gameState = .lobby := by
        by_contra hphase
        exact hlate ⟨hphase, hstarts⟩
      refine ⟨?_, fun hphase => absurd hlobby hphase⟩
      cases e with
      | received handler l choice =>
        rw [handle, exec_starts hstarts, hlobby]
        exact .inr rfl
      | _ => exact hstarts.elim
    · exact ⟨forward_handle hstarts, fun _ h hmem => hstarts ((starts_iff e).1 hmem).1⟩

/-- The phases go forward, with no `START` after the lobby, exactly in the runs where
    no `START` is accepted after the lobby. -/
theorem phases_forward_iff {es : List Event} (h : machine.IsRun s es) :
    machine.Along MovesForward s es ↔ machine.Along (fun s e => ¬s.StartsLate e) s es :=
  h.along_congr fun _ _ _ he => movesForward_iff he

theorem sampleRun_forward : machine.Along MovesForward sampleServer sampleRun :=
  (phases_forward_iff isRun_sampleRun).2 (by decide)

/-- A second `START` is sent in the main game. -/
theorem second_start : ¬∀ s es, machine.IsRun s es → machine.Along MovesForward s es := by
  intro h
  have hrun : machine.IsRun sampleServer (sampleRun ++
      [.received ⟨0, true⟩ "START".toList (sampleChoice 1)]) := ⟨⟨_, _, rfl⟩, by decide⟩
  have hlast := (Machine.along_append.1 (h _ _ hrun)).2.1.2 (by decide) ⟨0, true⟩
  exact absurd hlast (by decide)

end Server

end Gaze
