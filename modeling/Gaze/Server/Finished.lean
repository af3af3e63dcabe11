import Gaze.Server.EndOfGame
import Gaze.Server.Ledger

/-!
# The final list of the players

A find ends the game in the death match, and in the main game when it is the fourth
one of a player and the first two players have different scores. All the players
are then told the final list.

* `handle_of_closing`, `quiet_of_not_closing`: when the game ends, and what is sent.
* `ranks_iff`: every final list has all the players, the best first, exactly in the
  runs where the map of the players happens to be in this order.
-/

namespace Gaze

open Java Protocol

namespace Server

/-! ## When the game ends -/

/-- The server once the find that ends the game has been credited, if the event is such
    a find. -/
def closing (s : Server) : Event → Option Server
  | .received handler l _ =>
    match s.players.get handler, parseAnamorphosisFoundMessage (parseInstructionData l) with
    | some p, .ok d =>
      if IsFind l ∧ (s.credited handler d).unscored = false ∧ (s.gameState = .deathMatch ∨
          s.gameState = .mainGame ∧ p.nbFoundAnamorphosis + 1 ≥ 4 ∧
            (leaders (s.credited handler d).players.values).length ≤ 1) then
        some (s.credited handler d)
      else none
    | _, _ => none
  | _ => none

/-- Nobody is told a final list, and the game does not end. -/
structure Quiet (s : Server) (o : Outcome Server Sent Unit) : Prop where
  silent : ∀ m ∈ o.emitted, ¬IsInstruction finishedInstructionType m.2
  goes_on : o.state.gameState = .ended → s.gameState = .ended

variable {s : Server} {handler : ClientHandler} {data : Text} {choice : Choice} {e : Event}
  {es : List Event}

/-- An instruction begins like its type. -/
theorem IsInstruction.head?_eq {type text : Text} (h : IsInstruction type text) {c : Char}
    (htext : text.head? = some c) (hc : isTerminator c = false) (hspace : c ≠ ' ') :
    type.head? = some c := by
  obtain ⟨text, rfl⟩ := List.head?_eq_some_iff.1 htext
  obtain ⟨l, hfeed, htype⟩ := h
  rw [LineReader.feed_cons, LineReader.step_plain hc] at hfeed
  simp only [Option.toList_none, List.nil_append, Prod.mk.eta] at hfeed
  have hl : l.head? = some c := LineReader.head?_feed rfl (by simp) hfeed
  obtain ⟨l', rfl⟩ := List.head?_eq_some_iff.1 hl
  obtain ⟨t, rest, hsplit⟩ := split_cons hspace l'
  rw [parseInstructionType, hsplit] at htype
  rw [← Except.ok.inj htype]
  rfl

/-- Only the final lists begin like one. -/
theorem not_finished {text : Text} {c : Char} (htext : text.head? = some c)
    (hc : isTerminator c = false ∧ c ≠ ' ' ∧ c ≠ 'F' := by decide) :
    ¬IsInstruction finishedInstructionType text := by
  intro h
  have hhead := h.head?_eq htext hc.1 hc.2.1
  exact hc.2.2 (Option.some.inj hhead).symm

theorem Quiet.nil {s' : Server} {r : Except Throwable Unit}
    (hphase : s'.gameState = .ended → s.gameState = .ended) : Quiet s ⟨s', [], r⟩ :=
  ⟨fun _ hm => absurd hm List.not_mem_nil, hphase⟩

theorem Quiet.cons {s' : Server} {sent : List Sent} {r : Except Throwable Unit} {text : Text}
    (htext : ¬IsInstruction finishedInstructionType text) (h : Quiet s ⟨s', sent, r⟩) :
    Quiet s ⟨s', (handler, text) :: sent, r⟩ := by
  refine ⟨fun m hm => ?_, h.goes_on⟩
  rcases List.mem_cons.1 hm with rfl | hm
  · exact htext
  · exact h.silent m hm

theorem quiet_broadcast {s₁ s' : Server} {r : Except Throwable Unit} {text : Text}
    (htext : ¬IsInstruction finishedInstructionType text)
    (hphase : s'.gameState = .ended → s.gameState = .ended) :
    Quiet s ⟨s', s₁.broadcast text, r⟩ := by
  refine ⟨fun m hm => ?_, hphase⟩
  obtain ⟨client, -, rfl⟩ := List.mem_map.1 hm
  exact htext

theorem quiet_playerList {s₁ s' : Server} {r : Except Throwable Unit}
    (hphase : s'.gameState = .ended → s.gameState = .ended) :
    Quiet s ⟨s', s₁.playerList, r⟩ := by
  refine quiet_broadcast ?_ hphase
  rw [buildPlayersInstruction, buildPlayerListInstruction_eq]
  exact not_finished (c := 'P') rfl

/-- A find that does not end the game. -/
theorem quiet_found {l : Text} {p : Player} (hp : s.players.get handler = some p) (hl : IsFind l)
    (hnot : s.closing (.received handler l choice) = none) :
    Quiet s ((onAnamorphosisFound handler (parseInstructionData l) choice).exec s) := by
  cases hd : parseAnamorphosisFoundMessage (parseInstructionData l) with
  | error e =>
    rw [exec_onAnamorphosisFound_of_error hd]
    exact .nil id
  | ok d =>
    have hphase : (s.credited handler d).gameState = s.gameState := rfl
    simp only [closing, hp, hd] at hnot
    rw [exec_onAnamorphosisFound hp hd]
    cases hs : s.gameState with
    | lobby | ended => exact .nil id
    | deathMatch =>
      dsimp only
      split_ifs with hunscored
      · exact .nil id
      · exact absurd hnot (by simp [hl, hs, hunscored])
    | mainGame =>
      dsimp only
      split_ifs with hfour hunscored
      · exact .nil id
      -- A fourth find that closes nothing begins a death match, unless nothing can be drawn.
      · obtain ⟨first, rest, hplayers⟩ := List.exists_cons_of_ne_nil (players_credited_ne_nil hp d)
        have htie : (leaders (first :: rest)).length > 1 := by
          by_contra hsingle
          rw [← hplayers] at hsingle
          exact absurd hnot (by simp [hl, hs, hunscored, hfour, not_lt.1 hsingle])
        rw [hplayers, exec_finishMainGame, if_pos htie]
        split
        · refine quiet_broadcast ?_ (by simp)
          rw [buildDeathMatchInstruction_eq]
          exact not_finished (c := 'D') rfl
        · exact .nil (by simp)
      · exact quiet_playerList id

/-- An event that does not end the game tells nobody a final list. -/
theorem quiet_of_not_closing (hnot : s.closing e = none) : Quiet s (s.handle e) := by
  cases e with
  | received handler l choice =>
    have hcases := receiving s handler l choice
    rw [handle]
    generalize (onMessageReceived handler (some l) choice).exec s = o at hcases ⊢
    -- No answer begins as a `FINISHED` does.
    cases hcases with
    | unreadable | ignored | unnamed | roomUnnamed | roomKept => exact .nil id
    | connected =>
      exact .cons (not_finished (c := 'I') rfl)
        (.cons (not_finished (c := 'R') rfl) (quiet_playerList id))
    | late | unknown => exact .cons (not_finished (c := 'G') rfl) (.nil id)
    | recognised => exact .cons (not_finished (c := 'I') rfl) (.nil id)
    | disconnected | ready => exact quiet_playerList id
    | started => exact quiet_broadcast (not_finished (c := 'S') rfl) (by simp)
    | notReady => exact .cons (not_finished (c := 'N') rfl) (.nil id)
    | roomNamed => exact quiet_broadcast (not_finished (c := 'R') rfl) id
    | found p hp hl => exact quiet_found hp hl hnot
  | disconnected h =>
    rw [handle, exec_onClientDisconnected]
    split_ifs
    · exact quiet_playerList id
    · exact .nil id
  | stopped =>
    rw [handle, exec_onServerStopped]
    exact quiet_broadcast (not_finished (c := 'S') rfl) id
  | accepted | validated | drawn => exact .nil id

/-- What a find that ends the game is. -/
theorem closing_eq_some {c : Server} (h : s.closing e = some c) :
    ∃ handler l choice p d, e = .received handler l choice ∧ IsFind l ∧
      s.players.get handler = some p ∧
      parseAnamorphosisFoundMessage (parseInstructionData l) = .ok d ∧ c = s.credited handler d ∧
      c.unscored = false ∧ (s.gameState = .deathMatch ∨ s.gameState = .mainGame ∧
        p.nbFoundAnamorphosis + 1 ≥ 4 ∧ (leaders c.players.values).length ≤ 1) := by
  cases e with
  | received handler l choice =>
    rw [closing] at h
    split at h
    · rename_i p d hp hd
      split_ifs at h with hif
      obtain rfl := Option.some.inj h
      exact ⟨handler, l, choice, p, d, rfl, hif.1, hp, hd, rfl, hif.2⟩
    · exact absurd h (by simp)
  | _ => exact absurd h (by simp [closing])

/-- The find that ends the game is credited, and everybody is told the final list. -/
theorem handle_of_closing {c : Server} (h : s.closing e = some c) :
    s.handle e = ⟨c.withGameState .ended,
      c.broadcast (buildFinishedInstruction c.players.values), .ok ()⟩ := by
  obtain ⟨handler, l, choice, p, d, rfl, hl, hp, hd, rfl, hscored, hphase⟩ := closing_eq_some h
  rw [handle, exec_received_found hp hl, exec_onAnamorphosisFound hp hd]
  rcases hphase with hs | ⟨hs, hfour, hsingle⟩
  · simp [hs, hscored]
  · obtain ⟨first, rest, hplayers⟩ := List.exists_cons_of_ne_nil (players_credited_ne_nil hp d)
    have hnot : ¬(leaders (first :: rest)).length > 1 := by
      rw [← hplayers]
      exact not_lt.2 hsingle
    simp only [hs, if_pos hfour, hscored, hplayers, exec_finishMainGame, if_neg hnot]
    rfl

/-! ## The final list -/

/-- The text is a final list of the players: it has each of them once, the best
    first. -/
def Ranks (players : List Player) (text : Text) : Prop :=
  ∃ l ps, LineReader.start.feed text = (LineReader.start, [l]) ∧
    parseInstructionType l = .ok finishedInstructionType ∧
    parsePlayerListData (parseInstructionData l) = .ok ps ∧ ps.Perm players ∧
    ps.Pairwise fun p q => q.score.toInt ≤ p.score.toInt

/-- The final lists the step sends are those of the registered players. -/
def RanksPlayers (s : Server) (e : Event) : Prop :=
  ∀ m ∈ (s.handle e).emitted, IsInstruction finishedInstructionType m.2 →
    Ranks (s.handle e).state.players.values m.2

/-- The best players come first in the order of the map. -/
def InOrder (s : Server) : Prop :=
  s.players.values.Pairwise fun p q => q.score.toInt ≤ p.score.toInt

instance (s : Server) : Decidable s.InOrder := inferInstanceAs (Decidable (List.Pairwise _ _))

/-- If the event ends the game, the best players come first in the order of the map. -/
def EndsInOrder (s : Server) (e : Event) : Prop := ∀ c ∈ s.closing e, c.InOrder

instance (s : Server) (e : Event) : Decidable (s.EndsInOrder e) :=
  inferInstanceAs (Decidable (∀ c ∈ s.closing e, c.InOrder))

/-- The players are listed in the order of the map. -/
theorem ranks_finished_iff {players : List Player} (hid : ∀ p ∈ players, isUuid p.playerId)
    (hne : players ≠ []) : Ranks players (buildFinishedInstruction players) ↔
      players.Pairwise fun p q => q.score.toInt ≤ p.score.toInt := by
  have hplain : ∀ p ∈ players, Plain p.playerId := fun p hp => plain_of_isUuid (hid p hp)
  have hfeed := feed_withData (by decide : Plain finishedInstructionType)
    (playerListData_not_terminator hplain)
  have hdata : parseInstructionData (line finishedInstructionType (playerListData players)) =
      playerListData players :=
    parseInstructionData_line (by decide) (by decide) (space_not_mem_playerListData hplain)
  have hparse := parsePlayerListData_playerListData hplain hne
  rw [buildFinishedInstruction, buildPlayerListInstruction_eq]
  constructor
  · rintro ⟨l, ps, hl, -, hps, -, hsorted⟩
    obtain rfl := List.singleton_inj.1 (congrArg Prod.snd (hfeed.symm.trans hl))
    rw [hdata, hparse] at hps
    exact Except.ok.inj hps ▸ hsorted
  · intro hsorted
    refine ⟨_, players, hfeed, parseInstructionType_line (by decide) (by decide) _, ?_, .refl _,
      hsorted⟩
    rw [hdata, hparse]

theorem WellFormed.ranksPlayers_iff (hs : s.WellFormed) (he : s.Enabled e) :
    s.RanksPlayers e ↔ s.EndsInOrder e := by
  cases hclosing : s.closing e with
  | none =>
    refine iff_of_true (fun m hm hfinished => ?_) fun c hc => absurd hc (by simp [hclosing])
    exact absurd hfinished ((quiet_of_not_closing hclosing).silent m hm)
  | some c =>
    have hwf : (c.withGameState .ended).WellFormed := by
      have hafter := hs.handle e he
      rwa [handle_of_closing hclosing] at hafter
    have hid : ∀ p ∈ c.players.values, Java.isUuid p.playerId := hwf.isUuid
    obtain ⟨handler, l, choice, p, d, rfl, -, hp, -, hc, -⟩ := closing_eq_some hclosing
    have hranks := ranks_finished_iff hid (hc ▸ players_credited_ne_nil hp d)
    have hclient : handler ∈ c.clients := by
      rw [hc]
      exact he.1
    rw [RanksPlayers, handle_of_closing hclosing]
    -- The list has been sent to the one who ends the game, among others.
    constructor
    · intro h c' hc'
      obtain rfl : c = c' := Option.some.inj (hclosing.symm.trans hc')
      have hlisted := h (handler, buildFinishedInstruction c.players.values)
        (List.mem_map_of_mem hclient) (isInstruction_finished hid)
      exact hranks.1 hlisted
    · intro h m hm _
      obtain ⟨-, -, rfl⟩ := List.mem_map.1 hm
      exact hranks.2 (h c hclosing)

/-- The final lists have all the players, the best first, exactly in the runs in which
    the map of the players is in this order whenever a find ends the game. -/
theorem ranks_iff (h : machine.IsRun s es) :
    machine.Along RanksPlayers s es ↔ machine.Along EndsInOrder s es :=
  h.along_congr fun _ _ hs he => (wellFormed_of_reachable hs).ranksPlayers_iff he

/-- The first player finds four anamorphoses, the others none. -/
theorem first_player_ranks : machine.Along RanksPlayers sampleServer
    (threeFinds 0 ++ [.received ⟨0, true⟩ "ANAM-FOUND 0".toList (sampleChoice 7)]) :=
  (ranks_iff ⟨⟨_, _, rfl⟩, by decide⟩).2 (by decide +kernel)

/-- The second player wins, and the third one is better than the first one. -/
def wrongOrder : List Event :=
  joins 0 ++ joins 1 ++ joins 2 ++ [.received ⟨0, true⟩ "START".toList (sampleChoice 7),
    .received ⟨2, false⟩ "ANAM-FOUND 0".toList (sampleChoice 7)] ++
    List.replicate 4 (.received ⟨1, false⟩ "ANAM-FOUND 0".toList (sampleChoice 7))

/-- The players are listed in the order in which they have joined. -/
theorem wrong_order : ¬∀ s es, machine.IsRun s es → machine.Along RanksPlayers s es := by
  intro h
  have hrun : machine.IsRun sampleServer wrongOrder := ⟨⟨_, _, rfl⟩, by decide⟩
  have hordered : machine.Along EndsInOrder sampleServer wrongOrder :=
    (hrun.along_congr fun _ _ hs he => (wellFormed_of_reachable hs).ranksPlayers_iff he).1
      (h _ _ hrun)
  exact absurd hordered (by decide +kernel)

end Server

end Gaze
