import Gaze.Server.Finished

/-!
# The death match

A `DEATHMATCH` names the players who have come first together. Only they should
play, and the first of them who finds an anamorphosis ends the game.

The server ends the game with the first find it receives, whoever has reported it:
the finds of the others may still be on their way.

* `ends_iff`: which events end a death match.
* `tied_player_ends_iff`: a player named by the `DEATHMATCH` ends each death match
  exactly in the runs where no other player reports a find during it.
-/

namespace Gaze

open Java Protocol

namespace Server

/-- The ids that a text names, if it is a `DEATHMATCH`. -/
def namedBy (text : Text) : Option (List Text) :=
  match (LineReader.start.feed text).2 with
  | [l] =>
    if parseInstructionType l = .ok deathMatchInstructionType then some (namedIds l) else none
  | _ => none

/-- The ids that the last `DEATHMATCH` has named, as long as the death match lasts. -/
def named (s : Server) (e : Event) (T : Option (List Text)) : Option (List Text) :=
  match (s.handle e).emitted.findSome? fun m => namedBy m.2 with
  | some T' => some T'
  | none => if (s.handle e).state.gameState = .deathMatch then T else none

/-- The server, and who plays the death match. -/
def deathMatches : Machine (Server × Option (List Text)) Event := machine.recording named none

/-- The event is a find of the player `id`. -/
def IsFindOf (s : Server) (id : Text) : Event → Prop
  | .received handler l _ => (s.players.get handler).map Player.playerId = some id ∧ IsFind l
  | _ => False

/-- If the step ends a death match, it is with a find of a player who plays it. -/
def TiedPlayerEnds (x : Server × Option (List Text)) (e : Event) : Prop :=
  x.1.gameState = .deathMatch → (x.1.handle e).state.gameState = .ended →
    ∀ T ∈ x.2, ∃ id ∈ T, x.1.IsFindOf id e

/-- During a death match, while every player has a score, a player who does not play it
    reports a find whose difficulty can be read. -/
def OutsiderFinds (x : Server × Option (List Text)) : Event → Prop
  | .received handler l _ => x.1.gameState = .deathMatch ∧ IsFind l ∧
      ∃ p ∈ x.1.players.get handler,
        ∃ d ∈ (parseAnamorphosisFoundMessage (parseInstructionData l)).toOption,
          (x.1.credited handler d).unscored = false ∧ ∃ T ∈ x.2, p.playerId ∉ T
  | _ => False

instance (x : Server × Option (List Text)) : ∀ e, Decidable (OutsiderFinds x e)
  | .received handler l _ => inferInstanceAs (Decidable (x.1.gameState = .deathMatch ∧ IsFind l ∧
      ∃ p ∈ x.1.players.get handler,
        ∃ d ∈ (parseAnamorphosisFoundMessage (parseInstructionData l)).toOption,
          (x.1.credited handler d).unscored = false ∧ ∃ T ∈ x.2, p.playerId ∉ T))
  | .accepted _ | .disconnected _ | .stopped | .validated _ | .drawn _ _ =>
    inferInstanceAs (Decidable False)

variable {s : Server} {e : Event} {es : List Event}

/-- A death match ends with the first find that is credited. -/
theorem ends_iff (hphase : s.gameState = .deathMatch) :
    (s.handle e).state.gameState = .ended ↔ (s.closing e).isSome := by
  cases hclosing : s.closing e with
  | none =>
    refine iff_of_false (fun hended => ?_) (by simp)
    have hstays := (quiet_of_not_closing hclosing).goes_on hended
    rw [hphase] at hstays
    exact absurd hstays (by simp)
  | some c =>
    rw [handle_of_closing hclosing]
    exact iff_of_true rfl rfl

/-- A step that ends a death match is a find of a player whom the `DEATHMATCH` has named,
    exactly if it is not the find of another player. -/
theorem tiedPlayerEnds_iff (x : Server × Option (List Text)) (e : Event) :
    TiedPlayerEnds x e ↔ ¬OutsiderFinds x e := by
  constructor
  · intro h houtsider
    cases e with
    | received handler l choice =>
      obtain ⟨hphase, hl, p, hp, d, hd, hscored, T, hT, hnot⟩ := houtsider
      have hd' : parseAnamorphosisFoundMessage (parseInstructionData l) = .ok d := by
        cases hparse : parseAnamorphosisFoundMessage (parseInstructionData l) with
        | error => simp [hparse, Except.toOption] at hd
        | ok => simpa [hparse, Except.toOption] using hd
      have hclosing : (x.1.closing (.received handler l choice)).isSome := by
        rw [Option.mem_def] at hp
        simp [closing, hp, hd', hl, hscored, hphase]
      obtain ⟨id, hid, hfind, -⟩ := h hphase ((ends_iff hphase).2 hclosing) T hT
      rw [hp, Option.map_some] at hfind
      exact hnot (Option.some.inj hfind ▸ hid)
    | _ => exact houtsider
  · intro hnot hphase hended T hT
    obtain ⟨c, hc⟩ := Option.isSome_iff_exists.1 ((ends_iff hphase).1 hended)
    obtain ⟨handler, l, choice, p, d, rfl, hl, hp, hd, rfl, hscored, -⟩ := closing_eq_some hc
    refine ⟨p.playerId, ?_, by rw [hp]; rfl, hl⟩
    by_contra hmem
    exact hnot ⟨hphase, hl, p, hp, d, by simp [hd, Except.toOption], hscored, T, hT, hmem⟩

/-- Each death match is ended by a find of a player whom the `DEATHMATCH` has named,
    exactly in the runs where no other player reports a find during it. -/
theorem tied_player_ends_iff (h : machine.IsRun s es) :
    deathMatches.Along TiedPlayerEnds (s, none) es ↔
      deathMatches.Along (fun x e => ¬OutsiderFinds x e) (s, none) es :=
  h.recording.along_congr fun x e _ _ => tiedPlayerEnds_iff x e

/-- The fourth find of a player, when the first players have the same score, begins a death
    match between them. -/
theorem handle_of_tie {handler : ClientHandler} {l : Text} {choice : Choice} {p : Player}
    {d : Difficulty} {a : Anamorphosis} {dict : AnamorphDictionary}
    (hphase : s.gameState = .mainGame) (hl : IsFind l) (hp : s.players.get handler = some p)
    (hd : parseAnamorphosisFoundMessage (parseInstructionData l) = .ok d)
    (hfour : p.nbFoundAnamorphosis + 1 ≥ 4) (hscored : (s.credited handler d).unscored = false)
    (htie : (leaders (s.credited handler d).players.values).length > 1)
    (hdrawn : s.anamorphDictionary.getRandom .medium false choice.random = (dict, some a)) :
    s.handle (.received handler l choice) =
      ⟨((s.credited handler d).withGameState .deathMatch).withDictionary dict,
        (s.credited handler d).broadcast (buildDeathMatchInstruction
          (leaders (s.credited handler d).players.values) (Integer.toString a.id)), .ok ()⟩ := by
  obtain ⟨first, rest, hplayers⟩ := List.exists_cons_of_ne_nil (players_credited_ne_nil hp d)
  rw [handle, exec_received_found hp hl, exec_onAnamorphosisFound hp hd]
  rw [hplayers] at htie ⊢
  simp only [hphase, if_pos hfour, hscored, exec_finishMainGame, if_pos htie]
  have hdrawn' : (s.credited handler d).anamorphDictionary.getRandom .medium false choice.random =
      (dict, some a) := hdrawn
  rw [hdrawn']
  rfl

/-! ## A sample death match -/

/-- Three players have joined the game: the first one has found three anamorphoses, for a
    score of 6, the second one two, for a score of 8. -/
def beforeTie : List Event :=
  joins 0 ++ joins 1 ++ joins 2 ++ [.received ⟨0, true⟩ "START".toList (sampleChoice 7)] ++
    List.replicate 3 (.received ⟨0, true⟩ "ANAM-FOUND 0".toList (sampleChoice 7)) ++
    List.replicate 2 (.received ⟨1, false⟩ "ANAM-FOUND 1".toList (sampleChoice 7))

/-- The server with the death match that the fourth find of the first player begins. -/
def tiedServer (s : Server) : Server :=
  ((s.credited ⟨0, true⟩ .easy).withGameState .deathMatch).withDictionary
    (s.anamorphDictionary.getRandom .medium false 0).1

/-- An easy find. -/
def findBy (handler : ClientHandler) : Event :=
  .received handler "ANAM-FOUND 0".toList (sampleChoice 7)

theorem handle_findBy {s : Server} (hphase : s.gameState = .mainGame)
    (hp : s.players.get ⟨0, true⟩ = some ⟨"player".toList, 6, true, (sampleUuid 0).text, 3⟩)
    (hscored : (s.credited ⟨0, true⟩ .easy).unscored = false)
    (htie : (leaders (s.credited ⟨0, true⟩ .easy).players.values).length > 1)
    (hdrawn : (s.anamorphDictionary.getRandom .medium false 0).2 =
      some ⟨1, .medium, "b".toList⟩) :
    s.handle (findBy ⟨0, true⟩) = ⟨s.tiedServer, (s.credited ⟨0, true⟩ .easy).broadcast
      (buildDeathMatchInstruction (leaders (s.credited ⟨0, true⟩ .easy).players.values)
        (Integer.toString 1)), .ok ()⟩ := by
  have hdraw : s.anamorphDictionary.getRandom .medium false (sampleChoice 7).random =
      ((s.anamorphDictionary.getRandom .medium false 0).1, some ⟨1, .medium, "b".toList⟩) :=
    Prod.ext rfl hdrawn
  have hl : IsFind "ANAM-FOUND 0".toList := by decide
  have hd : parseAnamorphosisFoundMessage (parseInstructionData "ANAM-FOUND 0".toList) =
      .ok .easy := by decide
  rw [findBy, handle_of_tie hphase hl hp hd (by decide) hscored htie hdraw]
  rfl

/-- The fourth find of the first player begins a death match with the second one. -/
theorem after_tie : deathMatches.after (sampleServer, none) (beforeTie ++ [findBy ⟨0, true⟩]) =
    ((machine.after sampleServer beforeTie).tiedServer,
      some [(sampleUuid 0).text, (sampleUuid 1).text]) := by
  have hbefore : deathMatches.after (sampleServer, none) beforeTie =
      (machine.after sampleServer beforeTie, none) :=
    Prod.ext (Machine.after_recording_fst named none _) (by decide +kernel)
  have hhandle := handle_findBy (s := machine.after sampleServer beforeTie) (by decide)
    (by decide) (by decide) (by decide) (by decide)
  have hnamed : named (machine.after sampleServer beforeTie) (findBy ⟨0, true⟩) none =
      some [(sampleUuid 0).text, (sampleUuid 1).text] := by
    rw [named, hhandle]
    decide +kernel
  rw [Machine.after_append, hbefore]
  exact Prod.ext (congrArg Outcome.state hhandle) hnamed

theorem isRun_tie (handler : ClientHandler)
    (hh : handler ∈ [⟨0, true⟩, ⟨1, false⟩, ⟨2, false⟩]) :
    machine.IsRun sampleServer (beforeTie ++ [findBy ⟨0, true⟩] ++ [findBy handler]) := by
  refine ⟨⟨_, _, rfl⟩, Machine.along_append.2 ⟨by decide, ?_, trivial⟩⟩
  have hafter := congrArg Prod.fst after_tie
  rw [deathMatches, Machine.after_recording_fst] at hafter
  rw [hafter]
  decide +revert +kernel

/-- The second player finds an anamorphosis first. -/
theorem second_player_ends : deathMatches.Along TiedPlayerEnds (sampleServer, none)
    (beforeTie ++ [findBy ⟨0, true⟩] ++ [findBy ⟨1, false⟩]) := by
  refine (tied_player_ends_iff (isRun_tie ⟨1, false⟩ (by decide))).2 (Machine.along_append.2 ?_)
  rw [after_tie]
  exact ⟨by decide +kernel, by decide +kernel, trivial⟩

/-- The third player, who does not play the death match, ends it. -/
theorem third_player_ends : ¬∀ s es, machine.IsRun s es →
    deathMatches.Along TiedPlayerEnds (s, none) es := by
  intro h
  have hlast := (Machine.along_append.1 (h _ _ (isRun_tie ⟨2, false⟩ (by decide)))).2.1
  rw [after_tie, tiedPlayerEnds_iff] at hlast
  exact hlast (by decide +kernel)

end Server

end Gaze
