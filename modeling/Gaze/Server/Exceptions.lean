import Gaze.Server.Runs

/-!
# The exceptions of the server

A handler only catches the exceptions of its socket: any other exception of
`onMessageReceived` ends it. `received_ok_iff` says which lines are harmless, in
which states, and `throws_unchanged_iff` which exceptions leave the players and the
phase as they were: all but those of the finds.
-/

namespace Gaze

open Java Protocol

namespace Server

variable {s : Server} {handler : ClientHandler} {data : Text} {choice : Choice}

/-! ## The parsers -/

/-- A line has a type unless it is made of spaces, and not empty. -/
theorem parseInstructionType_ok_iff {l : Text} :
    (∃ type, parseInstructionType l = .ok type) ↔ l = [] ∨ ∃ c ∈ l, c ≠ ' ' := by
  have hnil : (∃ type, parseInstructionType l = .ok type) ↔ split ' ' l ≠ [] := by
    cases h : split ' ' l <;> simp [parseInstructionType, index, h]
  rw [hnil, Ne, split_eq_nil_iff]
  by_cases hl : l = [] <;> simp [hl]

theorem urlDecode_ok_iff {s : Text} :
    (∃ t, urlDecode s = .ok t) ↔ (URLDecoder.decode s).isSome := by
  cases h : URLDecoder.decode s <;> simp [urlDecode, h]

theorem index_values_eq_ok_iff {k : ℕ} {d : Difficulty} :
    index Difficulty.values k = .ok d ↔ k = d.ordinal.toInt.toNat := by
  match k with
  | 0 | 1 | 2 => cases d <;> decide
  | k + 3 =>
    have hk : ∀ d : Difficulty, d.ordinal.toInt.toNat < 3 := by
      intro d
      cases d <;> decide
    have hd := hk d
    have hnone : Difficulty.values[k + 3]? = none := rfl
    simp only [index, hnone, reduceCtorEq, false_iff]
    omega

/-- A difficulty is read from the decimal notation of its ordinal. -/
theorem parseAnamorphosisFoundMessage_eq_ok_iff {d : Difficulty} :
    parseAnamorphosisFoundMessage data = .ok d ↔ Integer.parseInt data 10 = some d.ordinal := by
  have hd : 0 ≤ d.ordinal.toInt := by cases d <;> decide
  cases h : Integer.parseInt data 10 with
  | none => simp [parseAnamorphosisFoundMessage, parseInt, h, bind, Except.bind]
  | some n =>
    simp only [parseAnamorphosisFoundMessage, parseInt, h, bind, Except.bind, Option.some.injEq]
    rw [← Int32.toInt_inj]
    have hneg : n < 0 ↔ n.toInt < 0 := Int32.lt_iff_toInt_lt
    by_cases hn : n < 0
    · have hlt := hneg.1 hn
      rw [if_pos hn]
      simp only [reduceCtorEq, false_iff]
      omega
    · have hge := mt hneg.2 hn
      rw [if_neg hn, index_values_eq_ok_iff]
      omega

/-! ## The lines that are processed -/

/-- What a line has to satisfy, in the state in which it is received, to be
    processed without exception. -/
structure Harmless (s : Server) (handler : ClientHandler) (l : Text) : Prop where
  /-- The line is not made of spaces. -/
  type : l = [] ∨ ∃ c ∈ l, c ≠ ' '
  /-- The name of a player is well encoded. -/
  name : parseInstructionType l = .ok connectMessageType →
    (URLDecoder.decode (parseInstructionData l)).isSome
  /-- The name the host gives to the room is well encoded. -/
  roomName : parseInstructionType l = .ok roomNameMessageType →
    (s.players.get handler).isSome → handler.isHost →
    (URLDecoder.decode (parseInstructionData l)).isSome
  /-- A find has a difficulty, and when it ends a game all the players have scores,
      and there is an anamorphosis for the players who come first together. -/
  found : ∀ p, parseInstructionType l = .ok anamorphosisFoundMessageType →
    s.players.get handler = some p → ∃ d, Integer.parseInt (parseInstructionData l) 10 =
      some (Difficulty.ordinal d) ∧
      (s.gameState = .deathMatch → (s.credited handler d).unscored = false) ∧
      (s.gameState = .mainGame → p.nbFoundAnamorphosis + 1 ≥ 4 →
        (s.credited handler d).unscored = false ∧
        ((leaders (s.credited handler d).players.values).length > 1 →
          s.anamorphDictionary.candidates .medium ≠ []))

/-- The end of the main game only throws when there is no anamorphosis to draw for
    the players who come first together. -/
theorem finishMainGame_ok_iff (choice : Choice) {players : List Player} (hne : players ≠ []) :
    ((finishMainGame players choice).exec s).result = .ok () ↔
      ((leaders players).length > 1 → s.anamorphDictionary.candidates .medium ≠ []) := by
  obtain ⟨first, players, rfl⟩ := List.exists_cons_of_ne_nil hne
  rw [exec_finishMainGame, ← AnamorphDictionary.getRandom_isSome_iff _ _ false choice.random]
  split_ifs with htie
  · rcases s.anamorphDictionary.getRandom .medium false choice.random with ⟨dict, _ | a⟩ <;>
      simp [htie]
  · simp [htie]

/-- When a find throws. -/
theorem onAnamorphosisFound_ok_iff {p : Player} (hp : s.players.get handler = some p) :
    ((onAnamorphosisFound handler data choice).exec s).result = .ok () ↔
      ∃ d, Integer.parseInt data 10 = some (Difficulty.ordinal d) ∧
        (s.gameState = .deathMatch → (s.credited handler d).unscored = false) ∧
        (s.gameState = .mainGame → p.nbFoundAnamorphosis + 1 ≥ 4 →
          (s.credited handler d).unscored = false ∧
          ((leaders (s.credited handler d).players.values).length > 1 →
            s.anamorphDictionary.candidates .medium ≠ [])) := by
  simp only [← parseAnamorphosisFoundMessage_eq_ok_iff]
  cases hd : parseAnamorphosisFoundMessage data with
  | error e => simp [exec_onAnamorphosisFound_of_error hd]
  | ok d =>
    have hne : (s.credited handler d).players.values ≠ [] :=
      List.ne_nil_of_mem (a := credit d p) (HashMap.mem_values.2 ⟨handler, by simp [credited, hp]⟩)
    rw [exec_onAnamorphosisFound hp hd]
    simp only [Except.ok.injEq, exists_eq_left']
    -- In the lobby and at the end, nothing can fail once the difficulty is read.
    cases hs : s.gameState with
    | lobby | ended => simp
    | deathMatch => by_cases hu : (s.credited handler d).unscored <;> simp [hu]
    | mainGame =>
      by_cases hfour : p.nbFoundAnamorphosis + 1 ≥ 4
      · by_cases hu : (s.credited handler d).unscored
        · simp [hfour, hu]
        · have hok := finishMainGame_ok_iff (s := s.credited handler d) choice hne
          simp only [hfour, hu, Bool.false_eq_true, if_true, if_false, hok]
          simp [credited]
      · simp [hfour]

/-- What makes a line harmless, once its type is known. -/
theorem harmless_iff_of_type (choice : Choice) {l type : Text}
    (htype : parseInstructionType l = .ok type) :
    s.Harmless handler l ↔
      (type = connectMessageType → (URLDecoder.decode (parseInstructionData l)).isSome) ∧
      (type = roomNameMessageType → (s.players.get handler).isSome → handler.isHost →
        (URLDecoder.decode (parseInstructionData l)).isSome) ∧
      (type = anamorphosisFoundMessageType → ∀ p, s.players.get handler = some p →
        ((onAnamorphosisFound handler (parseInstructionData l) choice).exec s).result =
          .ok ()) := by
  constructor
  · rintro ⟨-, hname, hroom, hfound⟩
    refine ⟨fun h => hname (h ▸ htype), fun h => hroom (h ▸ htype), fun h p hp => ?_⟩
    exact (onAnamorphosisFound_ok_iff hp).2 (hfound p (h ▸ htype) hp)
  · rintro ⟨hname, hroom, hfound⟩
    have heq : ∀ {type'}, parseInstructionType l = .ok type' → type = type' := fun h =>
      Except.ok.inj (htype.symm.trans h)
    exact ⟨parseInstructionType_ok_iff.1 ⟨type, htype⟩, fun h => hname (heq h),
      fun h => hroom (heq h), fun p h hp => (onAnamorphosisFound_ok_iff hp).1 (hfound (heq h) p hp)⟩

/-- A line is processed without exception exactly if it is harmless: by any server,
    from any handler, whatever is drawn at random. -/
theorem received_ok_iff (s : Server) (handler : ClientHandler) (l : Text) (choice : Choice) :
    ((onMessageReceived handler (some l) choice).exec s).result = .ok () ↔
      s.Harmless handler l := by
  have hcases := receiving s handler l choice
  generalize (onMessageReceived handler (some l) choice).exec s = o at hcases ⊢
  cases hcases with
  | unreadable e he =>
    simp only [reduceCtorEq, false_iff]
    intro h
    obtain ⟨type, htype⟩ := parseInstructionType_ok_iff.2 h.type
    exact absurd (he.symm.trans htype) (by simp)
  | ignored type htype hignored =>
    rw [harmless_iff_of_type choice htype]
    rcases hignored with ⟨hnone, hc, -⟩ | htypes
    · simp [hnone, hc]
    · simp only [messageTypes, List.mem_cons, not_or] at htypes
      simp [htypes]
  | unnamed e htype hname =>
    rw [harmless_iff_of_type choice htype, ← urlDecode_ok_iff, ← parseConnectInstructionData]
    simp +decide [hname]
  | connected name htype hname | late name htype hname =>
    rw [harmless_iff_of_type choice htype, ← urlDecode_ok_iff, ← parseConnectInstructionData]
    simp +decide [hname]
  | recognised _ _ htype | unknown htype | disconnected _ _ htype | ready _ _ htype
  | started _ _ htype | notReady _ _ htype =>
    rw [harmless_iff_of_type choice htype]
    simp +decide
  | roomUnnamed p e hp htype hhost hname =>
    rw [harmless_iff_of_type choice htype, ← urlDecode_ok_iff, ← parseRoomNameInstruction]
    simp +decide [hp, hhost, hname]
  | roomNamed p roomName hp htype hhost hname =>
    rw [harmless_iff_of_type choice htype, ← urlDecode_ok_iff, ← parseRoomNameInstruction]
    simp +decide [hhost, hname]
  | roomKept p hp htype hhost =>
    rw [harmless_iff_of_type choice htype]
    simp +decide [hhost]
  | found p hp htype =>
    rw [harmless_iff_of_type choice htype]
    simp +decide [hp]

/-! ## What an exception leaves behind -/

/-- A find that throws has been counted. -/
theorem recordFind_ne (data : Text) (p : Player) : recordFind data p ≠ p := by
  intro h
  have hcount := congrArg Player.nbFoundAnamorphosis h
  rw [recordFind_nbFoundAnamorphosis] at hcount
  exact absurd hcount (by grind)

/-- An exception leaves the players and the phase as they were, in any state and
    whatever is drawn at random, exactly if it is not that of a find of a player. -/
theorem throws_unchanged_iff (s : Server) (handler : ClientHandler) (l : Text) (choice : Choice) :
    (∀ e, ((onMessageReceived handler (some l) choice).exec s).result = .error e →
      ((onMessageReceived handler (some l) choice).exec s).state.players = s.players ∧
      ((onMessageReceived handler (some l) choice).exec s).state.gameState = s.gameState) ↔
    (parseInstructionType l = .ok anamorphosisFoundMessageType →
      (s.players.get handler).isSome → s.Harmless handler l) := by
  have hok := received_ok_iff s handler l choice
  have hcases := receiving s handler l choice
  generalize (onMessageReceived handler (some l) choice).exec s = o at hcases hok ⊢
  cases hcases with
  | found p hp htype =>
    rw [← hok]
    constructor
    · intro h _ _
      cases hresult : ((onAnamorphosisFound handler (parseInstructionData l) choice).exec s).result
      with
      | ok => rfl
      | error e =>
        -- The find has been counted before the exception.
        have hplayers := (h e hresult).1
        have hget := congrArg (HashMap.get · handler) hplayers
        rw [(onAnamorphosisFound_holds _ _ hp).players] at hget
        simp only [HashMap.get_replace, if_true, hp, Option.map_some, Option.some.injEq] at hget
        exact absurd hget (recordFind_ne _ _)
    · intro h e hresult
      rw [h htype (by simp [hp])] at hresult
      exact absurd hresult (by simp)
  | unreadable e he =>
    exact ⟨fun _ htype => absurd (he.symm.trans htype) (by simp), fun _ _ _ => ⟨rfl, rfl⟩⟩
  | unnamed e htype' =>
    exact ⟨fun _ htype => absurd (htype'.symm.trans htype) (by decide), fun _ _ _ => ⟨rfl, rfl⟩⟩
  | roomUnnamed p e hp htype' =>
    exact ⟨fun _ htype => absurd (htype'.symm.trans htype) (by decide), fun _ _ _ => ⟨rfl, rfl⟩⟩
  -- The other lines are harmless: there is no exception.
  | _ => exact ⟨fun _ _ _ => hok.1 rfl, fun _ e he => absurd he (by simp)⟩

/-- A find without difficulty is counted, and throws. -/
theorem unread_find_counted : ¬∀ s handler l choice e,
    ((onMessageReceived handler (some l) choice).exec s).result = .error e →
      ((onMessageReceived handler (some l) choice).exec s).state.players = s.players ∧
      ((onMessageReceived handler (some l) choice).exec s).state.gameState = s.gameState := by
  intro h
  obtain ⟨hplayers, -⟩ := h (machine.after sampleServer sampleRun) ⟨0, true⟩ "ANAM-FOUND 3".toList
    (sampleChoice 1) .arrayIndexOutOfBounds (by decide)
  have hcount := congrArg (fun players : HashMap ClientHandler Player =>
    players.values.map Player.nbFoundAnamorphosis) hplayers
  exact absurd hcount (by decide)

/-- A line of spaces is an exception, even from a handler without player. -/
theorem spaces_throw : ∃ s, machine.Reachable s ∧
    s.Enabled (.received ⟨0, false⟩ " ".toList (sampleChoice 0)) ∧
    ((onMessageReceived ⟨0, false⟩ (some " ".toList) (sampleChoice 0)).exec s).result =
      .error .arrayIndexOutOfBounds :=
  ⟨_, .step (e := .accepted ⟨0, false⟩) (.init ⟨"room".toList, [], rfl⟩) (by decide), by decide,
    by decide⟩

end Server

end Gaze
