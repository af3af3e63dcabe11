import Gaze.Server.Runs

/-!
# The end of the main game

The find that brings a player to four ends the main game. It should end with a
death match between the players with the highest score, if they are several, and
with the final list of players otherwise.

The players are not sorted: whoever comes first in the order of the map decides.
`fourth_find_endsRight_iff` says when the end is the right one all the same.
-/

namespace Gaze

open Java Protocol Ranking

namespace Server

/-! ## What should happen -/

/-- The players with the highest score. -/
def winners (players : List Player) : List Player :=
  maxima (fun player => player.score.toInt) players

/-- The text is one line, of the given type. -/
def IsInstruction (type text : Text) : Prop :=
  ∃ l, LineReader.start.feed text = (LineReader.start, [l]) ∧ parseInstructionType l = .ok type

/-- The ids a `DEATHMATCH` names: its data, after the anamorphosis. -/
def namedIds (l : Text) : List Text := (split ':' (parseInstructionData l)).tail

/-- The text is a `DEATHMATCH` that names exactly the given players. -/
def Names (text : Text) (players : List Player) : Prop :=
  ∃ l, LineReader.start.feed text = (LineReader.start, [l]) ∧
    parseInstructionType l = .ok deathMatchInstructionType ∧
    ∀ id, id ∈ namedIds l ↔ ∃ p ∈ players, p.playerId = id

/-- The right end of the main game, from the server `s`, whose players have their
    final scores: a death match between the winners if they are several, and the
    end of the game if there is only one. -/
structure EndsRight (s : Server) (o : Outcome Server Sent Unit) : Prop where
  several : 2 ≤ (winners s.players.values).length → o.state.gameState = .deathMatch ∧
    ∃ text, o.emitted = s.broadcast text ∧ Names text (winners s.players.values)
  single : (winners s.players.values).length = 1 → o.state.gameState = .ended ∧
    ∃ text, o.emitted = s.broadcast text ∧ IsInstruction finishedInstructionType text

/-- What has to be the case for the end to be the right one: every player has a
    score; several winners are at the front of the map, and an anamorphosis can be
    drawn for them; and a single winner is not hidden behind two players with the same
    score. -/
structure Lucky (s : Server) : Prop where
  scored : s.unscored = false
  several : 2 ≤ (winners s.players.values).length →
    winners s.players.values <+: s.players.values ∧ s.anamorphDictionary.candidates .medium ≠ []
  single : (winners s.players.values).length = 1 →
    ∀ p q rest, s.players.values = p :: q :: rest → p.score ≠ q.score

/-! ## The texts -/

theorem isInstruction_finished {players : List Player} (hid : ∀ p ∈ players, isUuid p.playerId) :
    IsInstruction finishedInstructionType (buildFinishedInstruction players) := by
  have hplain : ∀ p ∈ players, Plain p.playerId := fun p hp => plain_of_isUuid (hid p hp)
  have hfeed := feed_withData (by decide : Plain finishedInstructionType)
    (playerListData_not_terminator hplain)
  rw [← buildPlayerListInstruction_eq] at hfeed
  exact ⟨_, hfeed, parseInstructionType_line (by decide) (by decide) _⟩

section DeathMatch

variable {players : List Player} (hid : ∀ p ∈ players, isUuid p.playerId) {anamorphId : Text}
  (hanam : Plain anamorphId)
include hid hanam

/-- A `DEATHMATCH` names the players it is built from. -/
theorem namedIds_deathMatch (hne : players ≠ []) :
    namedIds (line deathMatchInstructionType (deathMatchData players anamorphId)) =
      players.map Player.playerId := by
  have hcolon : ':' ∈ separators := by decide
  have hlast : (anamorphId :: players.map Player.playerId).getLast (List.cons_ne_nil _ _) ≠ [] := by
    rw [List.getLast_cons (by simpa using hne), List.getLast_map]
    exact ne_nil_of_isUuid (hid _ (List.getLast_mem hne))
  have hspace : ' ' ∉ deathMatchData players anamorphId :=
    space_not_mem_deathMatchData (fun p hp => plain_of_isUuid (hid p hp)) hanam
  rw [namedIds, parseInstructionData_line (by decide) (by decide) hspace, deathMatchData,
    split_join ?_ _ hlast, List.tail_cons]
  simp only [List.forall_mem_cons, List.forall_mem_map]
  exact ⟨hanam.not_mem hcolon, fun p hp => (plain_of_isUuid (hid p hp)).not_mem hcolon⟩

/-- Which players a `DEATHMATCH` names. -/
theorem names_deathMatch_iff (hne : players ≠ []) (named : List Player) :
    Names (buildDeathMatchInstruction players anamorphId) named ↔
      ∀ id, (∃ p ∈ players, p.playerId = id) ↔ ∃ p ∈ named, p.playerId = id := by
  have hfeed := feed_withData (by decide : Plain deathMatchInstructionType)
    (deathMatchData_not_terminator (fun p hp => plain_of_isUuid (hid p hp)) hanam)
  have hnamed := namedIds_deathMatch hid hanam hne
  rw [← buildDeathMatchInstruction_eq] at hfeed
  rw [Names, hfeed]
  constructor
  · rintro ⟨l, hl, -, h⟩ id
    obtain rfl := List.singleton_inj.1 (congrArg Prod.snd hl)
    rw [← h, hnamed, List.mem_map]
  · intro h
    refine ⟨_, rfl, parseInstructionType_line (by decide) (by decide) _, fun id => ?_⟩
    rw [hnamed, ← h, List.mem_map]

end DeathMatch

/-! ## The players of a server -/

/-- Players of a well-formed server are told apart by their ids. -/
theorem WellFormed.eq_of_playerId {s : Server} (hs : WellFormed s) {p q : Player}
    (hp : p ∈ s.players.values) (hq : q ∈ s.players.values) (h : p.playerId = q.playerId) :
    p = q := by
  obtain ⟨k, hk⟩ := HashMap.mem_values.1 hp
  obtain ⟨k', hk'⟩ := HashMap.mem_values.1 hq
  obtain rfl := hs.distinct k k' p q hk hk' h
  exact Option.some.inj (hk.symm.trans hk')

theorem WellFormed.nodup_values {s : Server} (hs : WellFormed s) : s.players.values.Nodup := by
  refine List.Nodup.map_on ?_ s.players.nodup_keys.of_map
  rintro ⟨k, p⟩ hp ⟨k', p'⟩ hp' rfl
  rw [hs.distinct k k' p p (HashMap.mem_entries.1 hp) (HashMap.mem_entries.1 hp') rfl]

/-- The same ids, the same players. -/
theorem WellFormed.ids_iff {s : Server} (hs : WellFormed s) {l l' : List Player}
    (hl : l ⊆ s.players.values) (hl' : l' ⊆ s.players.values) :
    (∀ id, (∃ p ∈ l, p.playerId = id) ↔ ∃ p ∈ l', p.playerId = id) ↔ ∀ p, p ∈ l ↔ p ∈ l' := by
  constructor
  · intro h p
    constructor
    · intro hp
      obtain ⟨q, hq, heq⟩ := (h p.playerId).1 ⟨p, hp, rfl⟩
      exact hs.eq_of_playerId (hl' hq) (hl hp) heq ▸ hq
    · intro hp
      obtain ⟨q, hq, heq⟩ := (h p.playerId).2 ⟨p, hp, rfl⟩
      exact hs.eq_of_playerId (hl hq) (hl' hp) heq ▸ hq
  · intro h id
    simp only [h]

theorem leaders_eq (players : List Player) :
    leaders players = leadingRun (fun player => player.score.toInt) players :=
  leadingRun_congr _ (fun _ _ => Int32.toInt_inj.symm) players

theorem broadcast_inj {s : Server} (hs : s.clients ≠ []) {text text' : Text} :
    s.broadcast text = s.broadcast text' ↔ text = text' := by
  obtain ⟨client, clients, h⟩ := List.exists_cons_of_ne_nil hs
  constructor
  · intro heq
    simp only [broadcast, h, List.map_cons, List.cons.injEq, Prod.mk.injEq, true_and] at heq
    exact heq.1
  · rintro rfl
    rfl

/-! ## The end of the main game -/

/-- There is one leader exactly if the first two players have different scores. -/
theorem length_leaders_le_one_iff (players : List Player) : (leaders players).length ≤ 1 ↔
    ∀ p q rest, players = p :: q :: rest → p.score ≠ q.score := by
  rw [leaders, ← not_lt, one_lt_length_leadingRun_iff]
  simp only [not_exists, not_and, ne_eq]

section

variable {s : Server} (hs : WellFormed s) (hclients : s.clients ≠ []) {first : Player}
  {rest : List Player} (hplayers : s.players.values = first :: rest)
include hs hclients hplayers

/-- A death match between the leaders is one between the winners exactly if the
    winners come first. -/
theorem names_leaders_iff (anamorphId : Int32) :
    (∃ text, s.broadcast (buildDeathMatchInstruction (leaders s.players.values)
        (Integer.toString anamorphId)) = s.broadcast text ∧
      Names text (winners s.players.values)) ↔
      winners s.players.values <+: s.players.values := by
  have hleaders : leaders s.players.values <+: s.players.values := leadingRun_isPrefix _ _
  have hwinners : winners s.players.values ⊆ s.players.values := fun p hp => (mem_maxima.1 hp).1
  have hid : ∀ p ∈ leaders s.players.values, Java.isUuid p.playerId := fun p hp =>
    hs.isUuid p (hleaders.subset hp)
  have hne : leaders s.players.values ≠ [] := by simp [hplayers, leaders, leadingRun]
  have hnames := names_deathMatch_iff hid (plain_integer anamorphId) hne
    (winners s.players.values)
  have hmax : (∀ p, p ∈ leaders s.players.values ↔ p ∈ winners s.players.values) ↔
      winners s.players.values <+: s.players.values := by
    rw [leaders_eq]
    exact leadingRun_iff_maxima hs.nodup_values
  -- Players are told apart by their ids: to name as many ids is to name the same players.
  rw [hs.ids_iff hleaders.subset hwinners, hmax] at hnames
  rw [← hnames]
  constructor
  · rintro ⟨text, htext, h⟩
    rwa [(broadcast_inj hclients).1 htext]
  · intro h
    exact ⟨_, rfl, h⟩

/-- The main game ends rightly exactly if the server is lucky. -/
theorem finishMainGame_endsRight_iff (hscored : s.unscored = false) (choice : Choice) :
    EndsRight s ((finishMainGame s.players.values choice).exec s) ↔ Lucky s := by
  have hpos : 0 < (winners s.players.values).length :=
    List.length_pos_of_ne_nil (maxima_ne_nil (by simp [hplayers]))
  have hsingle := length_leaders_le_one_iff s.players.values
  have hnames := names_leaders_iff hs hclients hplayers
  have hexec : (finishMainGame (first :: rest) choice).exec s = _ := exec_finishMainGame first rest
  have hdraw := s.anamorphDictionary.getRandom_isSome_iff .medium false choice.random
  rw [← hplayers] at hexec
  rw [hexec]
  split_ifs with htie
  · -- A death match between the leaders: the winners have to be several.
    have hnot : ¬∀ p q rest, s.players.values = p :: q :: rest → p.score ≠ q.score := by
      rw [← hsingle]
      omega
    -- Without a medium anamorphosis to draw, the death match is not announced.
    rcases hdrawn : s.anamorphDictionary.getRandom .medium false choice.random with ⟨dict, _ | a⟩
    · have hnone : s.anamorphDictionary.candidates .medium = [] := by
        simpa [hdrawn] using hdraw
      refine iff_of_false (fun h => ?_) fun h => ?_
      · rcases Nat.lt_or_ge 1 (winners s.players.values).length with hlen | hlen
        · obtain ⟨-, text, htext, -⟩ := h.several hlen
          exact hclients (List.map_eq_nil_iff.1 htext.symm)
        · exact absurd (h.single (by omega)).1 (by simp)
      · rcases Nat.lt_or_ge 1 (winners s.players.values).length with hlen | hlen
        · exact (h.several hlen).2 hnone
        · exact hnot (h.single (by omega))
    · have hsome : s.anamorphDictionary.candidates .medium ≠ [] := hdraw.1 (by simp [hdrawn])
      constructor
      · intro h
        refine ⟨hscored, fun hlen => ⟨(hnames a.id).1 (h.several hlen).2, hsome⟩, fun hlen => ?_⟩
        exact absurd (h.single hlen).1 (by simp)
      · intro h
        exact ⟨fun hlen => ⟨rfl, (hnames a.id).2 (h.several hlen).1⟩,
          fun hlen => absurd (h.single hlen) hnot⟩
  · -- The end of the game: the winner has to be alone.
    constructor
    · intro h
      exact ⟨hscored, fun hlen => absurd (h.several hlen).1 (by simp),
        fun _ => hsingle.1 (not_lt.1 htie)⟩
    · intro h
      refine ⟨fun hlen => absurd ?_ htie, fun _ => ⟨rfl, _, rfl, isInstruction_finished hs.isUuid⟩⟩
      rw [leaders_eq]
      exact one_lt_leadingRun_of_prefix (h.several hlen).1 hlen

end

theorem WellFormed.endsRight_iff {s : Server} (hs : WellFormed s)
    (hphase : s.gameState = .mainGame) {handler : ClientHandler} {l : Text} {choice : Choice}
    (he : s.Enabled (.received handler l choice)) {p : Player}
    (hp : s.players.get handler = some p)
    (htype : parseInstructionType l = .ok anamorphosisFoundMessageType) {d : Difficulty}
    (hd : parseAnamorphosisFoundMessage (parseInstructionData l) = .ok d)
    (hfour : p.nbFoundAnamorphosis + 1 ≥ 4) :
    EndsRight (s.credited handler d) ((onMessageReceived handler (some l) choice).exec s) ↔
      Lucky (s.credited handler d) := by
  have hwf : WellFormed (s.credited handler d) :=
    hs.replace (f := credit d) (fun _ => rfl) ⟨rfl, rfl, rfl⟩
  obtain ⟨first, rest, hplayers⟩ := List.exists_cons_of_ne_nil (players_credited_ne_nil hp d)
  rw [exec_received_found hp htype, exec_onAnamorphosisFound hp hd]
  simp only [hphase, if_pos hfour]
  split_ifs with hunscored
  · -- A score is missing: nothing is sent.
    refine iff_of_false (fun h => ?_) fun h => absurd h.scored (by simp [hunscored])
    have hpos : 0 < (winners (s.credited handler d).players.values).length :=
      List.length_pos_of_ne_nil (maxima_ne_nil (by simp [hplayers]))
    have hstays : (s.credited handler d).gameState = .mainGame := hphase
    rcases Nat.lt_or_ge 1 (winners (s.credited handler d).players.values).length with hlen | hlen
    · exact absurd (h.several hlen).1 (by simp [hstays])
    · exact absurd (h.single (by omega)).1 (by simp [hstays])
  · exact finishMainGame_endsRight_iff hwf (List.ne_nil_of_mem he.1) hplayers
      (by simpa using hunscored) choice

/-- The find that brings a player to four in the main game ends it rightly exactly
    if the server is lucky with the players, once the find is credited. -/
theorem fourth_find_endsRight_iff {s : Server} (hs : machine.Reachable s)
    (hphase : s.gameState = .mainGame) {handler : ClientHandler} {l : Text} {choice : Choice}
    (he : s.Enabled (.received handler l choice)) {p : Player}
    (hp : s.players.get handler = some p)
    (htype : parseInstructionType l = .ok anamorphosisFoundMessageType) {d : Difficulty}
    (hd : parseAnamorphosisFoundMessage (parseInstructionData l) = .ok d)
    (hfour : p.nbFoundAnamorphosis + 1 ≥ 4) :
    EndsRight (s.credited handler d) ((onMessageReceived handler (some l) choice).exec s) ↔
      Lucky (s.credited handler d) :=
  (wellFormed_of_reachable hs).endsRight_iff hphase he hp htype hd hfour

/-- A player joins the game, and is ready to play. -/
def joins (n : ℕ) : List Event :=
  [.accepted ⟨n, n = 0⟩, .received ⟨n, n = 0⟩ "CONNECT player".toList (sampleChoice n),
    .received ⟨n, n = 0⟩ "READY".toList (sampleChoice 7)]

/-- Three players have joined the game, and one of them has found three
    anamorphoses. -/
def threeFinds (n : ℕ) : List Event :=
  joins 0 ++ joins 1 ++ joins 2 ++ [.received ⟨0, true⟩ "START".toList (sampleChoice 7)] ++
    List.replicate 3 (.received ⟨n, n = 0⟩ "ANAM-FOUND 0".toList (sampleChoice 7))

/-- The fourth find of the first player ends the game rightly. -/
theorem first_player_wins :
    EndsRight ((machine.after sampleServer (threeFinds 0)).credited ⟨0, true⟩ .easy)
      ((onMessageReceived ⟨0, true⟩ (some "ANAM-FOUND 0".toList) (sampleChoice 7)).exec
        (machine.after sampleServer (threeFinds 0))) := by
  have hrun : machine.IsRun sampleServer (threeFinds 0) := ⟨⟨_, _, rfl⟩, by decide⟩
  refine (fourth_find_endsRight_iff hrun.reachable (by decide) (by decide)
    (p := ⟨"player".toList, 6, true, (sampleUuid 0).text, 3⟩) (by decide) (by decide) (by decide)
    (by decide)).2 ⟨by decide, fun h => absurd h (by decide), fun _ => ?_⟩
  exact (length_leaders_le_one_iff _).1 (by decide)

/-- The fourth find of the last player should end the game, but the first two come
    first together: they play a death match. -/
theorem losers_play : ∃ s, machine.Reachable s ∧ s.gameState = .mainGame ∧
    s.Enabled (.received ⟨2, false⟩ "ANAM-FOUND 0".toList (sampleChoice 7)) ∧
    (s.players.get ⟨2, false⟩).map Player.nbFoundAnamorphosis = some 3 ∧
    ¬EndsRight (s.credited ⟨2, false⟩ .easy)
      ((onMessageReceived ⟨2, false⟩ (some "ANAM-FOUND 0".toList) (sampleChoice 7)).exec s) := by
  have hrun : machine.IsRun sampleServer (threeFinds 2) := ⟨⟨_, _, rfl⟩, by decide⟩
  refine ⟨_, hrun.reachable, by decide, by decide, by decide, ?_⟩
  rw [(wellFormed_of_reachable hrun.reachable).endsRight_iff (by decide) (by decide)
    (p := ⟨"player".toList, 6, true, (sampleUuid 2).text, 3⟩) (by decide) (by decide) (by decide)
    (by decide)]
  intro h
  exact h.single (by decide) _ _ _ rfl rfl

end Server

end Gaze
