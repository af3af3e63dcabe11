import Gaze.Client.Reading
import Gaze.Server.Finished
import Gaze.Server.Phases

/-!
# The leaderboard

When the game is over, each device shows the players that its client has been told, in four rows
(`LeaderboardActivity`). The loop over the players stops after the fifth one, which is one too
late: there is no fifth row.

* `row_loadPlayerScores`, `result_loadPlayerScores`: the rows show the first four players, in any
  case; a fifth player then makes the activity raise an exception.
* `shows_right_iff`: so the leaderboard is right exactly for at most four players.
* `leaderboard_of_closing`: at the end of a game, the clients are told the players, and those that
  have been told show them, if there are at most four.
-/

namespace Gaze

open Java

/-- A `LeaderboardActivity`: the texts of its views. -/
structure LeaderboardActivity where
  tvPlayerNames : Vector Text 4
  tvPlayerScores : Vector Text 4

namespace LeaderboardActivity

/-- What the activity does; its outputs are the indices of the arrays that it uses. -/
abbrev Method (α : Type) := Prog LeaderboardActivity ℕ α

/-- `views[i].setText(text)`. -/
def setText (views : Vector Text 4) (i : ℕ) (text : Text) : Except Throwable (Vector Text 4) :=
  if h : i < 4 then .ok (views.set i text h) else .error .arrayIndexOutOfBounds

/-- `tvPlayerNames[i].setText(text)`. -/
def setPlayerName (i : ℕ) (text : Text) : Method Unit := do
  .output i
  let tvPlayerNames ← .reads tvPlayerNames
  let tvPlayerNames ← .lift (setText tvPlayerNames i text)
  .modify fun act => { act with tvPlayerNames }

/-- `tvPlayerScores[i].setText(text)`. -/
def setPlayerScore (i : ℕ) (text : Text) : Method Unit := do
  .output i
  let tvPlayerScores ← .reads tvPlayerScores
  let tvPlayerScores ← .lift (setText tvPlayerScores i text)
  .modify fun act => { act with tvPlayerScores }

/-- The loop of `LeaderboardActivity.loadPlayerScores`, from the row `i` on. -/
def loadRows : ℕ → List Player → Method Unit
  | _, [] => pure ()
  | i, p :: players =>
    if i > 4 then pure ()
    else do
      setPlayerName i p.name
      setPlayerScore i (Integer.toString p.score)
      loadRows (i + 1) players

/-- All the views, without text. -/
def cleared : LeaderboardActivity := ⟨.replicate 4 [], .replicate 4 []⟩

/-- `LeaderboardActivity.loadPlayerScores`. -/
def loadPlayerScores (players : List Player) : Method Unit := do
  .modify fun _ => cleared
  loadRows 0 players

/-- The end of `LeaderboardActivity.onCreate`. -/
def onCreate (client : Client) : Method Unit := loadPlayerScores client.players

variable {act : LeaderboardActivity} {players : List Player} {p : Player} {i : ℕ}

/-! ## The rows -/

/-- What a row shows: a name, and a score. -/
def row (act : LeaderboardActivity) (j : Fin 4) : Text × Text :=
  (act.tvPlayerNames[j], act.tvPlayerScores[j])

/-- What the row of a player shows. -/
def rowOf (p : Player) : Text × Text := (p.name, Integer.toString p.score)

/-- The activity, with a player in a row. -/
def withRow (act : LeaderboardActivity) (j : Fin 4) (p : Player) : LeaderboardActivity where
  tvPlayerNames := act.tvPlayerNames.set j p.name
  tvPlayerScores := act.tvPlayerScores.set j (Integer.toString p.score)

theorem row_withRow (j k : Fin 4) :
    (act.withRow j p).row k = if j = k then rowOf p else act.row k := by
  simp only [row, withRow, rowOf, Fin.getElem_fin, Vector.getElem_set, Fin.val_inj]
  split_ifs <;> rfl

@[simp] theorem row_cleared (j : Fin 4) : cleared.row j = ([], []) := by
  simp [row, cleared]

/-! ## The loop -/

/-- A player is written in a row that exists. -/
theorem exec_loadRows_cons (j : Fin 4) :
    (loadRows j (p :: players)).exec act =
      ((loadRows (j + 1) players).exec (act.withRow j p)).after [j.val, j.val] := by
  have hset : ∀ (views : Vector Text 4) (text : Text), setText views j text =
      .ok (views.set j text) := fun views text => dif_pos j.isLt
  rw [loadRows, if_neg (by omega)]
  simp only [setPlayerName, setPlayerScore, Prog.exec_bind, Prog.exec_output, Prog.exec_reads,
    Prog.exec_lift, Prog.exec_modify, Outcome.andThen_ok, hset]
  rfl

/-- There is no row for a fifth player. -/
theorem exec_loadRows_four :
    (loadRows 4 (p :: players)).exec act = ⟨act, [4], .error .arrayIndexOutOfBounds⟩ := by
  have hset : ∀ (views : Vector Text 4) (text : Text), setText views 4 text =
      .error .arrayIndexOutOfBounds := fun views text => dif_neg (by decide)
  rw [loadRows, if_neg (by decide)]
  simp only [setPlayerName, Prog.exec_bind, Prog.exec_output, Prog.exec_reads, Prog.exec_lift,
    Outcome.andThen_ok, hset]
  rfl

/-- What the loop does from the row `i` on: it shows the players in the rows that are left, and
    raises an exception if there are more players than that. -/
structure Loads (act : LeaderboardActivity) (i : ℕ) (players : List Player)
    (o : Outcome LeaderboardActivity ℕ Unit) : Prop where
  rows : ∀ j : Fin 4, o.state.row j =
    if j.val < i then act.row j else (players[j.val - i]?.map rowOf).getD (act.row j)
  inside : (∀ k ∈ o.emitted, k < 4) ↔ i + players.length ≤ 4
  result : o.result =
    if i + players.length ≤ 4 then .ok () else .error .arrayIndexOutOfBounds

theorem loads_loadRows (hi : i ≤ 4) :
    Loads act i players ((loadRows i players).exec act) := by
  induction players generalizing i act with
  | nil =>
    have hexec : (loadRows i []).exec act = ⟨act, [], .ok ()⟩ := rfl
    rw [hexec]
    exact ⟨fun j => by simp, by simpa using hi, (if_pos (by simpa using hi)).symm⟩
  | cons p players ih =>
    rcases Nat.lt_or_eq_of_le hi with hlt | rfl
    · -- The row exists, and the next ones are as the rest of the loop leaves them.
      have hrest : Loads (act.withRow ⟨i, hlt⟩ p) (i + 1) players _ := ih hlt
      obtain ⟨hrows, hinside, hresult⟩ := hrest
      have hlength : i + 1 + players.length = i + (p :: players).length := by
        rw [List.length_cons]
        omega
      rw [hlength] at hinside hresult
      rw [exec_loadRows_cons ⟨i, hlt⟩]
      refine ⟨fun j => ?_, ?_, hresult⟩
      · refine (hrows j).trans ?_
        rw [row_withRow]
        rcases Nat.lt_trichotomy j.val i with hj | hj | hj
        · rw [if_pos (by omega), if_neg (by simp [Fin.ext_iff]; omega), if_pos hj]
        · rw [if_pos (by omega), if_pos (Fin.ext hj.symm), if_neg (by omega), hj, Nat.sub_self]
          rfl
        · rw [if_neg (by omega), if_neg (by simp [Fin.ext_iff]; omega), if_neg (by omega),
            show j.val - i = j.val - (i + 1) + 1 by omega, List.getElem?_cons_succ]
      · rw [← hinside]
        simp [Outcome.after, hlt]
    · -- The loop goes on, though all the rows are taken.
      rw [exec_loadRows_four]
      refine ⟨fun j => by rw [if_pos j.isLt], ?_, ?_⟩
      · simp
      · rw [if_neg (by simp)]

theorem loads_loadPlayerScores (act : LeaderboardActivity) (players : List Player) :
    Loads cleared 0 players ((loadPlayerScores players).exec act) := by
  have hexec : (loadPlayerScores players).exec act = (loadRows 0 players).exec cleared := by
    simp only [loadPlayerScores, Prog.exec_bind, Prog.exec_modify, Outcome.andThen_ok]
    rfl
  rw [hexec]
  exact loads_loadRows (Nat.zero_le 4)

/-- The rows show the first players, whether an exception is raised after them or not. -/
theorem row_loadPlayerScores (act : LeaderboardActivity) (players : List Player) (j : Fin 4) :
    ((loadPlayerScores players).exec act).state.row j =
      (players[j.val]?.map rowOf).getD ([], []) := by
  rw [(loads_loadPlayerScores act players).rows, if_neg (Nat.not_lt_zero _), row_cleared,
    Nat.sub_zero]

/-- An exception is raised exactly if there are more players than rows. -/
theorem result_loadPlayerScores (act : LeaderboardActivity) (players : List Player) :
    ((loadPlayerScores players).exec act).result =
      if players.length ≤ 4 then .ok () else .error .arrayIndexOutOfBounds := by
  rw [(loads_loadPlayerScores act players).result, Nat.zero_add]

/-! ## The leaderboard -/

/-- Only rows that exist are written, and they show the first players, in order; the other rows
    are empty. -/
structure ShowsRight (players : List Player) (o : Outcome LeaderboardActivity ℕ Unit) : Prop where
  inside : ∀ k ∈ o.emitted, k ≤ 3
  returns : o.result = .ok ()
  rows : ∀ j : Fin 4, o.state.row j = (players[j.val]?.map rowOf).getD ([], [])

/-- The leaderboard is right exactly for at most four players. -/
theorem shows_right_iff (act : LeaderboardActivity) (players : List Player) :
    ShowsRight players ((loadPlayerScores players).exec act) ↔ players.length ≤ 4 := by
  have hloads := loads_loadPlayerScores act players
  constructor
  · intro h
    have hinside := hloads.inside.1 fun k hk => Nat.lt_succ_of_le (h.inside k hk)
    rwa [Nat.zero_add] at hinside
  · intro h
    have hfour : 0 + players.length ≤ 4 := by rwa [Nat.zero_add]
    refine ⟨fun k hk => Nat.le_of_lt_succ (hloads.inside.2 hfour k hk), ?_,
      row_loadPlayerScores act players⟩
    rw [hloads.result, if_pos hfour]

/-- Five players are one too many. -/
theorem not_shows_right_five :
    ¬ ∀ (act : LeaderboardActivity) (players : List Player),
      ShowsRight players ((loadPlayerScores players).exec act) := by
  intro h
  have hinside := (h cleared (List.replicate 5 (.new "player".toList 0 true []))).inside
  exact absurd (hinside 4 (by decide)) (by decide)

/-- A client that has been told the final list of the players shows it, if there are at most
    four. -/
theorem leaderboard_finished_iff {c : Client} (hm : (ServerMessage.finished players).IsReadable) :
    ∃ c', c.onMessage (ServerMessage.finished players).line = .ok (c', some (.gameEnded players)) ∧
      (((onCreate c').exec act).result = .ok () ↔ players.length ≤ 4) := by
  refine ⟨_, Client.onMessage_line hm, ?_⟩
  change ((loadPlayerScores players).exec act).result = .ok () ↔ _
  rw [result_loadPlayerScores]
  split_ifs with h
  · exact iff_of_true rfl h
  · exact iff_of_false nofun h

/-- The find that ends a game is announced to all the clients, and those that receive the
    announcement show the players, if there are at most four. -/
theorem leaderboard_of_closing {s c : Server} {e : Server.Event} (hs : s.WellFormed)
    (he : s.Enabled e) (h : s.closing e = some c) (client : Client) :
    ∃ m : ServerMessage, (∀ handler ∈ c.clients, (handler, m.text) ∈ (s.handle e).emitted) ∧
      ∃ client' players, client.onMessage m.line = .ok (client', some (.gameEnded players)) ∧
        (((onCreate client').exec act).result = .ok () ↔ c.players.size ≤ 4) := by
  have hstate : (s.handle e).state = c.withGameState .ended := by
    rw [Server.handle_of_closing h]
  have hids : ∀ p ∈ c.players.values, isUuid p.playerId := by
    have hwf := hs.handle e he
    rw [hstate] at hwf
    exact hwf.isUuid
  have hne : c.players.values ≠ [] := by
    obtain ⟨handler, l, choice, p, d, -, -, hp, -, rfl, -⟩ := Server.closing_eq_some h
    exact Server.players_credited_ne_nil hp d
  have hreadable : (ServerMessage.finished c.players.values).IsReadable :=
    ⟨hids, nofun, fun hnil => hne (ServerMessage.finished.inj hnil)⟩
  obtain ⟨client', hclient, hresult⟩ := leaderboard_finished_iff (c := client) hreadable
  refine ⟨_, fun handler hmem => ?_, client', _, hclient, ?_⟩
  · rw [Server.handle_of_closing h]
    exact Server.mem_broadcast.2 ⟨hmem, rfl⟩
  · rw [hresult, HashMap.length_values]

end LeaderboardActivity

end Gaze
