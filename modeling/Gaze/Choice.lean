import Gaze.Draws
import Gaze.Java.Prog
import Gaze.Model

/-!
# Choosing an anamorphosis

`AnamorphosisChoiceActivity` shows three anamorphoses drawn at random, one of each
difficulty, among those that have not been validated yet. The player looks for one of
them, validates it or cancels, and three others are drawn.

The dictionary forgets what has been validated for a difficulty when it has as many
validated anamorphoses as anamorphoses. `fair_draw` says that this is fair: whatever is
drawn and validated, no draw fails, and the validated anamorphoses of a difficulty come in
rounds, in each of which every anamorphosis is validated once. What counts as validated is what
the dictionary records (`dictionary_keepResult`), once for each round that goes well
(`length_of_play`).
-/

namespace Gaze

open Java Draws

/-- How a camera activity ends. -/
inductive ResultCode
  | ok
  | canceled
  deriving DecidableEq

/-- An `AnamorphosisChoiceActivity`, with the dictionary of its application; `none` stands
    for `null`. -/
structure AnamorphosisChoiceActivity where
  anamorphDictionnary : AnamorphDictionary
  easyAnamorphosis : Option Anamorphosis
  mediumAnamorphosis : Option Anamorphosis
  hardAnamorphosis : Option Anamorphosis
  currentAnamorphosis : Option Anamorphosis
  debugMode : Bool
  alreadyCanceled : Bool

namespace AnamorphosisChoiceActivity

/-- The draw of an anamorphosis that has not been validated. -/
def draw (dict : AnamorphDictionary) (d : Difficulty) (random : ℕ) :
    Except Throwable (AnamorphDictionary × Anamorphosis) :=
  match dict.getRandom d true random with
  | (dict', some a) => .ok (dict', a)
  | (_, none) => .error .illegalArgument

/-- `AnamorphosisChoiceActivity.chooseRandomAnamorphosis`, with an outcome of the random
    generator for each draw. -/
def chooseRandomAnamorphosis (act : AnamorphosisChoiceActivity) (random : Difficulty → ℕ) :
    Except Throwable AnamorphosisChoiceActivity := do
  let (dict, easy) ← draw act.anamorphDictionnary .easy (random .easy)
  let (dict, medium) ← draw dict .medium (random .medium)
  let (dict, hard) ← draw dict .hard (random .hard)
  return { act with
    anamorphDictionnary := dict
    easyAnamorphosis := some easy
    mediumAnamorphosis := some medium
    hardAnamorphosis := some hard }

/-- `AnamorphosisChoiceActivity.onCreate`. -/
def onCreate (dict : AnamorphDictionary) (debugMode : Bool) (random : Difficulty → ℕ) :
    Except Throwable AnamorphosisChoiceActivity :=
  chooseRandomAnamorphosis ⟨dict, none, none, none, none, debugMode, false⟩ random

/-- The anamorphosis of the button of a difficulty. -/
def shown (act : AnamorphosisChoiceActivity) : Difficulty → Option Anamorphosis
  | .easy => act.easyAnamorphosis
  | .medium => act.mediumAnamorphosis
  | .hard => act.hardAnamorphosis

/-- `AnamorphosisChoiceActivity.onClick`. -/
def onClick (act : AnamorphosisChoiceActivity) (button : Difficulty) :
    AnamorphosisChoiceActivity :=
  { act with currentAnamorphosis := act.shown button }

/-- What `AnamorphosisChoiceActivity.onActivityResult` keeps of the result of the camera,
    before it draws again. -/
def keepResult (act : AnamorphosisChoiceActivity) (resultCode : ResultCode) :
    Except Throwable AnamorphosisChoiceActivity :=
  if act.debugMode then .ok act
  else
    match resultCode with
    | .ok =>
      match act.currentAnamorphosis with
      | some a => .ok { act with
          alreadyCanceled := false
          anamorphDictionnary := act.anamorphDictionnary.setAlreadyValidated a }
      | none => .error .nullPointer
    | .canceled => .ok { act with alreadyCanceled := true }

/-- `AnamorphosisChoiceActivity.onActivityResult`. -/
def onActivityResult (act : AnamorphosisChoiceActivity) (resultCode : ResultCode)
    (random : Difficulty → ℕ) : Except Throwable AnamorphosisChoiceActivity := do
  (← act.keepResult resultCode).chooseRandomAnamorphosis random

/-- A round of the game: a button, the result of the camera, and the outcomes of the random
    generator for the next draws. -/
structure Turn where
  button : Difficulty
  resultCode : ResultCode
  random : Difficulty → ℕ

/-- What a round validates. -/
def validates (act : AnamorphosisChoiceActivity) (turn : Turn) : List Anamorphosis :=
  if act.debugMode then []
  else
    match turn.resultCode with
    | .ok => (act.shown turn.button).toList
    | .canceled => []

/-- The anamorphoses that are validated in some rounds, unless a draw fails. -/
def play : AnamorphosisChoiceActivity → List Turn → Except Throwable (List Anamorphosis)
  | _, [] => .ok []
  | act, turn :: turns => do
    let next ← (act.onClick turn.button).onActivityResult turn.resultCode turn.random
    let validated ← next.play turns
    return act.validates turn ++ validated

/-! ## What has been validated -/

section

variable {act act' : AnamorphosisChoiceActivity} {turn : Turn} {turns : List Turn}
  {validated : List Anamorphosis} {random : Difficulty → ℕ} {resultCode : ResultCode}

/-- What a round validates is what the dictionary records. -/
theorem dictionary_keepResult
    (h : (act.onClick turn.button).keepResult turn.resultCode = .ok act') :
    act'.anamorphDictionnary = (act.validates turn).foldl
      AnamorphDictionary.setAlreadyValidated act.anamorphDictionnary := by
  obtain ⟨button, resultCode, random⟩ := turn
  cases hdebug : act.debugMode with
  | true =>
    simp only [keepResult, onClick, hdebug, if_true] at h
    cases h
    simp [validates, hdebug]
  | false =>
    simp only [keepResult, onClick, hdebug, Bool.false_eq_true, if_false] at h
    cases resultCode with
    | canceled =>
      cases h
      simp [validates, hdebug]
    | ok =>
      cases ha : act.shown button with
      | none => simp [ha] at h
      | some a =>
        simp only [ha, Except.ok.injEq] at h
        simp [← h, validates, hdebug, ha]

/-- A round that goes well validates one anamorphosis, and the others none. -/
theorem length_validates (hdebug : act.debugMode = false)
    (h : (act.onClick turn.button).keepResult turn.resultCode = .ok act') :
    (act.validates turn).length = if turn.resultCode = .ok then 1 else 0 := by
  obtain ⟨button, resultCode, random⟩ := turn
  cases resultCode with
  | canceled => simp [validates, hdebug]
  | ok =>
    cases ha : act.shown button with
    | none => simp [keepResult, onClick, hdebug, ha] at h
    | some a => simp [validates, hdebug, ha]

theorem debugMode_keepResult (h : act.keepResult resultCode = .ok act') :
    act'.debugMode = act.debugMode := by
  unfold keepResult at h
  split at h
  · cases h
    rfl
  · split at h
    · split at h
      · cases h
        rfl
      · cases h
    · cases h
      rfl

theorem debugMode_chooseRandomAnamorphosis (h : act.chooseRandomAnamorphosis random = .ok act') :
    act'.debugMode = act.debugMode := by
  simp only [chooseRandomAnamorphosis, bind, Except.bind, pure, Except.pure] at h
  split at h
  · cases h
  · split at h
    · cases h
    · split at h
      · cases h
      · cases h
        rfl

/-- Outside of the debug mode, there is one validated anamorphosis for each round that goes
    well. -/
theorem length_of_play (hdebug : act.debugMode = false) (h : act.play turns = .ok validated) :
    validated.length = turns.countP fun turn => turn.resultCode = .ok := by
  induction turns generalizing act validated with
  | nil =>
    cases h
    rfl
  | cons turn turns ih =>
    simp only [play, onActivityResult, bind, Except.bind, pure, Except.pure] at h
    cases hkeep : (act.onClick turn.button).keepResult turn.resultCode with
    | error e => simp [hkeep] at h
    | ok kept =>
      cases hchoose : kept.chooseRandomAnamorphosis turn.random with
      | error e => simp [hkeep, hchoose] at h
      | ok next =>
        cases hplay : next.play turns with
        | error e => simp [hkeep, hchoose, hplay] at h
        | ok rest =>
          simp only [hkeep, hchoose, hplay, Except.ok.injEq] at h
          have hnext : next.debugMode = false :=
            (debugMode_chooseRandomAnamorphosis hchoose).trans
              ((debugMode_keepResult hkeep).trans hdebug)
          rw [← h, List.length_append, length_validates hdebug hkeep, ih hnext hplay,
            List.countP_cons, Nat.add_comm]
          simp

end

/-- The anamorphoses of a difficulty. -/
def ofDifficulty (l : List Anamorphosis) (d : Difficulty) : List Anamorphosis :=
  l.filter fun a => a.difficulty = d

theorem mem_ofDifficulty {l : List Anamorphosis} {d : Difficulty} {a : Anamorphosis} :
    a ∈ ofDifficulty l d ↔ a ∈ l ∧ a.difficulty = d := by
  simp [ofDifficulty]

/-- The dictionary has the given anamorphoses, and those of its validated ones that it has
    not forgotten are the current round of each difficulty. -/
structure Remembers (all : List Anamorphosis) (dict : AnamorphDictionary)
    (validated : List Anamorphosis) : Prop where
  items : ∀ d, dict.ofDifficulty d = ofDifficulty all d
  drawn : ∀ d, Drawn (ofDifficulty all d) (dict.alreadyValidated d) (ofDifficulty validated d)

section

variable {all validated : List Anamorphosis} {dict : AnamorphDictionary}
  {act : AnamorphosisChoiceActivity}

theorem remembers_new (all : List Anamorphosis) : Remembers all (.new all) [] where
  items d := by cases d <;> rfl
  drawn d := by cases d <;> exact Drawn.nil _

/-- A reset only forgets a complete round. -/
theorem Remembers.reset (h : Remembers all dict validated) (d : Difficulty) :
    Remembers all (dict.reset d) validated := by
  rw [AnamorphDictionary.reset]
  split_ifs with hfull
  · refine ⟨fun d' => by simpa using h.items d', fun d' => ?_⟩
    rw [AnamorphDictionary.alreadyValidated_withValidated]
    split_ifs with hd
    · subst hd
      exact (h.drawn d').restart (hfull.trans (congrArg List.length (h.items d')))
    · exact h.drawn d'
  · exact h

/-- After the reset, the round is not complete. -/
theorem Remembers.length_reset_ne (h : Remembers all dict validated) {d : Difficulty}
    (hne : ofDifficulty all d ≠ []) :
    ((dict.reset d).alreadyValidated d).length ≠ (ofDifficulty all d).length := by
  rw [AnamorphDictionary.reset]
  split_ifs with hfull
  · rw [AnamorphDictionary.alreadyValidated_withValidated, if_pos rfl]
    exact (List.length_pos_of_ne_nil hne).ne
  · exact fun heq => hfull (heq.trans (congrArg List.length (h.items d)).symm)

/-- A draw does not fail, and gives an anamorphosis of the difficulty that has not been
    validated in this round; what has been validated of the others is remembered. -/
theorem Remembers.draw (h : Remembers all dict validated) (hall : all.Nodup) {d : Difficulty}
    (hne : ofDifficulty all d ≠ []) (random : ℕ) : ∃ dict' a,
      AnamorphosisChoiceActivity.draw dict d random = .ok (dict', a) ∧
      Remembers all dict' validated ∧ a ∈ ofDifficulty all d ∧ a ∉ dict'.alreadyValidated d ∧
      ∀ d', d' ≠ d → dict'.alreadyValidated d' = dict.alreadyValidated d' := by
  have hreset := h.reset d
  have hcandidates : dict.candidates d ≠ [] := by
    have hitems : (ofDifficulty all d).Nodup := hall.filter _
    obtain ⟨a, ha, hnew⟩ := (hreset.drawn d).exists_left hitems (h.length_reset_ne hne)
    rw [← hreset.items] at ha
    exact List.ne_nil_of_mem (List.mem_filter.2 ⟨ha, decide_eq_true hnew⟩)
  obtain ⟨a, ha⟩ := Option.isSome_iff_exists.1
    ((dict.getRandom_isSome_iff d true random).2 hcandidates)
  have hmem : a ∈ dict.candidates d := List.mem_of_getElem? ha
  obtain ⟨hitem, hnew⟩ := List.mem_filter.1 hmem
  refine ⟨dict.reset d, a, ?_, hreset, hreset.items d ▸ hitem, of_decide_eq_true hnew,
    fun d' hd => ?_⟩
  · have hdraw : dict.getRandom d true random = (dict.reset d, some a) := by rw [← ha]; rfl
    rw [AnamorphosisChoiceActivity.draw, hdraw]
  · rw [AnamorphDictionary.reset]
    split_ifs
    · rw [AnamorphDictionary.alreadyValidated_withValidated, if_neg hd]
    · rfl

/-- The dictionary remembers what has been validated, and the activity shows an anamorphosis
    of each difficulty that has not been, in this round. -/
structure Shows (all : List Anamorphosis) (act : AnamorphosisChoiceActivity)
    (validated : List Anamorphosis) : Prop where
  remembers : Remembers all act.anamorphDictionnary validated
  shown : ∀ d, ∃ a, act.shown d = some a ∧ a ∈ ofDifficulty all d ∧
    a ∉ act.anamorphDictionnary.alreadyValidated d

/-- Three anamorphoses are drawn without failure. -/
theorem Remembers.chooseRandomAnamorphosis (h : Remembers all act.anamorphDictionnary validated)
    (hall : all.Nodup) (hne : ∀ d, ofDifficulty all d ≠ []) (random : Difficulty → ℕ) :
    ∃ act', act.chooseRandomAnamorphosis random = .ok act' ∧ Shows all act' validated := by
  obtain ⟨dict₁, easy, hdraw₁, h₁, heasy, hneweasy, -⟩ :=
    h.draw hall (hne .easy) (random .easy)
  obtain ⟨dict₂, medium, hdraw₂, h₂, hmedium, hnewmedium, hothers₂⟩ :=
    h₁.draw hall (hne .medium) (random .medium)
  obtain ⟨dict₃, hard, hdraw₃, h₃, hhard, hnewhard, hothers₃⟩ :=
    h₂.draw hall (hne .hard) (random .hard)
  refine ⟨{ act with
    anamorphDictionnary := dict₃
    easyAnamorphosis := some easy
    mediumAnamorphosis := some medium
    hardAnamorphosis := some hard }, ?_, h₃, fun d => ?_⟩
  · simp only [AnamorphosisChoiceActivity.chooseRandomAnamorphosis, hdraw₁, hdraw₂, hdraw₃, bind,
      Except.bind, pure, Except.pure]
  -- The draws that follow keep what has been validated of the difficulty.
  · cases d with
    | easy =>
      refine ⟨easy, rfl, heasy, ?_⟩
      rw [hothers₃ _ (by decide), hothers₂ _ (by decide)]
      exact hneweasy
    | medium =>
      refine ⟨medium, rfl, hmedium, ?_⟩
      rw [hothers₃ _ (by decide)]
      exact hnewmedium
    | hard => exact ⟨hard, rfl, hhard, hnewhard⟩

/-- What a round validates is remembered. -/
theorem Shows.keepResult (h : Shows all act validated) (turn : Turn) :
    ∃ act', (act.onClick turn.button).keepResult turn.resultCode = .ok act' ∧
      Remembers all act'.anamorphDictionnary (validated ++ act.validates turn) := by
  obtain ⟨button, resultCode, random⟩ := turn
  obtain ⟨a, ha, hitem, hnew⟩ := h.shown button
  by_cases hdebug : act.debugMode
  · exact ⟨act.onClick button, by simp [AnamorphosisChoiceActivity.keepResult, onClick, hdebug],
      by simpa [validates, onClick, hdebug] using h.remembers⟩
  · cases resultCode with
    | canceled =>
      exact ⟨{ act.onClick button with alreadyCanceled := true },
        by simp [AnamorphosisChoiceActivity.keepResult, onClick, hdebug],
        by simpa [validates, onClick, hdebug] using h.remembers⟩
    | ok =>
      obtain ⟨-, hdifficulty⟩ := mem_ofDifficulty.1 hitem
      refine ⟨{ act.onClick button with
        alreadyCanceled := false
        anamorphDictionnary := act.anamorphDictionnary.setAlreadyValidated a },
        by simp [AnamorphosisChoiceActivity.keepResult, onClick, hdebug, ha], ?_, ?_⟩
      · intro d
        simpa [AnamorphDictionary.setAlreadyValidated] using h.remembers.items d
      · intro d
        have hvalidates : act.validates ⟨button, .ok, random⟩ = [a] := by
          simp [validates, hdebug, ha]
        have happend : ofDifficulty (validated ++ [a]) d =
            ofDifficulty validated d ++ if d = button then [a] else [] := by
          by_cases hd : d = button
          · simp [ofDifficulty, hd, hdifficulty]
          · simp [ofDifficulty, hd, hdifficulty, Ne.symm hd]
        rw [hvalidates, happend, AnamorphDictionary.setAlreadyValidated, hdifficulty,
          AnamorphDictionary.alreadyValidated_withValidated]
        -- Only the round of the difficulty that is validated goes on.
        split_ifs with hd
        · subst hd
          exact (h.remembers.drawn d).draw hitem hnew
        · simpa using h.remembers.drawn d

/-- No round fails, and what the rounds validate goes on in rounds of each difficulty. -/
theorem Shows.play (hall : all.Nodup) (hne : ∀ d, ofDifficulty all d ≠ [])
    (h : Shows all act validated) (turns : List Turn) :
    ∃ rest, act.play turns = .ok rest ∧
      ∀ d, ∃ used, Drawn (ofDifficulty all d) used (ofDifficulty (validated ++ rest) d) := by
  -- By induction on the rounds: what has been validated before is generalized.
  induction turns generalizing act validated with
  | nil => exact ⟨[], rfl, fun d => ⟨_, by simpa using h.remembers.drawn d⟩⟩
  | cons turn turns ih =>
    obtain ⟨act₁, hkeep, hremembers⟩ := h.keepResult turn
    obtain ⟨act₂, hchoose, hshows⟩ := hremembers.chooseRandomAnamorphosis hall hne turn.random
    obtain ⟨rest, hplay, hdrawn⟩ := ih hshows
    refine ⟨act.validates turn ++ rest, ?_, fun d => ?_⟩
    · simp only [AnamorphosisChoiceActivity.play, onActivityResult, hkeep, hchoose, hplay, bind,
        Except.bind, pure, Except.pure]
    · simpa using hdrawn d

end

/-- No draw fails, and the validated anamorphoses of each difficulty are fairly drawn: cut
    into blocks as long as there are anamorphoses of the difficulty, each full block has all
    of them once, and no block has one twice. -/
theorem fair_draw {all : List Anamorphosis} (hall : all.Nodup)
    (hne : ∀ d, ofDifficulty all d ≠ []) (debugMode : Bool) (random : Difficulty → ℕ)
    (turns : List Turn) :
    ∃ act validated, onCreate (.new all) debugMode random = .ok act ∧
      act.play turns = .ok validated ∧
      ∀ d, Fair (ofDifficulty all d) (ofDifficulty validated d) := by
  -- The activity before its first choice has the whole dictionary.
  have hnew : Remembers all (AnamorphosisChoiceActivity.anamorphDictionnary
      ⟨.new all, none, none, none, none, debugMode, false⟩) [] := remembers_new all
  obtain ⟨act, hcreate, hshows⟩ := hnew.chooseRandomAnamorphosis hall hne random
  obtain ⟨validated, hplay, hdrawn⟩ := hshows.play hall hne turns
  refine ⟨act, validated, hcreate, hplay, fun d => ?_⟩
  obtain ⟨used, h⟩ := hdrawn d
  exact h.fair (hall.filter _)

/-- A board with one anamorphosis of each difficulty: each is validated again and again. -/
theorem fair_draw_sample : ∃ act validated,
    onCreate (.new [⟨0, .easy, "a".toList⟩, ⟨1, .medium, "b".toList⟩, ⟨2, .hard, "c".toList⟩])
      false (fun _ => 3) = .ok act ∧
    act.play [⟨.easy, .ok, fun _ => 1⟩, ⟨.hard, .canceled, fun _ => 2⟩,
      ⟨.easy, .ok, fun _ => 5⟩] = .ok validated ∧
    ∀ d, Fair (ofDifficulty [⟨0, .easy, "a".toList⟩, ⟨1, .medium, "b".toList⟩,
      ⟨2, .hard, "c".toList⟩] d) (ofDifficulty validated d) :=
  fair_draw (by decide) (fun d => by cases d <;> decide) _ _ _

end AnamorphosisChoiceActivity

end Gaze
