import Gaze.Java.Text

/-!
# Players and anamorphoses

The data of the game: the players, and the anamorphoses of a board, among which
the game draws at random (`AnamorphDictionary`). A dictionary keeps, for each
difficulty, the anamorphoses already validated, and forgets them when there are
as many as there are anamorphoses.
-/

namespace Gaze

open Java

/-- `Player`. -/
structure Player where
  name : Text
  score : Int32
  ready : Bool
  playerId : Text
  nbFoundAnamorphosis : Int32
  deriving DecidableEq

/-- The constructor of a new player, who has not found anything. -/
def Player.new (name : Text) (score : Int32) (ready : Bool) (playerId : Text) : Player :=
  ⟨name, score, ready, playerId, 0⟩

/-- `Anamorphosis.Difficulty`. -/
inductive Difficulty
  | easy
  | medium
  | hard
  deriving DecidableEq

namespace Difficulty

/-- `Difficulty.values()`. -/
def values : List Difficulty := [easy, medium, hard]

/-- `Difficulty.ordinal()`. -/
def ordinal : Difficulty → Int32
  | easy => 0
  | medium => 1
  | hard => 2

/-- `Anamorphosis.getValueFromDifficulty`: what finding an anamorphosis is worth. -/
def value : Difficulty → Int32
  | easy => 2
  | medium => 4
  | hard => 7

end Difficulty

/-- `Anamorphosis`, without its images and its hint. Its id is its identity: the
    constructor counts the instances. -/
structure Anamorphosis where
  id : Int32
  difficulty : Difficulty
  detectorName : Text
  deriving DecidableEq

/-- `AnamorphDictionary`. -/
structure AnamorphDictionary where
  all : List Anamorphosis
  easy : List Anamorphosis
  medium : List Anamorphosis
  hard : List Anamorphosis
  alreadyValidatedEasy : List Anamorphosis
  alreadyValidatedMedium : List Anamorphosis
  alreadyValidatedHard : List Anamorphosis

namespace AnamorphDictionary

/-- The constructor, with the anamorphoses `loadAnamorphosis` gives. -/
def new (all : List Anamorphosis) : AnamorphDictionary where
  all := all
  easy := all.filter fun a => a.difficulty = .easy
  medium := all.filter fun a => a.difficulty = .medium
  hard := all.filter fun a => a.difficulty = .hard
  alreadyValidatedEasy := []
  alreadyValidatedMedium := []
  alreadyValidatedHard := []

variable (dict : AnamorphDictionary)

/-- The anamorphoses of a difficulty. -/
def ofDifficulty : Difficulty → List Anamorphosis
  | .easy => dict.easy
  | .medium => dict.medium
  | .hard => dict.hard

/-- Those already validated. -/
def alreadyValidated : Difficulty → List Anamorphosis
  | .easy => dict.alreadyValidatedEasy
  | .medium => dict.alreadyValidatedMedium
  | .hard => dict.alreadyValidatedHard

/-- The dictionary with other anamorphoses already validated. -/
def withValidated (d : Difficulty) (l : List Anamorphosis) : AnamorphDictionary :=
  match d with
  | .easy => { dict with alreadyValidatedEasy := l }
  | .medium => { dict with alreadyValidatedMedium := l }
  | .hard => { dict with alreadyValidatedHard := l }

/-- `AnamorphDictionary.setAlreadyValidated`. -/
def setAlreadyValidated (a : Anamorphosis) : AnamorphDictionary :=
  dict.withValidated a.difficulty (dict.alreadyValidated a.difficulty ++ [a])

/-- The reset of `getRandom`: forget the anamorphoses already validated when they
    are as many as the others. -/
def reset (d : Difficulty) : AnamorphDictionary :=
  if (dict.alreadyValidated d).length = (dict.ofDifficulty d).length then dict.withValidated d []
  else dict

/-- The anamorphoses `getRandom` draws from. -/
def candidates (d : Difficulty) : List Anamorphosis :=
  ((dict.reset d).ofDifficulty d).filter fun a => a ∉ (dict.reset d).alreadyValidated d

/-- `AnamorphDictionary.getRandom`, with the outcome of the random generator; no
    candidate at all (`none`) is an `IllegalArgumentException` of `nextInt`.
    Whether the anamorphosis must not be validated yet is not looked at. -/
def getRandom (d : Difficulty) (_notAlreadyValidated : Bool) (random : ℕ) :
    AnamorphDictionary × Option Anamorphosis :=
  (dict.reset d, (dict.candidates d)[random % (dict.candidates d).length]?)

@[simp] theorem all_withValidated (d : Difficulty) (l : List Anamorphosis) :
    (dict.withValidated d l).all = dict.all := by
  cases d <;> rfl

@[simp] theorem ofDifficulty_withValidated (d d' : Difficulty) (l : List Anamorphosis) :
    (dict.withValidated d l).ofDifficulty d' = dict.ofDifficulty d' := by
  cases d <;> cases d' <;> rfl

@[simp] theorem alreadyValidated_withValidated (d d' : Difficulty) (l : List Anamorphosis) :
    (dict.withValidated d l).alreadyValidated d' =
      if d' = d then l else dict.alreadyValidated d' := by
  cases d <;> cases d' <;> rfl

/-- Drawing succeeds exactly if there is a candidate. -/
theorem getRandom_isSome_iff (d : Difficulty) (b : Bool) (random : ℕ) :
    (dict.getRandom d b random).2.isSome ↔ dict.candidates d ≠ [] := by
  rw [getRandom, isSome_getElem?]
  constructor
  · rintro h hnil
    simp [hnil] at h
  · intro h
    exact Nat.mod_lt _ (List.length_pos_of_ne_nil h)

end AnamorphDictionary

end Gaze
