import Gaze.Machine
import Gaze.Model
import Mathlib.Data.Set.Basic

/-!
# The dictionary over its calls

One `AnamorphDictionary` serves the choice screen, the rounds of a death match and the
server the host has started: each validates anamorphoses (`setAlreadyValidated`) and draws
others (`getRandom`). Here the dictionary is a machine, moved by the calls of all of them.

* `Consistent`: only anamorphoses of a difficulty are drawn and validated for it.
* `mem_drawable_iff`: what a draw may give.
* `succeeds_iff`, `right_iff`: a draw gives an anamorphosis, and one that has not been
  validated as long as there is one, exactly if the validations are as many as the
  anamorphoses when all of them have been validated, and only then. An anamorphosis validated
  twice is counted twice.
* `unnoticed_iff`: a draw is without a trace, and may give all the anamorphoses, exactly if
  none has been validated. That the draw is for someone who does not mind is ignored.
-/

namespace Gaze.AnamorphDictionary

/-- The calls of a dictionary, with the outcomes of the random generator. -/
inductive Call
  | setAlreadyValidated (a : Anamorphosis)
  | getRandom (d : Difficulty) (notAlreadyValidated : Bool) (random : ℕ)

/-- A new dictionary of the anamorphoses `all`, and the calls made on it. Only its members are
    validated. -/
def calls (all : List Anamorphosis) : Machine AnamorphDictionary Call where
  Init dict := dict = new all
  Enabled dict
    | .setAlreadyValidated a => a ∈ dict.all
    | .getRandom _ _ _ => True
  step dict
    | .setAlreadyValidated a => dict.setAlreadyValidated a
    | .getRandom d notAlreadyValidated random => (dict.getRandom d notAlreadyValidated random).1

instance (all : List Anamorphosis) (dict : AnamorphDictionary) :
    DecidablePred ((calls all).Enabled dict)
  | .setAlreadyValidated a => inferInstanceAs (Decidable (a ∈ dict.all))
  | .getRandom _ _ _ => inferInstanceAs (Decidable True)

/-- The anamorphoses of a difficulty are those of the dictionary, and only they are validated
    for it. -/
structure Consistent (dict : AnamorphDictionary) : Prop where
  ofDifficulty_eq : ∀ d, dict.ofDifficulty d = dict.all.filter fun a => a.difficulty = d
  validated : ∀ d, dict.alreadyValidated d ⊆ dict.ofDifficulty d

variable {dict : AnamorphDictionary} {d : Difficulty} {a : Anamorphosis} {all : List Anamorphosis}
  {es : List Call}

theorem consistent_new (all : List Anamorphosis) : (new all).Consistent := by
  refine ⟨fun d => ?_, fun d => ?_⟩
  · cases d <;> rfl
  · cases d <;> exact List.nil_subset _

namespace Consistent

theorem mem_ofDifficulty (h : dict.Consistent) :
    a ∈ dict.ofDifficulty d ↔ a ∈ dict.all ∧ a.difficulty = d := by
  rw [h.ofDifficulty_eq, List.mem_filter, decide_eq_true_eq]

theorem withValidated {l : List Anamorphosis} (h : dict.Consistent)
    (hl : l ⊆ dict.ofDifficulty d) : (dict.withValidated d l).Consistent := by
  refine ⟨fun d' => ?_, fun d' => ?_⟩
  · rw [ofDifficulty_withValidated, all_withValidated, h.ofDifficulty_eq]
  · rw [ofDifficulty_withValidated, alreadyValidated_withValidated]
    split_ifs with hd
    · exact hd ▸ hl
    · exact h.validated d'

theorem setAlreadyValidated (h : dict.Consistent) (ha : a ∈ dict.all) :
    (dict.setAlreadyValidated a).Consistent :=
  h.withValidated (List.append_subset.2 ⟨h.validated _, fun b hb => by
    rw [List.mem_singleton.1 hb]
    exact h.mem_ofDifficulty.2 ⟨ha, rfl⟩⟩)

theorem reset (h : dict.Consistent) (d : Difficulty) : (dict.reset d).Consistent := by
  unfold AnamorphDictionary.reset
  split_ifs
  · exact h.withValidated (List.nil_subset _)
  · exact h

end Consistent

@[simp] theorem all_reset : (dict.reset d).all = dict.all := by
  unfold reset
  split_ifs <;> simp

@[simp] theorem ofDifficulty_reset {d' : Difficulty} :
    (dict.reset d).ofDifficulty d' = dict.ofDifficulty d' := by
  unfold reset
  split_ifs <;> simp

theorem consistent_step {e : Call} (h : dict.Consistent) (he : (calls all).Enabled dict e) :
    ((calls all).step dict e).Consistent := by
  cases e with
  | setAlreadyValidated a => exact h.setAlreadyValidated he
  | getRandom d notAlreadyValidated random => exact h.reset d

theorem all_step (e : Call) : ((calls all).step dict e).all = dict.all := by
  cases e with
  | setAlreadyValidated a => exact all_withValidated _ _ _
  | getRandom d notAlreadyValidated random => exact all_reset

theorem consistent_of_reachable (h : (calls all).Reachable dict) : dict.Consistent := by
  refine h.invariant (fun dict hinit => ?_) fun _ _ => consistent_step
  rw [show dict = new all from hinit]
  exact consistent_new all

theorem all_of_reachable (h : (calls all).Reachable dict) : dict.all = all := by
  refine h.invariant (I := fun dict => dict.all = all) (fun dict hinit => ?_)
    fun _ e hs _ => (all_step e).trans hs
  rw [show dict = new all from hinit]
  rfl

/-! ## What a draw may give -/

/-- What a draw may give. -/
def drawable (dict : AnamorphDictionary) (d : Difficulty) (notAlreadyValidated : Bool) :
    Set Anamorphosis :=
  {a | ∃ random, (dict.getRandom d notAlreadyValidated random).2 = some a}

/-- A draw may give each of the candidates. -/
theorem mem_drawable_iff {b : Bool} : a ∈ dict.drawable d b ↔ a ∈ dict.candidates d := by
  constructor
  · rintro ⟨random, hrandom⟩
    exact List.mem_of_getElem? hrandom
  · intro ha
    obtain ⟨i, hi, rfl⟩ := List.getElem_of_mem ha
    refine ⟨i, ?_⟩
    rw [getRandom, Nat.mod_eq_of_lt hi]
    exact List.getElem?_eq_getElem hi

/-- The candidates are the anamorphoses that are not validated, or all of them where there are
    as many validations as anamorphoses. -/
theorem mem_candidates_iff :
    a ∈ dict.candidates d ↔ a ∈ dict.ofDifficulty d ∧
      ((dict.alreadyValidated d).length = (dict.ofDifficulty d).length ∨
        a ∉ dict.alreadyValidated d) := by
  rw [candidates, List.mem_filter, decide_eq_true_eq, ofDifficulty_reset, reset]
  refine and_congr_right fun _ => ?_
  split_ifs with hlength
  · simp [hlength]
  · simp [hlength]

/-! ## Draws of what is not validated -/

/-- The draw gives an anamorphosis of the difficulty, whatever the random generator does. -/
def Succeeds (dict : AnamorphDictionary) (d : Difficulty) : Prop :=
  ∀ random, ∃ a ∈ dict.all, a.difficulty = d ∧ (dict.getRandom d true random).2 = some a

/-- As long as some anamorphosis of the difficulty has not been validated since the list of
    the validated ones was last reset, the draw gives such an anamorphosis. -/
def Fresh (dict : AnamorphDictionary) (d : Difficulty) : Prop :=
  (∃ x ∈ dict.all, x.difficulty = d ∧ x ∉ dict.alreadyValidated d) →
    ∀ a ∈ dict.drawable d true, a ∉ dict.alreadyValidated d

/-- There are as many validations as anamorphoses of the difficulty. -/
def Full (dict : AnamorphDictionary) (d : Difficulty) : Prop :=
  (dict.alreadyValidated d).length = (dict.ofDifficulty d).length

/-- All the anamorphoses of the difficulty have been validated. -/
def Exhausted (dict : AnamorphDictionary) (d : Difficulty) : Prop :=
  ∀ a ∈ dict.all, a.difficulty = d → a ∈ dict.alreadyValidated d

instance : Decidable (dict.Full d) := inferInstanceAs (Decidable (_ = _))

instance : Decidable (dict.Exhausted d) := inferInstanceAs (Decidable (∀ a ∈ dict.all, _))

/-- What a property says of the draws that are for what is not validated. -/
def AtDraws (P : AnamorphDictionary → Difficulty → Prop) (dict : AnamorphDictionary) : Call → Prop
  | .getRandom d true _ => P dict d
  | _ => True

instance (P : AnamorphDictionary → Difficulty → Prop) [∀ dict d, Decidable (P dict d)] :
    ∀ e, Decidable (AtDraws P dict e)
  | .setAlreadyValidated _ => inferInstanceAs (Decidable True)
  | .getRandom _ false _ => inferInstanceAs (Decidable True)
  | .getRandom d true _ => inferInstanceAs (Decidable (P dict d))

theorem succeeds_iff_candidates (h : dict.Consistent) :
    dict.Succeeds d ↔ dict.candidates d ≠ [] := by
  constructor
  · intro hsucceeds
    obtain ⟨a, -, -, ha⟩ := hsucceeds 0
    rw [← getRandom_isSome_iff dict d true 0, ha]
    rfl
  · intro hne random
    obtain ⟨a, ha⟩ := Option.isSome_iff_exists.1 ((getRandom_isSome_iff dict d true random).2 hne)
    have hmem : a ∈ dict.drawable d true := ⟨random, ha⟩
    obtain ⟨hall, hd⟩ := h.mem_ofDifficulty.1 (mem_candidates_iff.1 (mem_drawable_iff.1 hmem)).1
    exact ⟨a, hall, hd, ha⟩

/-- A draw gives an anamorphosis exactly if the validations are as many as the anamorphoses
    when all of them have been validated. -/
theorem succeeds_iff (h : dict.Consistent) (hd : ∃ a ∈ dict.all, a.difficulty = d) :
    dict.Succeeds d ↔ (dict.Exhausted d → dict.Full d) := by
  rw [succeeds_iff_candidates h]
  constructor
  · intro hne hexhausted
    obtain ⟨a, ha⟩ := List.exists_mem_of_ne_nil _ hne
    obtain ⟨hmem, hfull | hnew⟩ := mem_candidates_iff.1 ha
    · exact hfull
    · obtain ⟨hall, hdiff⟩ := h.mem_ofDifficulty.1 hmem
      exact absurd (hexhausted a hall hdiff) hnew
  · intro himp
    by_cases hexhausted : dict.Exhausted d
    · obtain ⟨a, ha, hdiff⟩ := hd
      exact List.ne_nil_of_mem
        (mem_candidates_iff.2 ⟨h.mem_ofDifficulty.2 ⟨ha, hdiff⟩, .inl (himp hexhausted)⟩)
    · unfold Exhausted at hexhausted
      push Not at hexhausted
      obtain ⟨a, ha, hdiff, hnew⟩ := hexhausted
      exact List.ne_nil_of_mem
        (mem_candidates_iff.2 ⟨h.mem_ofDifficulty.2 ⟨ha, hdiff⟩, .inr hnew⟩)

/-- A draw gives what is not validated exactly if the validations are as many as the
    anamorphoses only when all of them have been validated. -/
theorem fresh_iff (h : dict.Consistent) (hd : ∃ a ∈ dict.all, a.difficulty = d) :
    dict.Fresh d ↔ (dict.Full d → dict.Exhausted d) := by
  constructor
  · intro hfresh hfull a ha hdiff
    by_contra hnew
    -- With as many validations as anamorphoses all of them may be drawn, and some of them
    -- are validated.
    have hpos : 0 < (dict.alreadyValidated d).length := by
      obtain ⟨b, hb, hbd⟩ := hd
      rw [hfull]
      exact List.length_pos_of_mem (h.mem_ofDifficulty.2 ⟨hb, hbd⟩)
    obtain ⟨b, hb⟩ := List.exists_mem_of_length_pos hpos
    exact hfresh ⟨a, ha, hdiff, hnew⟩ b
      (mem_drawable_iff.2 (mem_candidates_iff.2 ⟨h.validated d hb, .inl hfull⟩)) hb
  · rintro himp ⟨x, hx, hxd, hnew⟩ a ha
    obtain ⟨-, hfull | ha⟩ := mem_candidates_iff.1 (mem_drawable_iff.1 ha)
    · exact absurd (himp hfull x hx hxd) hnew
    · exact ha

theorem right_iff (h : dict.Consistent) (hd : ∃ a ∈ dict.all, a.difficulty = d) :
    dict.Succeeds d ∧ dict.Fresh d ↔ (dict.Full d ↔ dict.Exhausted d) := by
  rw [succeeds_iff h hd, fresh_iff h hd]
  tauto

/-- Properties of draws that are equivalent for consistent dictionaries with anamorphoses of
    each difficulty hold along the same runs. -/
theorem along_atDraws_congr {P Q : AnamorphDictionary → Difficulty → Prop}
    (hPQ : ∀ (dict : AnamorphDictionary) (d : Difficulty), dict.Consistent →
      (∃ a ∈ dict.all, a.difficulty = d) → (P dict d ↔ Q dict d))
    (h : (calls all).IsRun dict es) (hall : ∀ d, ∃ a ∈ all, a.difficulty = d) :
    (calls all).Along (AtDraws P) dict es ↔ (calls all).Along (AtDraws Q) dict es := by
  refine h.along_congr fun dict e hreach _ => ?_
  cases e with
  | setAlreadyValidated a => exact Iff.rfl
  | getRandom d notAlreadyValidated random =>
    cases notAlreadyValidated with
    | false => exact Iff.rfl
    | true =>
      refine hPQ dict d (consistent_of_reachable hreach) ?_
      rw [all_of_reachable hreach]
      exact hall d

/-- The draws of a run give an anamorphosis exactly if, at each of them, the validations are as
    many as the anamorphoses when all of them have been validated; and they give what is not
    validated exactly if this is so only then. -/
theorem draws_right_iff (h : (calls all).IsRun dict es)
    (hall : ∀ d, ∃ a ∈ all, a.difficulty = d) :
    ((calls all).Along (AtDraws Succeeds) dict es ↔
      (calls all).Along (AtDraws fun dict d => dict.Exhausted d → dict.Full d) dict es) ∧
    ((calls all).Along (AtDraws fun dict d => dict.Succeeds d ∧ dict.Fresh d) dict es ↔
      (calls all).Along (AtDraws fun dict d => dict.Full d ↔ dict.Exhausted d) dict es) :=
  ⟨along_atDraws_congr (fun _ _ => succeeds_iff) h hall,
    along_atDraws_congr (fun _ _ => right_iff) h hall⟩

/-- One anamorphosis of each difficulty. -/
def three : List Anamorphosis := [⟨0, .easy, []⟩, ⟨1, .medium, []⟩, ⟨2, .hard, []⟩]

theorem exists_mem_three (d : Difficulty) : ∃ a ∈ three, a.difficulty = d := by
  cases d <;> decide

theorem draws_right_iff_validated_once :
    (calls three).Along (AtDraws fun dict d => dict.Succeeds d ∧ dict.Fresh d) (new three)
      [.setAlreadyValidated ⟨1, .medium, []⟩, .getRandom .medium true 0] :=
  (draws_right_iff ⟨rfl, by decide⟩ exists_mem_three).2.2 (by decide)

/-- The anamorphosis of a death match is validated again after it has been found: there are two
    validations for one anamorphosis, and nothing left to draw. -/
theorem not_draws_right_validated_twice :
    ¬ ∀ (all : List Anamorphosis) (es : List Call), (∀ d, ∃ a ∈ all, a.difficulty = d) →
      (calls all).IsRun (new all) es →
        (calls all).Along (AtDraws fun dict d => dict.Succeeds d ∧ dict.Fresh d) (new all) es := by
  intro h
  have hrun : (calls three).IsRun (new three) [.setAlreadyValidated ⟨1, .medium, []⟩,
      .setAlreadyValidated ⟨1, .medium, []⟩, .getRandom .medium true 0] := ⟨rfl, by decide⟩
  obtain ⟨-, -, ⟨hsucceeds, -⟩, -⟩ := h three _ exists_mem_three hrun
  obtain ⟨a, -, -, ha⟩ := hsucceeds 0
  simp [getRandom, candidates, reset, setAlreadyValidated, calls, ofDifficulty, alreadyValidated,
    withValidated, new, three] at ha

/-! ## Draws for someone who does not mind -/

/-- The server's draw leaves the validations as they are, may give all the anamorphoses of the
    difficulty, and is without a trace in what the later draws may give. -/
structure Unnoticed (dict : AnamorphDictionary) (d : Difficulty) : Prop where
  kept : ∀ random d', (dict.getRandom d false random).1.alreadyValidated d' =
    dict.alreadyValidated d'
  possible : ∀ a ∈ dict.all, a.difficulty = d → a ∈ dict.drawable d false
  later : ∀ random es d', ((calls dict.all).after (dict.getRandom d false random).1 es).drawable d'
    true = ((calls dict.all).after dict es).drawable d' true

theorem reset_of_full (h : dict.Full d) : dict.reset d = dict.withValidated d [] := if_pos h

theorem withValidated_alreadyValidated : dict.withValidated d (dict.alreadyValidated d) = dict := by
  cases d <;> rfl

/-- Where there is nothing to forget, a reset does nothing. -/
theorem reset_of_nil (h : dict.alreadyValidated d = []) : dict.reset d = dict := by
  unfold reset
  split_ifs
  · rw [← h, withValidated_alreadyValidated]
  · rfl

/-- A draw is unnoticed exactly if no anamorphosis of the difficulty has been validated. -/
theorem unnoticed_iff (h : dict.Consistent) :
    dict.Unnoticed d ↔ dict.alreadyValidated d = [] := by
  constructor
  · rintro ⟨hkept, hpossible, -⟩
    by_cases hfull : dict.Full d
    · -- The draw resets the validations.
      have hreset : (dict.reset d).alreadyValidated d = [] := by
        rw [reset_of_full hfull, alreadyValidated_withValidated, if_pos rfl]
      exact (hkept 0 d).symm.trans hreset
    · -- What is validated is not drawn.
      rw [List.eq_nil_iff_forall_not_mem]
      intro a ha
      obtain ⟨hall, hd⟩ := h.mem_ofDifficulty.1 (h.validated d ha)
      obtain ⟨-, hlength | hnew⟩ := mem_candidates_iff.1 (mem_drawable_iff.1 (hpossible a hall hd))
      · exact hfull hlength
      · exact hnew ha
  · intro hnil
    have hreset := reset_of_nil hnil
    refine ⟨fun random d' => ?_, fun a ha hd => ?_, fun random es d' => ?_⟩
    · rw [getRandom, hreset]
    · refine mem_drawable_iff.2 (mem_candidates_iff.2 ⟨h.mem_ofDifficulty.2 ⟨ha, hd⟩, .inr ?_⟩)
      rw [hnil]
      exact List.not_mem_nil
    · rw [getRandom, hreset]

/-- What a property says of the draws for someone who does not mind. -/
def AtOtherDraws (P : AnamorphDictionary → Difficulty → Prop) (dict : AnamorphDictionary) :
    Call → Prop
  | .getRandom d false _ => P dict d
  | _ => True

/-- The server's draws of a run are unnoticed exactly if, at each of them, nothing of the
    difficulty has been validated. -/
theorem draws_unnoticed_iff (h : (calls all).IsRun dict es) :
    (calls all).Along (AtOtherDraws Unnoticed) dict es ↔
      (calls all).Along (AtOtherDraws fun dict d => dict.alreadyValidated d = []) dict es := by
  refine h.along_congr fun dict e hreach _ => ?_
  cases e with
  | setAlreadyValidated a => exact Iff.rfl
  | getRandom d notAlreadyValidated random =>
    cases notAlreadyValidated with
    | true => exact Iff.rfl
    | false => exact unnoticed_iff (consistent_of_reachable hreach)

/-- The anamorphoses are validated. The one of medium difficulty is drawn again by the host, which
    forgets its validation, and then by the server. -/
def sampleCalls : List Call :=
  [.setAlreadyValidated ⟨0, .easy, []⟩, .setAlreadyValidated ⟨1, .medium, []⟩,
    .getRandom .medium true 0, .getRandom .medium false 1, .setAlreadyValidated ⟨2, .hard, []⟩,
    .getRandom .medium false 2]

theorem draws_unnoticed_iff_sampleCalls :
    (calls three).Along (AtOtherDraws Unnoticed) (new three) sampleCalls ∧
      ((calls three).after (new three) sampleCalls).alreadyValidated .easy = [⟨0, .easy, []⟩] ∧
      ((calls three).after (new three) sampleCalls).alreadyValidated .hard = [⟨2, .hard, []⟩] :=
  ⟨(draws_unnoticed_iff ⟨rfl, by decide⟩).2 ⟨trivial, trivial, trivial, rfl, trivial, rfl, trivial⟩,
    by decide, by decide⟩

/-- Once the host has found the only anamorphosis that is left to it, the server's draw makes
    it be drawn again. -/
theorem not_draws_unnoticed_found :
    ¬ ∀ (all : List Anamorphosis) (es : List Call), (calls all).IsRun (new all) es →
      (calls all).Along (AtOtherDraws Unnoticed) (new all) es := by
  intro h
  have hrun : (calls three).IsRun (new three)
      [.setAlreadyValidated ⟨1, .medium, []⟩, .getRandom .medium false 0] := ⟨rfl, by decide⟩
  obtain ⟨-, hdraw, -⟩ := h three _ hrun
  have hkept := hdraw.kept 0 .medium
  simp [getRandom, reset, setAlreadyValidated, calls, ofDifficulty, alreadyValidated,
    withValidated, new, three] at hkept

end Gaze.AnamorphDictionary
