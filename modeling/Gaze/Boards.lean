import Gaze.Server.Runs

/-!
# The boards

An application has the dictionary of a board, and `ChangeBoardActivity` replaces it by a
new one. The anamorphoses of a dictionary take their ids from a counter of the process,
which has counted the anamorphoses of all the dictionaries built before.

When the server of a device chooses an anamorphosis for a death match, it sends its id,
which the other devices look up in their own dictionaries (`getById`).

* `Device.dictionary_eq`: the dictionary of a device is that of its board, numbered from
  the count of the anamorphoses built before it.
* `Device.ids_agree_iff`: on two devices that end on the same board, the ids mean the same
  exactly if as many anamorphoses have been built on both before their last dictionaries.
-/

namespace Gaze

open Java Protocol

/-! ## The anamorphoses of the boards -/

/-- The classes of dictionaries. -/
inductive Board
  | chicago
  | first
  deriving DecidableEq

namespace Board

/-- The anamorphoses `ChicagoBoardDictionary.loadAnamorphosis` builds. -/
def chicagoAnamorphoses : List (Difficulty × Text) :=
  [(.easy, "1.svm".toList), (.easy, "3.svm".toList), (.easy, "10.svm".toList),
    (.easy, "13.svm".toList), (.easy, "15.svm".toList), (.easy, "17.svm".toList),
    (.easy, "19.svm".toList),
    (.medium, "2.svm".toList), (.medium, "4.svm".toList), (.medium, "5.svm".toList),
    (.medium, "7.svm".toList), (.medium, "9.svm".toList), (.medium, "14.svm".toList),
    (.medium, "16.svm".toList), (.medium, "20.svm".toList),
    (.hard, "6.svm".toList), (.hard, "8.svm".toList), (.hard, "11.svm".toList),
    (.hard, "12.svm".toList), (.hard, "18.svm".toList), (.hard, "21.svm".toList)]

/-- The anamorphoses `FirstBoardDictionary.loadAnamorphosis` builds. -/
def firstAnamorphoses : List (Difficulty × Text) :=
  [(.easy, "triangle.svm".toList), (.easy, "pentagone.svm".toList), (.easy, "quille.svm".toList),
    (.easy, "trefle.svm".toList),
    (.medium, "3rond.svm".toList), (.medium, "tripentagone.svm".toList),
    (.medium, "sablier.svm".toList), (.medium, "bouteille.svm".toList),
    (.hard, "etoile.svm".toList), (.hard, "carre.svm".toList), (.hard, "escalier.svm".toList)]

/-- The difficulties and the detectors of the anamorphoses of a board. -/
def anamorphoses : Board → List (Difficulty × Text)
  | chicago => chicagoAnamorphoses
  | first => firstAnamorphoses

/-- How many anamorphoses a board has. -/
def size (b : Board) : ℕ := b.anamorphoses.length

theorem nodup_detectors (b : Board) : (b.anamorphoses.map Prod.snd).Nodup := by
  cases b <;> decide

/-- An anamorphosis is told from the others by its detector. -/
theorem index_eq_of_detector {b : Board} {i j : ℕ} {x y : Difficulty × Text}
    (hx : b.anamorphoses[i]? = some x) (hy : b.anamorphoses[j]? = some y) (h : x.2 = y.2) :
    i = j := by
  obtain ⟨hi, rfl⟩ := List.getElem?_eq_some_iff.1 hx
  obtain ⟨hj, rfl⟩ := List.getElem?_eq_some_iff.1 hy
  have hi' : i < (b.anamorphoses.map Prod.snd).length := by rwa [List.length_map]
  have hj' : j < (b.anamorphoses.map Prod.snd).length := by rwa [List.length_map]
  have heq : (b.anamorphoses.map Prod.snd)[i] = (b.anamorphoses.map Prod.snd)[j] := by
    rwa [List.getElem_map, List.getElem_map]
  exact b.nodup_detectors.getElem_inj_iff.1 heq

end Board

/-- The anamorphoses a `loadAnamorphosis` builds, and `Anamorphosis.idCounter` after it: the
    constructor takes the next id. -/
def loadAnamorphosis : List (Difficulty × Text) → Int32 → List Anamorphosis × Int32
  | [], idCounter => ([], idCounter)
  | (difficulty, detectorName) :: rest, idCounter =>
    let (all, idCounter') := loadAnamorphosis rest (idCounter + 1)
    (⟨idCounter, difficulty, detectorName⟩ :: all, idCounter')

/-- The anamorphoses are numbered from the counter. -/
theorem getElem?_loadAnamorphosis (l : List (Difficulty × Text)) (idCounter : Int32) (i : ℕ) :
    (loadAnamorphosis l idCounter).1[i]? =
      l[i]?.map fun x => ⟨idCounter + Int32.ofNat i, x.1, x.2⟩ := by
  induction l generalizing idCounter i with
  | nil => rfl
  | cons x l ih =>
    cases i with
    | zero => simp [loadAnamorphosis]
    | succ i =>
      have hnext : idCounter + 1 + Int32.ofNat i = idCounter + Int32.ofNat (i + 1) := by
        rw [Int32.ofNat_add, Int32.add_comm (Int32.ofNat i), ← Int32.add_assoc]
        rfl
      rw [loadAnamorphosis, List.getElem?_cons_succ, List.getElem?_cons_succ, ih, hnext]

/-- The counter counts the anamorphoses. -/
theorem loadAnamorphosis_snd (l : List (Difficulty × Text)) (idCounter : Int32) :
    (loadAnamorphosis l idCounter).2 = idCounter + Int32.ofNat l.length := by
  induction l generalizing idCounter with
  | nil => simp [loadAnamorphosis]
  | cons x l ih =>
    rw [loadAnamorphosis, ih, List.length_cons, Int32.ofNat_add,
      Int32.add_comm (Int32.ofNat l.length), ← Int32.add_assoc]
    rfl

/-- `AnamorphDictionary.getById`; `none` stands for `null`. -/
def AnamorphDictionary.getById (dict : AnamorphDictionary) (id : Int32) : Option Anamorphosis :=
  dict.all.find? fun a => a.id = id

/-! ## A device -/

/-- What a process has of the boards: `Anamorphosis.idCounter`, and the dictionary of its
    `GazeApplication`, with its class. -/
structure Device where
  idCounter : Int32
  board : Board
  anamorphDictionary : AnamorphDictionary

namespace Device

/-- A new dictionary for the application. -/
def setBoard (idCounter : Int32) (b : Board) : Device where
  idCounter := (loadAnamorphosis b.anamorphoses idCounter).2
  board := b
  anamorphDictionary := .new (loadAnamorphosis b.anamorphoses idCounter).1

/-- A new process: its application has the dictionary of the Chicago board. -/
def start : Device := setBoard 0 .chicago

/-- The board of an item of `ChangeBoardActivity`, if it has a dictionary. -/
def boardOfItem (item : Text) : Option Board :=
  if item = "default".toList then some .chicago
  else if item = "former".toList then some .first
  else none

/-- `ChangeBoardActivity.onItemClick`. -/
def onItemClick (dev : Device) (item : Text) : Device :=
  match boardOfItem item with
  | some b => setBoard dev.idCounter b
  | none => dev

/-- A device after some changes of its board. -/
def after (items : List Text) : Device := items.foldl onItemClick start

/-- The boards whose dictionaries have been built. -/
def boards (items : List Text) : List Board := .chicago :: items.filterMap boardOfItem

/-- The number of anamorphoses built before the last dictionary. -/
def builtBefore (items : List Text) : ℕ := ((boards items).dropLast.map Board.size).sum

theorem setBoard_idCounter (idCounter : Int32) (b : Board) :
    (setBoard idCounter b).idCounter = idCounter + Int32.ofNat b.size :=
  loadAnamorphosis_snd _ _

/-- The dictionary of a device is that of its last board, numbered from the count of the
    anamorphoses built before it. -/
theorem after_eq (items : List Text) : ∃ b, (boards items).getLast? = some b ∧
    after items = setBoard (Int32.ofNat (builtBefore items)) b := by
  induction items using List.reverseRecOn with
  | nil => exact ⟨.chicago, rfl, rfl⟩
  | append_singleton items item ih =>
    obtain ⟨b, hlast, hafter⟩ := ih
    have hstep : after (items ++ [item]) = (after items).onItemClick item := by
      simp [after]
    cases hitem : boardOfItem item with
    | none =>
      have hboards : boards (items ++ [item]) = boards items := by simp [boards, hitem]
      have hbuilt : builtBefore (items ++ [item]) = builtBefore items := by
        rw [builtBefore, hboards, builtBefore]
      refine ⟨b, by rw [hboards, hlast], ?_⟩
      rw [hstep, onItemClick, hitem, hafter, hbuilt]
    | some b' =>
      have hboards : boards (items ++ [item]) = boards items ++ [b'] := by simp [boards, hitem]
      -- The board of the device becomes one of those built before.
      have hbuilt : builtBefore (items ++ [item]) = builtBefore items + b.size := by
        rw [builtBefore, hboards, List.dropLast_concat, builtBefore]
        conv_lhs => rw [← List.dropLast_append_getLast? b hlast]
        simp
      refine ⟨b', by simp [hboards], ?_⟩
      rw [hstep, onItemClick, hitem, hafter, hbuilt, Int32.ofNat_add, ← setBoard_idCounter]

end Device

/-! ## The server of a device -/

/-- The dictionary has the anamorphoses of another one. -/
structure AnamorphDictionary.SameBoard (dict dict' : AnamorphDictionary) : Prop where
  all : dict.all = dict'.all
  ofDifficulty : ∀ d, dict.ofDifficulty d = dict'.ofDifficulty d

namespace AnamorphDictionary.SameBoard

variable {dict dict' dict'' : AnamorphDictionary}

theorem rfl : dict.SameBoard dict := ⟨Eq.refl _, fun _ => Eq.refl _⟩

theorem trans (h : dict.SameBoard dict') (h' : dict'.SameBoard dict'') : dict.SameBoard dict'' :=
  ⟨h.all.trans h'.all, fun d => (h.ofDifficulty d).trans (h'.ofDifficulty d)⟩

theorem withValidated (dict : AnamorphDictionary) (d : Difficulty) (l : List Anamorphosis) :
    (dict.withValidated d l).SameBoard dict :=
  ⟨all_withValidated dict d l, fun d' => ofDifficulty_withValidated dict d d' l⟩

theorem reset (dict : AnamorphDictionary) (d : Difficulty) : (dict.reset d).SameBoard dict := by
  rw [AnamorphDictionary.reset]
  split_ifs
  · exact withValidated dict d []
  · exact rfl

end AnamorphDictionary.SameBoard

namespace Server

variable {s : Server} {handler : ClientHandler} {data : Text} {choice : Choice}

theorem sameBoard_finishMainGame (players : List Player) :
    ((finishMainGame players choice).exec s).state.anamorphDictionary.SameBoard
      s.anamorphDictionary := by
  cases players with
  | nil => exact .rfl
  | cons first players =>
    rw [exec_finishMainGame]
    split_ifs
    · rcases hdraw : s.anamorphDictionary.getRandom .medium false choice.random with ⟨dict, _ | a⟩
      all_goals
        obtain rfl : s.anamorphDictionary.reset .medium = dict := congrArg Prod.fst hdraw
        exact .reset _ _
    · exact .rfl

theorem sameBoard_onAnamorphosisFound {p : Player} (hp : s.players.get handler = some p) :
    ((onAnamorphosisFound handler data choice).exec s).state.anamorphDictionary.SameBoard
      s.anamorphDictionary := by
  cases hd : parseAnamorphosisFoundMessage data with
  | error e =>
    rw [exec_onAnamorphosisFound_of_error hd]
    exact .rfl
  | ok d =>
    rw [exec_onAnamorphosisFound hp hd]
    cases s.gameState with
    | lobby | ended => exact .rfl
    | deathMatch =>
      dsimp only
      split_ifs <;> exact .rfl
    | mainGame =>
      dsimp only
      split_ifs
      · exact .rfl
      · exact sameBoard_finishMainGame (s := s.credited handler d) _
      · exact .rfl

/-- The server keeps the board it was built with. -/
theorem sameBoard_handle : ∀ e : Event,
    (s.handle e).state.anamorphDictionary.SameBoard s.anamorphDictionary
  | .received handler l choice => by
    have hcases := receiving s handler l choice
    rw [handle]
    generalize (onMessageReceived handler (some l) choice).exec s = o at hcases ⊢
    cases hcases with
    | found p hp => exact sameBoard_onAnamorphosisFound hp
    | _ => exact .rfl
  | .disconnected _ => by
    rw [handle, exec_onClientDisconnected]
    exact .rfl
  | .stopped => by
    rw [handle, exec_onServerStopped]
    exact .rfl
  | .accepted _ => .rfl
  | .validated _ => .withValidated _ _ _
  | .drawn d _ => .reset _ d

theorem sameBoard_after (es : List Event) :
    (machine.after s es).anamorphDictionary.SameBoard s.anamorphDictionary := by
  induction es generalizing s with
  | nil => exact .rfl
  | cons e es ih => exact ih.trans (sameBoard_handle e)

/-- The result of the choice is the id of the anamorphosis that is drawn. -/
theorem chooseMediumAnamorph_ok_iff {text : Text} :
    ((chooseMediumAnamorph choice).exec s).result = .ok text ↔
      ∃ a, (s.anamorphDictionary.getRandom .medium false choice.random).2 = some a ∧
        text = Integer.toString a.id := by
  cases hdraw : (s.anamorphDictionary.getRandom .medium false choice.random).2 with
  | none => simp [chooseMediumAnamorph, hdraw]
  | some a => simp [chooseMediumAnamorph, hdraw, eq_comm]

/-- What is drawn is one of the anamorphoses of the board. -/
theorem mem_of_getRandom {dict : AnamorphDictionary} {d : Difficulty} {b : Bool} {random : ℕ}
    {a : Anamorphosis} (h : (dict.getRandom d b random).2 = some a) : a ∈ dict.ofDifficulty d := by
  have hmem : a ∈ dict.candidates d := List.mem_of_getElem? h
  rw [← (AnamorphDictionary.SameBoard.reset dict d).ofDifficulty d]
  exact List.mem_of_mem_filter hmem

end Server

namespace Device

/-- On two devices, the ids mean the same: whatever happens to a server with the board of
    the first one, and whatever is drawn at random, the id of the anamorphosis it chooses
    for a death match is that of an anamorphosis of the second one with the same detector. -/
def SameIds (dev₁ dev₂ : Device) : Prop :=
  ∀ (s : Server) es choice text, s.anamorphDictionary.SameBoard dev₁.anamorphDictionary →
    ((Server.chooseMediumAnamorph choice).exec (Server.machine.after s es)).result = .ok text →
    ∃ a id b, ((Server.machine.after s es).anamorphDictionary.getRandom .medium false
        choice.random).2 = some a ∧
      Integer.parseInt text 10 = some id ∧ dev₂.anamorphDictionary.getById id = some b ∧
      b.detectorName = a.detectorName

variable {b : Board} {c c₁ c₂ : Int32}

/-- The anamorphoses of a device. -/
theorem mem_all_setBoard {a : Anamorphosis} :
    a ∈ (setBoard c b).anamorphDictionary.all ↔ ∃ i x, b.anamorphoses[i]? = some x ∧
      a = ⟨c + Int32.ofNat i, x.1, x.2⟩ := by
  have hall : (setBoard c b).anamorphDictionary.all = (loadAnamorphosis b.anamorphoses c).1 := rfl
  simp only [hall, List.mem_iff_getElem?, getElem?_loadAnamorphosis, Option.map_eq_some_iff]
  constructor
  · rintro ⟨i, x, hx, rfl⟩
    exact ⟨i, x, hx, rfl⟩
  · rintro ⟨i, x, hx, rfl⟩
    exact ⟨i, x, hx, rfl⟩

/-- If an anamorphosis of a device is found on another one under its id, with its detector,
    then both have been numbered from the same count. -/
theorem base_eq_of_getById {a a' : Anamorphosis}
    (ha : a ∈ (setBoard c₁ b).anamorphDictionary.all)
    (hget : (setBoard c₂ b).anamorphDictionary.getById a.id = some a')
    (hname : a'.detectorName = a.detectorName) : c₁ = c₂ := by
  obtain ⟨i, x, hx, rfl⟩ := mem_all_setBoard.1 ha
  obtain ⟨j, y, hy, rfl⟩ := mem_all_setBoard.1 (List.mem_of_find?_eq_some hget)
  obtain rfl := Board.index_eq_of_detector hy hx hname
  have hid : c₂ + Int32.ofNat j = c₁ + Int32.ofNat j := by simpa using List.find?_some hget
  grind

/-- The ids of a device are its own. -/
theorem getById_eq_some {a : Anamorphosis} (ha : a ∈ (setBoard c b).anamorphDictionary.all) :
    (setBoard c b).anamorphDictionary.getById a.id = some a := by
  have hsome : ((setBoard c b).anamorphDictionary.getById a.id).isSome :=
    List.find?_isSome.2 ⟨a, ha, by simp⟩
  obtain ⟨a', ha'⟩ := Option.isSome_iff_exists.1 hsome
  obtain ⟨i, x, hx, rfl⟩ := mem_all_setBoard.1 ha
  obtain ⟨j, y, hy, rfl⟩ := mem_all_setBoard.1 (List.mem_of_find?_eq_some ha')
  have hid : c + Int32.ofNat j = c + Int32.ofNat i := by simpa using List.find?_some ha'
  have hsize : b.anamorphoses.length ≤ 21 := by cases b <;> decide
  obtain ⟨hi, -⟩ := List.getElem?_eq_some_iff.1 hx
  obtain ⟨hj, -⟩ := List.getElem?_eq_some_iff.1 hy
  have hij : (Int32.ofNat j).toInt = (Int32.ofNat i).toInt :=
    congrArg Int32.toInt (by grind)
  rw [Int32.toInt_ofNat_of_lt (by omega), Int32.toInt_ofNat_of_lt (by omega)] at hij
  obtain rfl : j = i := by omega
  obtain rfl : x = y := Option.some.inj (hx.symm.trans hy)
  exact ha'

/-- A new server has an anamorphosis to choose. -/
theorem exists_choice (c : Int32) (b : Board) (random : ℕ) :
    ∃ a, ((setBoard c b).anamorphDictionary.getRandom .medium false random).2 = some a := by
  have hmedium : ∃ (i : ℕ) (x : Difficulty × Text),
      b.anamorphoses[i]? = some x ∧ x.1 = .medium := by
    cases b with
    | chicago => exact ⟨7, _, rfl, rfl⟩
    | first => exact ⟨4, _, rfl, rfl⟩
  obtain ⟨i, x, hx, hdifficulty⟩ := hmedium
  have hmem : ⟨c + Int32.ofNat i, x.1, x.2⟩ ∈
      (setBoard c b).anamorphDictionary.ofDifficulty .medium :=
    List.mem_filter.2 ⟨mem_all_setBoard.2 ⟨i, x, hx, rfl⟩, by simpa using hdifficulty⟩
  have hnone : ((setBoard c b).anamorphDictionary.reset .medium).alreadyValidated .medium = [] := by
    rw [AnamorphDictionary.reset]
    split_ifs
    · simp
    · rfl
  rw [← (AnamorphDictionary.SameBoard.reset _ .medium).ofDifficulty] at hmem
  refine Option.isSome_iff_exists.1 ((AnamorphDictionary.getRandom_isSome_iff _ _ _ _).2
    (List.ne_nil_of_mem (List.mem_filter.2 ⟨hmem, ?_⟩)))
  simp [hnone]

/-- The ids of two devices with the same board mean the same exactly if they have been
    numbered from the same count. -/
theorem sameIds_setBoard_iff : SameIds (setBoard c₁ b) (setBoard c₂ b) ↔ c₁ = c₂ := by
  constructor
  · intro h
    obtain ⟨a, ha⟩ := exists_choice c₁ b 0
    let s : Server := .new [] (setBoard c₁ b).anamorphDictionary
    have hchoice : ((Server.chooseMediumAnamorph (Server.sampleChoice 0)).exec s).result =
        .ok (Integer.toString a.id) := Server.chooseMediumAnamorph_ok_iff.2 ⟨a, ha, rfl⟩
    obtain ⟨a', id, a'', ha', hid, hget, hname⟩ := h s [] _ _ .rfl hchoice
    obtain rfl : a = a' := Option.some.inj (ha.symm.trans ha')
    obtain rfl : a.id = id := Option.some.inj ((Integer.parseInt_toString a.id).symm.trans hid)
    exact base_eq_of_getById (List.mem_of_mem_filter (Server.mem_of_getRandom ha)) hget hname
  · rintro rfl s es choice text hboard hchoice
    obtain ⟨a, ha, rfl⟩ := Server.chooseMediumAnamorph_ok_iff.1 hchoice
    have hmem := Server.mem_of_getRandom ha
    rw [((Server.sameBoard_after es).trans hboard).ofDifficulty] at hmem
    exact ⟨a, a.id, a, ha, Integer.parseInt_toString a.id,
      getById_eq_some (List.mem_of_mem_filter hmem), rfl⟩

/-- On two devices that end on the same board, the ids mean the same exactly if as many
    anamorphoses have been built on both before their last dictionaries, as `int`s. -/
theorem ids_agree_iff {items₁ items₂ : List Text}
    (hboard : (after items₁).board = (after items₂).board) :
    SameIds (after items₁) (after items₂) ↔
      Int32.ofNat (builtBefore items₁) = Int32.ofNat (builtBefore items₂) := by
  obtain ⟨b₁, -, h₁⟩ := after_eq items₁
  obtain ⟨b₂, -, h₂⟩ := after_eq items₂
  rw [h₁, h₂] at hboard ⊢
  obtain rfl : b₁ = b₂ := hboard
  exact sameIds_setBoard_iff

/-- Two devices have built the same dictionaries, in another order. -/
theorem same_count_agree :
    SameIds (after ["former".toList, "default".toList, "default".toList])
      (after ["default".toList, "former".toList, "default".toList]) :=
  (ids_agree_iff (by decide)).2 (by decide)

/-- One device has changed its board twice, and is back on the board of the other one. -/
theorem changed_device_disagrees : ¬∀ items₁ items₂,
    (after items₁).board = (after items₂).board → SameIds (after items₁) (after items₂) := by
  intro h
  have hsame := h [] ["former".toList, "default".toList] (by decide)
  have hdev : after [] = setBoard 0 .chicago := rfl
  have hdev' : after ["former".toList, "default".toList] = setBoard 32 .chicago := rfl
  rw [hdev, hdev', sameIds_setBoard_iff] at hsame
  exact absurd hsame (by decide)

end Device

end Gaze
