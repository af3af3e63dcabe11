import Gaze.Detection.Format
import Gaze.Pieces

/-!
# The command-line client of the detection server

`client.cpp` sends an image file to the detection server, and prints what the server answers.
The type of the image, which it announces to the server, is chosen from the extension of the
file: `explode` cuts the name of the file at its dots, and the last part is compared with the
extensions that are known.

* `explode_splits`: `explode` returns, and cuts its argument at the occurrences of the delimiter,
  or at the first one.
* `explode_eq_some_iff`: it returns exactly if its loop does; with an empty delimiter, the loop
  goes on forever (`explode_nil`).
* `main_eq`: a file whose extension is `jpeg` is rejected, and any other one that is not `png` is
  announced as a `jpg`.
* `announces_right_iff`: so the announcement is the right one exactly for the extensions `jpg`
  and `png`.
* `sent_jpg`, `png_refused`: what the client sends of a `jpg` is a request of the server, which
  refuses a `png`.
-/

namespace Gaze.DetectionClient

open Pieces

/-! ## The strings -/

/-- `std::string`. -/
abbrev Str := List UInt8

/-- The bytes of a text in ASCII. -/
def ascii (text : String) : Str := text.toList.map fun c => .ofNat c.toNat

/-- `::tolower`, in the locale `"C"`. -/
def tolower (c : UInt8) : UInt8 := if 65 ≤ c ∧ c ≤ 90 then c + 32 else c

/-- `toLower`. -/
def toLower (str : Str) : Str := str.map tolower

/-- `std::string::compare`. -/
def compare : Str → Str → ℤ
  | [], [] => 0
  | [], _ :: _ => -1
  | _ :: _, [] => 1
  | a :: s, b :: t => if a < b then -1 else if b < a then 1 else compare s t

theorem compare_eq_zero_iff {s t : Str} : compare s t = 0 ↔ s = t := by
  induction s generalizing t with
  | nil => cases t <;> simp [compare]
  | cons a s ih =>
    cases t with
    | nil => simp [compare]
    | cons b t =>
      rw [compare]
      split_ifs with hlt hgt
      · simpa using fun h : a = b => absurd hlt (h ▸ UInt8.lt_irrefl _)
      · simpa using fun h : a = b => absurd hgt (h ▸ UInt8.lt_irrefl _)
      · have heq : a = b := UInt8.le_antisymm (UInt8.not_lt.1 hgt) (UInt8.not_lt.1 hlt)
        rw [ih, heq, List.cons_inj_right]

/-! ## The parts of a string -/

/-- The loop of `explode`, as long as there is fuel: one unit each time its condition is
    tested. -/
def explodeLoop (delim : Str) (firstOnly : Bool) : ℕ → Str → List Str → Option (List Str)
  | 0, _, _ => none
  | fuel + 1, buff, v =>
    match find delim buff with
    | none => some (v ++ [buff])
    | some pos =>
      -- The occurrence ends inside `buff`, so `substr` does not raise an exception.
      let rest := buff.drop (pos + delim.length)
      if firstOnly then some (v ++ [buff.take pos] ++ [rest])
      else explodeLoop delim firstOnly fuel rest (v ++ [buff.take pos])

/-- `explode`. There is no result if it does not return. -/
def explode (s delim : Str) (firstOnly : Bool) : Option (List Str) :=
  explodeLoop delim firstOnly (s.length + 1) s []

section Explode

variable {delim s buff : Str} {firstOnly : Bool} {v parts : List Str} {fuel : ℕ}

/-- The loop cuts what is left at all the occurrences of the delimiter. -/
theorem explodeLoop_splits (hdelim : delim ≠ []) (buff : Str) :
    ∃ parts, parts ≠ [] ∧ IsSplit delim buff parts ∧
      ∀ fuel > buff.length, ∀ v, explodeLoop delim false fuel buff v = some (v ++ parts) := by
  induction hlength : buff.length using Nat.strong_induction_on generalizing buff with
  | h n ih =>
    cases hfind : find delim buff with
    | none =>
      refine ⟨[buff], List.cons_ne_nil _ _, .singleton (find_eq_none_iff.1 hfind), ?_⟩
      rintro (_ | fuel) hfuel v
      · exact absurd hfuel (Nat.not_lt_zero _)
      · rw [explodeLoop, hfind]
    | some pos =>
      -- What is left is shorter, by the length of the delimiter at least.
      have hbuff := append_of_find hfind
      have hpos : 0 < delim.length := List.length_pos_of_ne_nil hdelim
      have hshorter : (buff.drop (pos + delim.length)).length < n := by
        have := congrArg List.length hbuff
        simp only [List.length_append] at this
        omega
      obtain ⟨parts, hne, hparts, hloop⟩ := ih _ hshorter _ rfl
      have hsplit := hparts.cons hne (not_infix_take_of_find hdelim hfind)
      rw [hbuff] at hsplit
      refine ⟨buff.take pos :: parts, List.cons_ne_nil _ _, hsplit, ?_⟩
      rintro (_ | fuel) hfuel v
      · exact absurd hfuel (Nat.not_lt_zero _)
      · rw [explodeLoop, hfind]
        dsimp only
        rw [if_neg Bool.false_ne_true, hloop fuel (by omega), List.append_assoc,
          List.singleton_append]

/-- The loop stops after the first occurrence, if this is asked for. -/
theorem explodeLoop_firstOnly (hfuel : 0 < fuel) (buff : Str) (v : List Str) :
    explodeLoop delim true fuel buff v =
      match find delim buff with
      | none => some (v ++ [buff])
      | some pos => some (v ++ [buff.take pos, buff.drop (pos + delim.length)]) := by
  obtain ⟨fuel, rfl⟩ := Nat.exists_eq_succ_of_ne_zero hfuel.ne'
  rw [explodeLoop]
  cases find delim buff with
  | none => rfl
  | some pos => simp

/-- With an empty delimiter, nothing is ever removed from what is left. -/
theorem explodeLoop_nil (fuel : ℕ) (buff : Str) (v : List Str) :
    explodeLoop [] false fuel buff v = none := by
  induction fuel generalizing buff v with
  | zero => rfl
  | succ fuel ih =>
    have hfind : find [] buff = some 0 := find_eq_some_iff.2 ⟨Nat.zero_le _, List.nil_prefix, nofun⟩
    rw [explodeLoop, hfind]
    exact ih _ _

/-- Where the delimiter is not empty, the loop ends, and the parts that `explode` returns, joined
    with the delimiter, are the string. No part contains the delimiter; the first one does not,
    if only the first occurrence is looked for. -/
theorem explode_splits (s : Str) (hdelim : delim ≠ []) :
    (∃ parts, (∀ fuel > s.length, explodeLoop delim false fuel s [] = some parts) ∧
      explode s delim false = some parts ∧
      delim.intercalate parts = s ∧ ∀ part ∈ parts, ¬ delim <:+: part) ∧
    ∃ parts, (∀ fuel > s.length, explodeLoop delim true fuel s [] = some parts) ∧
      explode s delim true = some parts ∧
      delim.intercalate parts = s ∧ parts.length ≤ 2 ∧
      ∃ first, parts.head? = some first ∧ ¬ delim <:+: first := by
  constructor
  · obtain ⟨parts, -, hparts, hloop⟩ := explodeLoop_splits hdelim s
    exact ⟨parts, fun fuel hfuel => hloop fuel hfuel [], hloop _ (Nat.lt_succ_self _) [],
      hparts.join, hparts.free⟩
  · have hloop : ∀ fuel > s.length, explodeLoop delim true fuel s [] = _ := fun fuel hfuel =>
      explodeLoop_firstOnly (Nat.zero_lt_of_lt hfuel) s []
    cases hfind : find delim s with
    | none =>
      rw [hfind] at hloop
      have hsplit : IsSplit delim s [s] := .singleton (find_eq_none_iff.1 hfind)
      exact ⟨[s], hloop, hloop _ (Nat.lt_succ_self _), hsplit.join, by simp, s, rfl,
        find_eq_none_iff.1 hfind⟩
    | some pos =>
      rw [hfind] at hloop
      have hjoin : delim.intercalate [s.take pos, s.drop (pos + delim.length)] = s := by
        rw [List.intercalate_cons_cons, List.intercalate_singleton, List.append_assoc]
        exact append_of_find hfind
      exact ⟨_, hloop, hloop _ (Nat.lt_succ_self _), hjoin, by simp, s.take pos, rfl,
        not_infix_take_of_find hdelim hfind⟩

/-- A delimiter that overlaps itself. -/
theorem explode_splits_overlapping :
    (∃ parts, (∀ fuel > 3, explodeLoop (ascii "aa") false fuel (ascii "aaa") [] = some parts) ∧
      explode (ascii "aaa") (ascii "aa") false = some parts ∧
      (ascii "aa").intercalate parts = ascii "aaa" ∧ ∀ part ∈ parts, ¬ ascii "aa" <:+: part) ∧
    ∃ parts, (∀ fuel > 3, explodeLoop (ascii "aa") true fuel (ascii "aaa") [] = some parts) ∧
      explode (ascii "aaa") (ascii "aa") true = some parts ∧
      (ascii "aa").intercalate parts = ascii "aaa" ∧ parts.length ≤ 2 ∧
      ∃ first, parts.head? = some first ∧ ¬ ascii "aa" <:+: first :=
  explode_splits (ascii "aaa") (by decide)

/-- More fuel does not change what the loop returns. -/
theorem explodeLoop_mono {fuel' : ℕ} (hle : fuel ≤ fuel')
    (h : explodeLoop delim firstOnly fuel buff v = some parts) :
    explodeLoop delim firstOnly fuel' buff v = some parts := by
  induction fuel generalizing fuel' buff v with
  | zero => exact absurd h nofun
  | succ fuel ih =>
    obtain ⟨fuel', rfl⟩ := Nat.exists_eq_succ_of_ne_zero (Nat.ne_zero_of_lt hle)
    rw [explodeLoop] at h ⊢
    cases hfind : find delim buff with
    | none => rwa [hfind] at h
    | some pos =>
      rw [hfind] at h
      dsimp only at h ⊢
      split_ifs at h ⊢
      · exact h
      · exact ih (Nat.succ_le_succ_iff.1 hle) h

/-- `explode` returns exactly if its loop does, however long this takes. -/
theorem explode_eq_some_iff :
    explode s delim firstOnly = some parts ↔
      ∃ fuel, explodeLoop delim firstOnly fuel s [] = some parts := by
  constructor
  · exact fun h => ⟨_, h⟩
  · rintro ⟨fuel, h⟩
    have hmax := explodeLoop_mono (Nat.le_max_left fuel (s.length + 1)) h
    have hpos : 0 < s.length + 1 := Nat.succ_pos _
    cases firstOnly with
    | true =>
      rw [explode, explodeLoop_firstOnly hpos]
      rwa [explodeLoop_firstOnly (hpos.trans_le (Nat.le_max_right _ _))] at hmax
    | false =>
      by_cases hdelim : delim = []
      · rw [hdelim, explodeLoop_nil] at h
        cases h
      · obtain ⟨parts', -, -, hloop⟩ := explodeLoop_splits hdelim s
        rw [explode, hloop _ (Nat.lt_succ_self _), ← hmax,
          hloop _ ((Nat.lt_succ_self _).trans_le (Nat.le_max_right _ _))]

/-- With an empty delimiter, `explode` does not return. -/
theorem explode_nil (s : Str) : explode s [] false = none := explodeLoop_nil _ _ _

/-- The last part is what follows the last occurrence of a delimiter of one byte. -/
theorem explode_singleton (s : Str) (c : UInt8) : ∃ parts, explode s [c] false = some parts ∧
    parts.getLast? = some (s.rtakeWhile (· ≠ c)) := by
  obtain ⟨parts, hne, hparts, hloop⟩ := explodeLoop_splits (List.cons_ne_nil c []) s
  exact ⟨parts, hloop _ (Nat.lt_succ_self _) [],
    by rw [List.getLast?_eq_some_getLast hne, hparts.getLast_eq hne]⟩

end Explode

/-! ## The program -/

/-- What the client relies on. -/
structure Environment where
  /-- `sockIsValid`, of the socket that has been created. -/
  sockIsValid : Bool
  /-- What `connect` returns. -/
  connect : ℤ
  sockCheckError : ℤ → Bool
  /-- `read_file_contents`, which throws `errno`. -/
  readFileContents : Str → Except ℤ Str
  /-- The four bytes of `result`, after `recv`. -/
  result : Str

/-- What the client prints, and its calls of `send`. -/
inductive Output
  | printed (text : Str)
  | sent (bytes : Str)
  deriving DecidableEq

/-- How the program ends. -/
inductive Ending
  | returned (code : ℤ)
  /-- A `std::runtime_error` is thrown, and nobody catches it. -/
  | threw (what : String)
  deriving DecidableEq

/-- What the program has done when it is over. -/
structure Run where
  outputs : List Output
  ending : Ending
  deriving DecidableEq

/-- The type of an image whose file has this extension; it is empty if it is unknown. -/
def imageType (extension : Str) : Str :=
  let type :=
    if compare extension (ascii "jpg") = 0 ∨ compare extension (ascii "jpeg") ≠ 0 then ascii "jpg"
    else []
  if compare extension (ascii "png") = 0 then ascii "png" else type

/-- What is sent to the server. -/
def request (detectorName type fileContent : Str) : List Str :=
  [Socket.htonl (.ofNat detectorName.length), detectorName, type,
    Socket.htonl (.ofNat fileContent.length), fileContent]

/-- What is printed of the answer. -/
def answer (result : Int32) : Str :=
  if result = 1 then ascii "Something detected\n"
  else if result = 0 then ascii "Nothing detected\n"
  else ascii "Server returned an error\n"

namespace Environment

variable (env : Environment)

/-- The calls of `send`. What they return is ignored: after each of them, it is what `connect`
    has returned that is checked again. -/
def send : List Str → Run
  | [] => ⟨[.printed (answer (Socket.ntohl env.result))], .returned 0⟩
  | bytes :: rest =>
    if env.sockCheckError env.connect then ⟨[.sent bytes], .threw "Error connecting remote host."⟩
    else { send rest with outputs := .sent bytes :: (send rest).outputs }

/-- The second part of `main`, once the type of the image is known. -/
def detect (detectorName imageFileName type : Str) : Run :=
  if env.sockIsValid = false then ⟨[], .threw "Error creating socket."⟩
  else
    let connecting := .printed (ascii "Connecting remote host... ")
    if env.sockCheckError env.connect then ⟨[connecting], .threw "Error connecting remote host."⟩
    else
      match env.readFileContents imageFileName with
      | .error e =>
        ⟨[connecting, .printed (ascii "Error reading file : " ++ ascii (toString e ++ "\n"))],
          .returned 1⟩
      | .ok fileContent =>
        let run := env.send (request detectorName type fileContent)
        { run with outputs := connecting :: run.outputs }

/-- `main`. There is no run if it does not return; the name of the program is empty if the
    system gives no argument. -/
def main (argv : List Str) : Option Run :=
  match argv with
  | [_, detectorName, imageFileName] => do
    let parts ← explode (toLower imageFileName) (ascii ".") false
    let type := imageType (parts.getLast?.getD [])
    if type = [] then return ⟨[.printed (ascii "Unknown image type\n")], .returned 1⟩
    else return env.detect detectorName imageFileName type
  | _ => some ⟨[.printed (ascii "Usage : " ++ argv.headD [] ++
      ascii " detectorName imageFileName\n")], .returned 1⟩

end Environment

/-! ## The type of the image -/

/-- The part of a file name after its last dot, or all of it, in lower case. -/
def extension (fileName : Str) : Str := toLower (fileName.rtakeWhile (· ≠ 46))

theorem tolower_eq_dot_iff {c : UInt8} : tolower c = 46 ↔ c = 46 := by
  unfold tolower
  split_ifs with h
  · have hle : 65 ≤ c.toNat ∧ c.toNat ≤ 90 := h
    constructor
    · intro hdot
      have hnat : (c.toNat + 32) % 2 ^ 8 = 46 :=
        (UInt8.toNat_add c 32).symm.trans (congrArg UInt8.toNat hdot)
      omega
    · rintro rfl
      exact absurd h (by decide)
  · exact Iff.rfl

/-- Putting a name in lower case does not move its dots. -/
theorem rtakeWhile_toLower (fileName : Str) :
    (toLower fileName).rtakeWhile (· ≠ 46) = extension fileName := by
  have hdots : ((fun c : UInt8 => decide (c ≠ 46)) ∘ tolower) = fun c => decide (c ≠ 46) :=
    funext fun c => decide_eq_decide.2 (not_congr tolower_eq_dot_iff)
  rw [extension, List.rtakeWhile, List.rtakeWhile, toLower, toLower, ← List.map_reverse,
    List.takeWhile_map, hdots, List.map_reverse]

theorem imageType_eq (ext : Str) :
    imageType ext =
      if ext = ascii "png" then ascii "png"
      else if ext = ascii "jpeg" then []
      else ascii "jpg" := by
  have hne : ascii "jpg" ≠ ascii "jpeg" := by decide
  simp only [imageType, compare_eq_zero_iff, ne_eq]
  by_cases hpng : ext = ascii "png"
  · rw [if_pos hpng, if_pos hpng]
  · rw [if_neg hpng, if_neg hpng]
    by_cases hjpeg : ext = ascii "jpeg"
    · rw [if_pos hjpeg, if_neg (by rw [hjpeg]; simpa using hne.symm)]
    · rw [if_neg hjpeg, if_pos (.inr hjpeg)]

/-- The file is rejected: nothing is sent. -/
def rejected : Run := ⟨[.printed (ascii "Unknown image type\n")], .returned 1⟩

variable {env : Environment} {program detectorName fileName : Str}

/-- Only the extension `jpeg` is rejected, and all the others but `png` are taken for `jpg`. -/
theorem main_eq :
    env.main [program, detectorName, fileName] =
      some (if extension fileName = ascii "jpeg" then rejected
        else env.detect detectorName fileName
          (if extension fileName = ascii "png" then ascii "png" else ascii "jpg")) := by
  obtain ⟨parts, hparts, hlast⟩ := explode_singleton (toLower fileName) 46
  have hexplode : explode (toLower fileName) (ascii ".") false = some parts := hparts
  rw [Environment.main, hexplode, Option.bind_eq_bind, Option.bind_some, hlast,
    rtakeWhile_toLower, Option.getD_some, imageType_eq]
  dsimp only
  by_cases hjpeg : extension fileName = ascii "jpeg"
  · have hpng : extension fileName ≠ ascii "png" := by rw [hjpeg]; decide
    rw [if_neg hpng, if_pos hjpeg, if_pos rfl, if_pos hjpeg]
    rfl
  · rw [if_neg hjpeg, if_neg hjpeg, if_neg]
    · rfl
    · split_ifs <;> decide

/-! ## What is sent -/

/-- The calls of `send`. -/
def Run.sent (run : Run) : List Str :=
  run.outputs.filterMap fun
    | .printed _ => none
    | .sent bytes => some bytes

/-- The type that the server is told: what is sent after the name of the detector. -/
def Run.announced (run : Run) : Option Str := run.sent[2]?

/-- The connection is made, and the file can be read. -/
def Environment.Reaches (env : Environment) (imageFileName : Str) : Prop :=
  env.sockIsValid = true ∧ env.sockCheckError env.connect = false ∧
    ∃ fileContent, env.readFileContents imageFileName = .ok fileContent

theorem Environment.sent_send {messages : List Str} (h : env.sockCheckError env.connect = false) :
    (env.send messages).sent = messages := by
  induction messages with
  | nil => rfl
  | cons bytes rest ih =>
    rw [send, if_neg (Bool.eq_false_iff.1 h)]
    exact congrArg (bytes :: ·) ih

/-- Where the server is reached, the whole request is sent. -/
theorem Environment.sent_detect {fileContent type : Str} (hvalid : env.sockIsValid = true)
    (hconnect : env.sockCheckError env.connect = false)
    (hread : env.readFileContents fileName = .ok fileContent) :
    (env.detect detectorName fileName type).sent = request detectorName type fileContent := by
  rw [detect, if_neg (by rw [hvalid]; decide)]
  dsimp only
  rw [if_neg (Bool.eq_false_iff.1 hconnect), hread]
  exact sent_send hconnect

/-- Elsewhere, nothing is sent. -/
theorem Environment.sent_detect_of_not_reaches {type : Str} (h : ¬ env.Reaches fileName) :
    (env.detect detectorName fileName type).sent = [] := by
  rw [detect]
  by_cases hvalid : env.sockIsValid = false
  · rw [if_pos hvalid]
    rfl
  · rw [if_neg hvalid]
    dsimp only
    by_cases hconnect : env.sockCheckError env.connect = true
    · rw [if_pos hconnect]
      rfl
    · rw [if_neg hconnect]
      cases hread : env.readFileContents fileName with
      | error e => rfl
      | ok fileContent =>
        exact absurd ⟨eq_true_of_ne_false hvalid, Bool.eq_false_iff.2 hconnect,
          fileContent, hread⟩ h

/-- The type is announced where the server is reached. -/
theorem Environment.announced_detect {type type' : Str} :
    (env.detect detectorName fileName type).announced = some type' ↔
      env.Reaches fileName ∧ type = type' := by
  by_cases h : env.Reaches fileName
  · obtain ⟨hvalid, hconnect, fileContent, hread⟩ := h
    rw [Run.announced, sent_detect hvalid hconnect hread, request]
    simp [Reaches, hvalid, hconnect, hread]
  · rw [Run.announced, sent_detect_of_not_reaches h]
    simp [h]

/-- For this file name, the type that is announced is the right one, where `isType` says which
    types the file has: a `jpg` or a `jpeg` is announced as a `jpg`, a `png` as a `png`, wherever
    the server is reached, and anything else is rejected. -/
structure AnnouncesRight (fileName : Str) (isType : Str → Prop) : Prop where
  jpg : ∀ (env : Environment) (program detectorName : Str),
    (env.main [program, detectorName, fileName]).bind Run.announced = some (ascii "jpg") ↔
      env.Reaches fileName ∧ (isType (ascii "jpg") ∨ isType (ascii "jpeg"))
  png : ∀ (env : Environment) (program detectorName : Str),
    (env.main [program, detectorName, fileName]).bind Run.announced = some (ascii "png") ↔
      env.Reaches fileName ∧ isType (ascii "png")
  unknown : ¬ isType (ascii "jpg") → ¬ isType (ascii "jpeg") → ¬ isType (ascii "png") →
    ∀ (env : Environment) (program detectorName : Str),
      env.main [program, detectorName, fileName] = some rejected

theorem announced_rejected : rejected.announced = none := rfl

/-- The types that are announced. -/
theorem announced_main {type : Str} :
    (env.main [program, detectorName, fileName]).bind Run.announced = some type ↔
      env.Reaches fileName ∧ extension fileName ≠ ascii "jpeg" ∧
        (if extension fileName = ascii "png" then ascii "png" else ascii "jpg") = type := by
  rw [main_eq, Option.bind_some]
  by_cases hjpeg : extension fileName = ascii "jpeg"
  · rw [if_pos hjpeg, announced_rejected]
    simp [hjpeg]
  · rw [if_neg hjpeg, Environment.announced_detect]
    simp [hjpeg]

theorem announced_jpg_iff :
    (env.main [program, detectorName, fileName]).bind Run.announced = some (ascii "jpg") ↔
      env.Reaches fileName ∧ extension fileName ≠ ascii "jpeg" ∧
        extension fileName ≠ ascii "png" := by
  rw [announced_main]
  refine and_congr_right fun _ => and_congr_right fun _ => ?_
  split_ifs with h
  · exact iff_of_false (by decide) fun hne => hne h
  · exact iff_of_true rfl h

theorem announced_png_iff :
    (env.main [program, detectorName, fileName]).bind Run.announced = some (ascii "png") ↔
      env.Reaches fileName ∧ extension fileName = ascii "png" := by
  rw [announced_main]
  refine and_congr_right fun _ => ?_
  split_ifs with h
  · exact iff_of_true ⟨by rw [h]; decide, rfl⟩ h
  · exact iff_of_false (fun hfalse => absurd hfalse.2 (by decide)) h

/-- A server that is reached, whatever the file. -/
def reached : Environment where
  sockIsValid := true
  connect := 0
  sockCheckError := fun error => error < 0
  readFileContents := fun _ => .ok []
  result := [0, 0, 0, 1]

theorem reaches_reached (fileName : Str) : reached.Reaches fileName := ⟨rfl, rfl, [], rfl⟩

/-- What the types of a file must be for the announcement to be the right one. -/
theorem announcesRight_iff {isType : Str → Prop} :
    AnnouncesRight fileName isType ↔
      (extension fileName ≠ ascii "jpeg" ∧ extension fileName ≠ ascii "png" ↔
        isType (ascii "jpg") ∨ isType (ascii "jpeg")) ∧
      (extension fileName = ascii "png" ↔ isType (ascii "png")) ∧
      (¬ isType (ascii "jpg") → ¬ isType (ascii "jpeg") → ¬ isType (ascii "png") →
        extension fileName = ascii "jpeg") := by
  have hreached := reaches_reached fileName
  constructor
  · rintro ⟨hjpg, hpng, hunknown⟩
    refine ⟨?_, ?_, fun h₁ h₂ h₃ => ?_⟩
    · simpa only [announced_jpg_iff, hreached, true_and] using hjpg reached [] []
    · simpa only [announced_png_iff, hreached, true_and] using hpng reached [] []
    · -- A run that is not rejected announces something.
      by_contra hjpeg
      have hannounced : (reached.main [[], [], fileName]).bind Run.announced = some _ :=
        announced_main.2 ⟨hreached, hjpeg, rfl⟩
      rw [hunknown h₁ h₂ h₃ reached [] [], Option.bind_some, announced_rejected] at hannounced
      cases hannounced
  · rintro ⟨hjpg, hpng, hunknown⟩
    refine ⟨fun env program detectorName => ?_, fun env program detectorName => ?_,
      fun h₁ h₂ h₃ env program detectorName => ?_⟩
    · rw [announced_jpg_iff, hjpg]
    · rw [announced_png_iff, hpng]
    · rw [main_eq, if_pos (hunknown h₁ h₂ h₃)]

/-- The type that is announced is the right one exactly for the extensions `jpg` and `png`; if a
    file name without a dot has no extension, it is also for the name `jpeg`, which is
    rejected. -/
theorem announces_right_iff (fileName : Str) :
    (AnnouncesRight fileName (fun type => extension fileName = type) ↔
      extension fileName = ascii "jpg" ∨ extension fileName = ascii "png") ∧
    (AnnouncesRight fileName (fun type => 46 ∈ fileName ∧ extension fileName = type) ↔
      46 ∈ fileName ∧ (extension fileName = ascii "jpg" ∨ extension fileName = ascii "png") ∨
        46 ∉ fileName ∧ extension fileName = ascii "jpeg") := by
  have hjpgpng : ascii "jpg" ≠ ascii "png" := by decide
  have hjpgjpeg : ascii "jpg" ≠ ascii "jpeg" := by decide
  have hpngjpeg : ascii "png" ≠ ascii "jpeg" := by decide
  -- The extension is one of the three that are compared with, or none of them.
  constructor
  · rw [announcesRight_iff]
    grind
  · rw [announcesRight_iff]
    grind

/-- An image of another type is announced as a `jpg`. -/
theorem not_announces_right_bmp :
    ¬ ∀ fileName, AnnouncesRight fileName fun type => extension fileName = type := by
  intro h
  have hrejected := (h (ascii "image.bmp")).unknown (by decide) (by decide) (by decide) reached
    (ascii "client") (ascii "cube")
  exact absurd hrejected (by decide)

/-! ## What the server reads -/

/-- What is sent of a `jpg` are the bytes of a request. -/
theorem sent_jpg (detectorName fileContent : Str) :
    (request detectorName (ascii "jpg") fileContent).flatten =
      (DetectionTask.Request.jpg detectorName fileContent).bytes := by
  have hjpg : ascii "jpg" = DetectionTask.jpg := by decide
  simp [request, DetectionTask.Request.bytes, DetectionTask.sized, hjpg]

/-- A task of the server reads it, if its sizes are accepted. -/
theorem jpg_received {detectorName fileContent : Str} (hname : detectorName.length ≤ 20)
    (hcontent : fileContent.length ≤ 10485760) :
    DetectionTask.receiveRequest.parse (request detectorName (ascii "jpg") fileContent).flatten =
      some (.ok (.jpg detectorName fileContent), []) := by
  rw [sent_jpg]
  have haccepted : (DetectionTask.Request.jpg detectorName fileContent).Accepted :=
    ⟨hname, hcontent⟩
  rw [← List.append_nil (DetectionTask.Request.bytes _)]
  exact DetectionTask.parse_receiveRequest_bytes haccepted

/-- It refuses what is announced as a `png`, and does not read the image. -/
theorem png_refused {detectorName : Str} (hname : detectorName.length ≤ 20) (fileContent : Str) :
    ∃ e, DetectionTask.receiveRequest.parse
        (request detectorName (ascii "png") fileContent).flatten =
      some (.error (.thrown e), DetectionTask.sized fileContent) := by
  have hrefused : DetectionTask.Refused (DetectionTask.sized detectorName ++ ascii "png") :=
    .imageType hname (by decide) (by decide) (by decide)
  have hsent : (request detectorName (ascii "png") fileContent).flatten =
      (DetectionTask.sized detectorName ++ ascii "png") ++ DetectionTask.sized fileContent := by
    simp [request, DetectionTask.sized]
  rw [hsent]
  exact DetectionTask.parse_receiveRequest_refused hrefused _

end Gaze.DetectionClient
