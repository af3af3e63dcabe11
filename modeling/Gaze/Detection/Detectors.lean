import Gaze.Writes

/-!
# The tables of detectors

The phone (`wrapper.cpp`) and the detection server (`FHOGDetector`) each keep a map from names
to detectors, which `loadDetectors` extends with the files of a directory, one directory after
the other as the players change boards.

* `Wrapper.load_eq_some`: the phone opens a file under a path of at most 99 bytes, and keeps the
  detector that its map already has under the name of the file.
* `FHOGDetector.load_eq_some`: the server replaces it.
* `loadDetectors_latest_iff`: they have the same detectors exactly if the first file loaded
  under each name and the last one of that name have the same detector.
-/

namespace Gaze

open Writes

namespace Detectors

/-- The bytes of the name of a file, of a directory or of a detector, or of a path. -/
abbrev Name := List UInt8

/-- A `std::map` from names to detectors. -/
abbrev Table (δ : Type) := AList fun _ : Name => δ

/-- What comes of a file. -/
inductive Loading (δ : Type)
  | notOpened
  | noBuffer
  /-- It cannot be deserialized. -/
  | invalid
  | loaded (detector : δ)

/-- The directories and their files. -/
structure Files (δ : Type) where
  /-- The names of the files of a directory, if it can be opened. -/
  list : Name → Option (List Name)
  /-- The file under a path. -/
  load : Name → Loading δ

variable {δ : Type} (files : Files δ)

/-- The detector of a file, if it can be loaded. -/
def Loading.detector : Loading δ → Option δ
  | .loaded detector => some detector
  | _ => none

/-- The path of a file. -/
def path (directory fileName : Name) : Name := directory ++ 47 :: fileName

/-- The names of the files of a directory, with their detectors. -/
def Files.entries (directory : Name) : List (Name × δ) :=
  ((files.list directory).getD []).filterMap fun name =>
    (files.load (path directory name)).detector.map (name, ·)

end Detectors

open Detectors

variable {δ : Type} (files : Files δ)

namespace Wrapper

/-- What `strncpy` and `strncat` leave in `completeFileName`, of 100 bytes. There is no zero
    after a directory of 99 bytes or more: what follows is undefined. -/
def completeFileName (directory currentFileName : Name) : Option Name :=
  if directory.length < 99 then some ((path directory currentFileName).take 99) else none

/-- The loop of `loadDetectors`. -/
def loadFiles (directory : Name) : Table δ → List Name → Option (Table δ × ℤ)
  | detectors, [] => some (detectors, detectors.entries.length)
  | detectors, currentFileName :: fileNames =>
    match completeFileName directory currentFileName with
    | none => none
    | some completeFileName =>
      match files.load completeFileName with
      | .notOpened => some (detectors, -2)
      | .noBuffer => some (detectors, -3)
      | .invalid => some (detectors, -5)
      | .loaded d => loadFiles directory (insertNew detectors currentFileName d) fileNames

/-- `loadDetectors`: the table and the result, unless the behaviour is undefined. -/
def loadDetectors (detectors : Table δ) (directory : Name) : Option (Table δ × ℤ) :=
  match files.list directory with
  | none => some (detectors, -1)
  | some fileNames => loadFiles files directory detectors fileNames

/-- `checkForObjects`, with the number of shapes each detector detects in the image. -/
def checkForObjects (dets : δ → ℕ) (detectors : Table δ) (detectorName : Name) : ℤ :=
  match detectors.lookup detectorName with
  | none => -1
  | some detector => dets detector

/-- The table after a `loadDetectors` that succeeds. -/
def load (detectors : Table δ) (directory : Name) : Option (Table δ) :=
  match loadDetectors files detectors directory with
  | some (detectors', result) => if 0 ≤ result then some detectors' else none
  | none => none

/-- The names of the files of a directory, with the detectors of the files that are opened in
    their place. -/
def opened (directory : Name) : List (Name × δ) :=
  ((files.list directory).getD []).filterMap fun name =>
    (completeFileName directory name).bind fun fileName =>
      (files.load fileName).detector.map (name, ·)

end Wrapper

namespace FHOGDetector

/-- The loop of `FHOGDetector::loadDetectors`, and whether it ends without an exception. -/
def loadFiles (directory : Name) : Table δ → List Name → Table δ × Bool
  | detectors, [] => (detectors, true)
  | detectors, fileName :: fileNames =>
    match files.load (path directory fileName) with
    | .loaded detector => loadFiles directory (detectors.insert fileName detector) fileNames
    | _ => (detectors, false)

/-- `FHOGDetector::loadDetectors`; that there is no such directory is only reported. -/
def loadDetectors (detectors : Table δ) (directoryName : Name) : Table δ × Bool :=
  match files.list directoryName with
  | none => (detectors, true)
  | some fileNames => loadFiles files directoryName detectors fileNames

/-- The table after a `loadDetectors` without an exception. -/
def load (detectors : Table δ) (directoryName : Name) : Option (Table δ) :=
  match loadDetectors files detectors directoryName with
  | (detectors', true) => some detectors'
  | (_, false) => none

end FHOGDetector

variable {files} {directory : Name} {detectors detectors' : Table δ} {directories : List Name}

/-! ## One directory -/

namespace Wrapper

theorem loadFiles_eq_some {fileNames : List Name} {result : ℤ}
    (h : loadFiles files directory detectors fileNames = some (detectors', result))
    (hresult : 0 ≤ result) :
    detectors' = (fileNames.filterMap fun name =>
      (completeFileName directory name).bind fun fileName =>
        (files.load fileName).detector.map (name, ·)).foldl
      (fun m w => insertNew m w.1 w.2) detectors := by
  induction fileNames generalizing detectors with
  | nil =>
    obtain ⟨rfl, -⟩ := Prod.mk.inj (Option.some.inj h)
    rfl
  | cons name fileNames ih =>
    rw [loadFiles] at h
    cases hname : completeFileName directory name with
    | none => rw [hname] at h; cases h
    | some fileName =>
      rw [hname] at h
      dsimp only at h
      cases hload : files.load fileName with
      | loaded d =>
        rw [hload] at h
        rw [List.filterMap_cons, hname, Option.bind_some, hload]
        exact ih h
      | notOpened | noBuffer | invalid =>
        rw [hload] at h
        obtain ⟨-, rfl⟩ := Prod.mk.inj (Option.some.inj h)
        exact absurd hresult (by decide)

/-- The files that are opened in the place of those of the directory are loaded, except under
    the names that are already in the table. -/
theorem load_eq_some (h : load files detectors directory = some detectors') :
    detectors' = (opened files directory).foldl (fun m w => insertNew m w.1 w.2) detectors := by
  unfold load loadDetectors at h
  cases hlist : files.list directory with
  | none => rw [hlist] at h; cases h
  | some fileNames =>
    rw [hlist] at h
    dsimp only at h
    cases hfiles : loadFiles files directory detectors fileNames with
    | none => rw [hfiles] at h; cases h
    | some r =>
      rw [hfiles] at h
      dsimp only at h
      split_ifs at h with hresult
      obtain rfl := Option.some.inj h
      rw [opened, hlist]
      exact loadFiles_eq_some hfiles hresult

/-- A file whose path has at most 99 bytes is opened itself. -/
theorem completeFileName_of_le {name : Name} (h : (path directory name).length ≤ 99) :
    completeFileName directory name = some (path directory name) := by
  have hlength : (path directory name).length = directory.length + (name.length + 1) := by
    rw [path, List.length_append, List.length_cons]
  rw [completeFileName, if_pos (by omega), List.take_of_length_le h]

theorem opened_eq_entries
    (h : ∀ name ∈ (files.list directory).getD [], (path directory name).length ≤ 99) :
    opened files directory = files.entries directory := by
  refine List.filterMap_congr fun name hname => ?_
  rw [completeFileName_of_le (h name hname), Option.bind_some]

end Wrapper

namespace FHOGDetector

theorem loadFiles_eq_true {fileNames : List Name}
    (h : loadFiles files directory detectors fileNames = (detectors', true)) :
    detectors' = (fileNames.filterMap fun name =>
      (files.load (path directory name)).detector.map (name, ·)).foldl
      (fun m w => m.insert w.1 w.2) detectors := by
  induction fileNames generalizing detectors with
  | nil =>
    obtain ⟨rfl, -⟩ := Prod.mk.inj h
    rfl
  | cons name fileNames ih =>
    rw [loadFiles] at h
    cases hload : files.load (path directory name) with
    | loaded d =>
      rw [hload] at h
      rw [List.filterMap_cons, hload]
      exact ih h
    | notOpened | noBuffer | invalid =>
      rw [hload] at h
      cases h

/-- The files of the directory replace those under the same names. -/
theorem load_eq_some (h : load files detectors directory = some detectors') :
    detectors' = (files.entries directory).foldl (fun m w => m.insert w.1 w.2) detectors := by
  unfold load loadDetectors at h
  cases hlist : files.list directory with
  | none =>
    rw [hlist] at h
    obtain rfl := Option.some.inj h
    rw [Files.entries, hlist]
    rfl
  | some fileNames =>
    rw [hlist] at h
    dsimp only at h
    cases hfiles : loadFiles files directory detectors fileNames with
    | mk table succeeded =>
      rw [hfiles] at h
      cases succeeded with
      | false => cases h
      | true =>
        obtain rfl := Option.some.inj h
        rw [Files.entries, hlist]
        exact loadFiles_eq_true hfiles

end FHOGDetector

/-! ## A sequence of directories -/

/-- What loads one directory after the other loads their files one after the other. -/
theorem foldlM_eq_some {load : Table δ → Name → Option (Table δ)}
    {write : Table δ → Name × δ → Table δ} {entries : Name → List (Name × δ)}
    (hload : ∀ {detectors detectors' directory}, load detectors directory = some detectors' →
      detectors' = (entries directory).foldl write detectors)
    (h : directories.foldlM load detectors = some detectors') :
    detectors' = (directories.flatMap entries).foldl write detectors := by
  induction directories generalizing detectors with
  | nil => exact (Option.some.inj h).symm
  | cons directory directories ih =>
    rw [List.foldlM_cons] at h
    obtain ⟨table, htable, hrest⟩ := Option.bind_eq_some_iff.1 h
    rw [List.flatMap_cons, List.foldl_append, ← hload htable]
    exact ih hrest

/-- After the same directories, all of which load successfully, the phone has the detectors of
    the most recent ones, which are those of the server, exactly if the first file loaded under
    each name and the last one of that name have the same detector. -/
theorem loadDetectors_latest_iff {phone server : Table δ}
    (hphone : directories.foldlM (Wrapper.load files) ∅ = some phone)
    (hserver : directories.foldlM (FHOGDetector.load files) ∅ = some server) :
    (∀ name, phone.lookup name = latest name (directories.flatMap files.entries) ∧
      phone.lookup name = server.lookup name) ↔
    ∀ name, first name (directories.flatMap (Wrapper.opened files)) =
      latest name (directories.flatMap files.entries) := by
  have hlookup : ∀ name, phone.lookup name =
      first name (directories.flatMap (Wrapper.opened files)) := fun name => by
    rw [foldlM_eq_some Wrapper.load_eq_some hphone, lookup_foldl_insertNew, AList.lookup_empty,
      Option.none_or]
  have hlookup' : ∀ name, server.lookup name =
      latest name (directories.flatMap files.entries) := fun name => by
    rw [foldlM_eq_some FHOGDetector.load_eq_some hserver, lookup_foldl_insert, AList.lookup_empty,
      Option.or_none]
  refine forall_congr' fun name => ?_
  rw [hlookup, hlookup', and_self_iff]

/-- Two boards, `a` with the detectors `x` and `y`, and `b` with `x`, which is the same, and `z`. -/
def sharedBoards : Files ℕ where
  list directory :=
    if directory = [97] then some [[120], [121]]
    else if directory = [98] then some [[120], [122]]
    else none
  load fileName :=
    if fileName ∈ [[97, 47, 120], [98, 47, 120]] then .loaded 1
    else if fileName = [97, 47, 121] then .loaded 2
    else if fileName = [98, 47, 122] then .loaded 3
    else .notOpened

/-- The detectors of both boards. -/
def sharedTable : Table ℕ :=
  (((∅ : Table ℕ).insert [120] 1).insert [121] 2).insert [122] 3

/-- After both boards, and the first one again. -/
theorem loadDetectors_latest_iff_sharedBoards :
    [[97], [98], [97]].foldlM (Wrapper.load sharedBoards) ∅ = some sharedTable ∧
      ∃ server, [[97], [98], [97]].foldlM (FHOGDetector.load sharedBoards) ∅ = some server ∧
        ∀ name,
          sharedTable.lookup name = latest name ([[97], [98], [97]].flatMap sharedBoards.entries) ∧
            sharedTable.lookup name = server.lookup name := by
  refine ⟨rfl, _, rfl, (@loadDetectors_latest_iff ℕ sharedBoards [[97], [98], [97]] _ _ rfl rfl).2
    fun name => ?_⟩
  have hopened : [[97], [98], [97]].flatMap (Wrapper.opened sharedBoards) =
      [[97], [98], [97]].flatMap sharedBoards.entries := rfl
  rw [hopened]
  exact first_eq_latest (by decide)

/-- Two boards, `a` and `b`, that have different detectors of the name `x`. -/
def boards : Files ℕ where
  list directory := if directory ∈ [[97], [98]] then some [[120]] else none
  load fileName :=
    if fileName = [97, 47, 120] then .loaded 1
    else if fileName = [98, 47, 120] then .loaded 2
    else .notOpened

/-- After a change of boards, the phone still has the detector of the board it had before. -/
theorem not_loadDetectors_latest_boards :
    ¬ ∀ (files : Files ℕ) (directories : List Name) (phone server : Table ℕ),
      directories.foldlM (Wrapper.load files) ∅ = some phone →
      directories.foldlM (FHOGDetector.load files) ∅ = some server →
      ∀ name, phone.lookup name = latest name (directories.flatMap files.entries) ∧
        phone.lookup name = server.lookup name := by
  intro h
  have hx := (h boards [[97], [98]] _ _ rfl rfl [120]).1
  exact absurd hx (by decide)

end Gaze
