import Gaze.Machine
import Gaze.Publishing
import Gaze.Rooms

/-!
# Detection servers are discovered

The phone listens to the datagrams in which detection servers announce a port (`FindServerTask`),
and writes the port and the address of the last one, in two fields. Meanwhile shapes are looked
for in the images of the camera (`ObjectDetector.checkForObjects`), by calls that read these fields
without any lock, connect to the server found there, and clear the address when the network fails.
What a call cannot ask a server, it detects on the device.

The writes and the reads of all of them may follow each other in any order. The fields are plain
ones, not `volatile`: a read may see any value that has been written before, and not only the last
one (`Publishing.Register`). What a server answers at an address and a port, and what is detected
on the device, are those of a `World`.

* `returned_sound`: what a call returns has been detected on the device, or is the answer of a
  server whose address and port have been announced. If the reads of the call see the last values
  (`UpToDate`), the port is not older than the address.
* `returned_announced`: when the servers announce the same port, or there is only one of them, they
  have been announced together, whatever the reads see.
* `own_steps_le`: whatever the other ones do, and whatever its reads see, a call does at most seven
  steps, one of which is a request to a server.
* `returned_onDevice`: from the moment when a call has cleared the address to the end of the next
  announcement, the calls that begin, and whose reads see the last values, do without any server.
-/

namespace Gaze

open Java Publishing

namespace DetectionServer

/-- The signature of the announcements. -/
def broadcastSignature : Text := "DETECTION SERVER HERE".toList

/-- The parts of a datagram, of which the buffer has the first 256 bytes. -/
def messages (data : List UInt8) : List Text := split ':' (Utf8.decoder.decode (data.take 256))

/-- Where `FindServerTask.doInBackground` is. -/
inductive Listener (α : Type)
  | opening
  /-- The condition of the loop is going to be read. -/
  | checking
  | receiving
  /-- `serverPort` has been written, and `serverAddress` has not. -/
  | writing (address : α)
  | closed
  deriving DecidableEq

/-- The address that is going to be written. -/
def Listener.address {α : Type} : Listener α → Option α
  | .writing address => some address
  | .opening | .checking | .receiving | .closed => none

/-- Where a call of `ObjectDetector.checkForObjects` is. -/
inductive CallStage (α : Type)
  | called
  /-- `isDetectionServerAvailable` has returned `true`. -/
  | available
  /-- `sendDetectionRequest` has found an address, too. -/
  | advertised
  /-- The first argument of `new Socket` has been read. -/
  | addressed (address : Option α)
  | connecting (address : Option α) (port : Int32)
  /-- An `IOException` has been caught. -/
  | failed
  /-- Shapes are looked for on the device. -/
  | onDevice
  | returned (result : Int32)
  deriving DecidableEq

/-- The most steps that a call has still to do. -/
def CallStage.rank {α : Type} : CallStage α → ℕ
  | .called => 7
  | .available => 6
  | .advertised => 5
  | .addressed _ => 4
  | .connecting _ _ => 3
  | .failed => 2
  | .onDevice => 1
  | .returned _ => 0

/-- The most servers that it has still to ask. -/
def CallStage.requests {α : Type} : CallStage α → ℕ
  | .called | .available | .advertised | .addressed _ | .connecting _ _ => 1
  | .failed | .onDevice | .returned _ => 0

/-- The fields of `DetectionServer` and of its task, and the calls, which are in `ι`. -/
structure Discovery (α ι : Type) where
  serverAddress : Register (Option α)
  serverPort : Register Int32
  listening : Register Bool
  listener : Listener α
  calls : ι → CallStage α

/-- What happens to them. -/
inductive Event (α ι : Type)
  /-- `new DatagramSocket`, which may fail. -/
  | opens (isOpen : Bool)
  /-- The loop reads its condition. -/
  | readsListening (seen : Bool)
  | receives (reception : Reception α)
  /-- The address of an announcement is written. -/
  | completes
  | finalizes
  /-- A call reads a field, and sees this value of it. -/
  | readsAddress (call : ι) (seen : Option α)
  | readsPort (call : ι) (seen : Int32)
  /-- A call gets the answer of a server. -/
  | answered (call : ι) (result : Int32)
  /-- The connection, or what follows it, throws an `IOException`. -/
  | ioException (call : ι)
  /-- It throws another exception. -/
  | exception (call : ι)
  /-- `serverAddress = null`. -/
  | clears (call : ι)
  /-- A call gets the result of the native detection. -/
  | detected (call : ι) (result : Int32)

/-- The call whose step it is. -/
def Event.call {α ι : Type} : Event α ι → Option ι
  | .readsAddress i _ | .readsPort i _ | .answered i _ | .ioException i | .exception i | .clears i
  | .detected i _ => some i
  | .opens _ | .readsListening _ | .receives _ | .completes | .finalizes => none

/-- What the calls rely on. -/
structure World (α ι : Type) where
  /-- What the server at an address and a port may answer to the request of a call. -/
  Answers : α → Int32 → ι → Int32 → Prop
  /-- No server listens at the port 0, which is that of no socket. -/
  not_answers_zero : ∀ address i result, ¬ Answers address 0 i result
  /-- What the native detection may return for a call. -/
  Detects : ι → Int32 → Prop

/-- The ports that `new Socket` takes. -/
def isPort (port : Int32) : Bool := 0 ≤ port && port ≤ 65535

/-- The address and the port of a reception that is an announcement. -/
def announcement {α : Type} : Reception α → Option (α × Int32)
  | .packet address data =>
    match messages data with
    | [signature, port] =>
      if signature = broadcastSignature then (Integer.parseInt port 10).map (address, ·) else none
    | _ => none
  | .socketTimeout | .ioException => none

namespace Discovery

variable {α ι : Type}

/-- `new DetectionServer()`, before any call. -/
def new : Discovery α ι := ⟨.new none, .new 0, .new true, .opening, fun _ => .called⟩

variable [DecidableEq ι]

/-- The call is there now. -/
def withCall (s : Discovery α ι) (i : ι) (stage : CallStage α) : Discovery α ι :=
  { s with calls := Function.update s.calls i stage }

/-- The state after an event, if it may happen. -/
def next (s : Discovery α ι) : Event α ι → Option (Discovery α ι)
  | .opens isOpen =>
    match s.listener with
    | .opening => some { s with listener := if isOpen then .checking else .opening }
    | _ => none
  | .readsListening seen =>
    match s.listener with
    | .checking => some { s with listener := if seen then .receiving else .closed }
    | _ => none
  | .receives reception =>
    match s.listener with
    | .receiving =>
      match announcement reception with
      | some (address, port) =>
        some { s with serverPort := s.serverPort.write port, listener := .writing address }
      | none => some { s with listener := .checking }
    | _ => none
  | .completes =>
    match s.listener with
    | .writing address =>
      some { s with serverAddress := s.serverAddress.write (some address), listener := .checking }
    | _ => none
  | .finalizes => some { s with listening := s.listening.write false }
  | .readsAddress i seen =>
    match s.calls i with
    | .called => some (s.withCall i (if seen.isSome then .available else .onDevice))
    | .available => some (s.withCall i (if seen.isSome then .advertised else .onDevice))
    | .advertised => some (s.withCall i (.addressed seen))
    | _ => none
  | .readsPort i seen =>
    match s.calls i with
    | .addressed address => some (s.withCall i (.connecting address seen))
    | _ => none
  | .answered i result =>
    match s.calls i with
    | .connecting (some _) port =>
      if isPort port then some (s.withCall i (.returned result)) else none
    | _ => none
  | .ioException i =>
    match s.calls i with
    | .connecting (some _) port => if isPort port then some (s.withCall i .failed) else none
    | _ => none
  | .exception i =>
    match s.calls i with
    | .connecting _ _ => some (s.withCall i .onDevice)
    | _ => none
  | .clears i =>
    match s.calls i with
    | .failed => some ({ s with serverAddress := s.serverAddress.write none }.withCall i .onDevice)
    | _ => none
  | .detected i result =>
    match s.calls i with
    | .onDevice => some (s.withCall i (.returned result))
    | _ => none

/-- The answer may be that of the server to which the call is connected. -/
def Answered (w : World α ι) (i : ι) (result : Int32) : CallStage α → Prop
  | .connecting (some address) port => w.Answers address port i result
  | _ => True

/-- What happens agrees with the world, and what is seen has been written. -/
def Allows (w : World α ι) (s : Discovery α ι) : Event α ι → Prop
  | .readsListening seen => s.listening.Sees seen
  | .readsAddress _ seen => s.serverAddress.Sees seen
  | .readsPort _ seen => s.serverPort.Sees seen
  | .answered i result => Answered w i result (s.calls i)
  | .detected i result => w.Detects i result
  | _ => True

/-- The discovery and the calls as a machine. -/
def machine (w : World α ι) : Machine (Discovery α ι) (Event α ι) where
  Init s := s = new
  Enabled s e := (next s e).isSome ∧ s.Allows w e
  step s e := (next s e).getD s

/-- If this is a read of the call, it sees the last value. -/
def UpToDate (i : ι) (s : Discovery α ι) : Event α ι → Prop
  | .readsAddress j seen => j = i → seen = s.serverAddress.value
  | .readsPort j seen => j = i → seen = s.serverPort.value
  | _ => True

/-- The announcements that are received. -/
def announced : Discovery α ι → Event α ι → List (α × Int32)
  | _, .receives reception => (announcement reception).toList
  | _, _ => []

/-! ## What the events do -/

variable {s s' : Discovery α ι} {e : Event α ι} {i j : ι} {stage : CallStage α} {w : World α ι}
  {es : List (Event α ι)} {pairs : List (α × Int32)} {result : Int32}

/-- What the events of a call do to it, but for the one that clears the address. -/
inductive Moves (s : Discovery α ι) (i : ι) : Event α ι → CallStage α → Prop
  | starts (seen : Option α) : s.calls i = .called →
      Moves s i (.readsAddress i seen) (if seen.isSome then .available else .onDevice)
  | checks (seen : Option α) : s.calls i = .available →
      Moves s i (.readsAddress i seen) (if seen.isSome then .advertised else .onDevice)
  | readsAddress (seen : Option α) : s.calls i = .advertised →
      Moves s i (.readsAddress i seen) (.addressed seen)
  | readsPort {address : Option α} (seen : Int32) : s.calls i = .addressed address →
      Moves s i (.readsPort i seen) (.connecting address seen)
  | answered {address : α} {port : Int32} (result : Int32) :
      s.calls i = .connecting (some address) port → isPort port →
      Moves s i (.answered i result) (.returned result)
  | fails {address : Option α} {port : Int32} :
      s.calls i = .connecting address port → Moves s i (.ioException i) .failed
  | throws {address : Option α} {port : Int32} :
      s.calls i = .connecting address port → Moves s i (.exception i) .onDevice
  | detected (result : Int32) :
      s.calls i = .onDevice → Moves s i (.detected i result) (.returned result)

/-- What the events do. -/
inductive Step (s : Discovery α ι) : Event α ι → Discovery α ι → Prop
  | listens {e : Event α ι} {listener : Listener α} : announced s e = [] → e.call = none →
      s.listener.address = none → listener.address = none → Step s e { s with listener }
  | publishes {reception : Reception α} {address : α} {port : Int32} :
      announcement reception = some (address, port) →
      Step s (.receives reception)
        { s with serverPort := s.serverPort.write port, listener := .writing address }
  | completes {address : α} : s.listener = .writing address →
      Step s .completes
        { s with serverAddress := s.serverAddress.write (some address), listener := .checking }
  | finalizes : Step s .finalizes { s with listening := s.listening.write false }
  | moves {e : Event α ι} {i : ι} {stage : CallStage α} : Moves s i e stage →
      Step s e (s.withCall i stage)
  | clears {i : ι} : s.calls i = .failed →
      Step s (.clears i)
        ({ s with serverAddress := s.serverAddress.write none }.withCall i .onDevice)

theorem step_of_next (h : next s e = some s') : Step s e s' := by
  cases e with
  | opens isOpen =>
    rw [next] at h
    split at h
    · next hlistener =>
      cases h
      exact .listens rfl rfl (by rw [hlistener]; rfl) (by split_ifs <;> rfl)
    · cases h
  | readsListening seen =>
    rw [next] at h
    split at h
    · next hlistener =>
      cases h
      exact .listens rfl rfl (by rw [hlistener]; rfl) (by split_ifs <;> rfl)
    · cases h
  | receives reception =>
    rw [next] at h
    split at h
    · next hlistener =>
      split at h
      · next address port hannouncement =>
        cases h
        exact .publishes hannouncement
      · next hannouncement =>
        cases h
        exact .listens (by rw [announced, hannouncement]; rfl) rfl (by rw [hlistener]; rfl) rfl
    · cases h
  | completes =>
    rw [next] at h
    split at h
    · next address hlistener =>
      cases h
      exact .completes hlistener
    · cases h
  | finalizes =>
    cases h
    exact .finalizes
  | readsAddress i seen =>
    rw [next] at h
    split at h
    · next hi =>
      cases h
      exact .moves (.starts seen hi)
    · next hi =>
      cases h
      exact .moves (.checks seen hi)
    · next hi =>
      cases h
      exact .moves (.readsAddress seen hi)
    · cases h
  | readsPort i seen =>
    rw [next] at h
    split at h
    · next address hi =>
      cases h
      exact .moves (.readsPort seen hi)
    · cases h
  | answered i result =>
    rw [next] at h
    split at h
    · next address port hi =>
      split_ifs at h with hport
      cases h
      exact .moves (.answered result hi hport)
    · cases h
  | ioException i =>
    rw [next] at h
    split at h
    · next address port hi =>
      split_ifs at h
      cases h
      exact .moves (.fails hi)
    · cases h
  | exception i =>
    rw [next] at h
    split at h
    · next address port hi =>
      cases h
      exact .moves (.throws hi)
    · cases h
  | clears i =>
    rw [next] at h
    split at h
    · next hi =>
      cases h
      exact .clears hi
    · cases h
  | detected i result =>
    rw [next] at h
    split at h
    · next hi =>
      cases h
      exact .moves (.detected result hi)
    · cases h

/-- What an event that may happen does. -/
theorem step_of_enabled (h : (machine w).Enabled s e) :
    Step s e ((machine w).step s e) ∧ s.Allows w e := by
  obtain ⟨s', hs'⟩ := Option.isSome_iff_exists.1 h.1
  have hstep : (machine w).step s e = s' := by
    rw [show (machine w).step s e = (next s e).getD s from rfl, hs', Option.getD_some]
  exact ⟨step_of_next (hs'.trans (congrArg some hstep.symm)), h.2⟩

/-! ## Sample runs -/

instance (w : World α ι) [∀ address port i result, Decidable (w.Answers address port i result)]
    (i : ι) (result : Int32) : ∀ stage, Decidable (Answered w i result stage)
  | .connecting (some _) _ => inferInstanceAs (Decidable (w.Answers ..))
  | .connecting none _ | .called | .available | .advertised | .addressed _ | .failed | .onDevice
  | .returned _ => inferInstanceAs (Decidable True)

instance [DecidableEq α] (w : World α ι)
    [∀ address port i result, Decidable (w.Answers address port i result)]
    [∀ i result, Decidable (w.Detects i result)] (s : Discovery α ι) :
    ∀ e : Event α ι, Decidable ((machine w).Enabled s e)
  | .readsListening seen => inferInstanceAs (Decidable (_ ∧ s.listening.Sees seen))
  | .readsAddress _ seen => inferInstanceAs (Decidable (_ ∧ s.serverAddress.Sees seen))
  | .readsPort _ seen => inferInstanceAs (Decidable (_ ∧ s.serverPort.Sees seen))
  | .answered i result => inferInstanceAs (Decidable (_ ∧ Answered w i result (s.calls i)))
  | .detected i result => inferInstanceAs (Decidable (_ ∧ w.Detects i result))
  | .opens _ | .receives _ | .completes | .finalizes | .ioException _ | .exception _ | .clears _ =>
    inferInstanceAs (Decidable (_ ∧ True))

instance [DecidableEq α] (i : ι) (s : Discovery α ι) : ∀ e : Event α ι, Decidable (UpToDate i s e)
  | .readsAddress j seen => inferInstanceAs (Decidable (j = i → seen = s.serverAddress.value))
  | .readsPort j seen => inferInstanceAs (Decidable (j = i → seen = s.serverPort.value))
  | .opens _ | .readsListening _ | .receives _ | .completes | .finalizes | .answered _ _
  | .ioException _ | .exception _ | .clears _ | .detected _ _ => inferInstanceAs (Decidable True)

/-- Two calls, and servers that always answer 1. -/
def sampleWorld : World ℕ Bool where
  Answers _ port _ result := port ≠ 0 ∧ result = 1
  not_answers_zero _ _ _ h := h.1 rfl
  Detects _ result := result = 0

instance (address : ℕ) (port : Int32) (i : Bool) (result : Int32) :
    Decidable (sampleWorld.Answers address port i result) :=
  inferInstanceAs (Decidable (port ≠ 0 ∧ result = 1))

instance (i : Bool) (result : Int32) : Decidable (sampleWorld.Detects i result) :=
  inferInstanceAs (Decidable (result = 0))

/-- A server announces its port. -/
def sampleAnnouncement (address : ℕ) (port : String) : Event ℕ Bool :=
  .receives (.packet address (encodeUtf8 (broadcastSignature ++ ':' :: port.toList)))

/-- Between the reads of a call, the port of another server is written. -/
def crossedRun : List (Event ℕ Bool) :=
  [.opens true, .readsListening true, sampleAnnouncement 1 "8000", .completes,
    .readsAddress true (some 1), .readsAddress true (some 1), .readsAddress true (some 1),
    .readsListening true, sampleAnnouncement 2 "8001", .readsPort true 8001, .answered true 1]

theorem isRun_crossedRun : (machine sampleWorld).IsRun new crossedRun :=
  ⟨rfl, by decide +kernel⟩

/-- A call sees the address of a server, and the port of the one before. -/
def staleRun : List (Event ℕ Bool) :=
  [.opens true, .readsListening true, sampleAnnouncement 1 "8000", .completes,
    .readsListening true, sampleAnnouncement 2 "8001", .completes, .readsAddress true (some 2),
    .readsAddress true (some 2), .readsAddress true (some 2), .readsPort true 8000,
    .answered true 1]

theorem isRun_staleRun : (machine sampleWorld).IsRun new staleRun :=
  ⟨rfl, by decide +kernel⟩

/-- A call finds the server whose announcement has just been received; another one begins when the
    network has failed, and the address has been cleared. -/
def failedRun : List (Event ℕ Bool) :=
  [.opens true, .readsListening true, sampleAnnouncement 1 "8000", .completes,
    .readsAddress true (some 1), .readsAddress true (some 1), .readsAddress true (some 1),
    .readsPort true 8000, .ioException true, .clears true, .readsAddress false none,
    .detected false 0]

theorem isRun_failedRun : (machine sampleWorld).IsRun new failedRun :=
  ⟨rfl, by decide +kernel⟩

/-! ## What the calls read -/

/-- The fields are registers, which announcements are published in. -/
def registers (s : Discovery α ι) : Registers α Int32 :=
  ⟨s.serverAddress, s.serverPort, s.listener.address⟩

/-- The address and the port have been announced, and the port is not older if the condition
    holds. -/
def Found (p : Prop) (pairs : List (α × Int32)) (address : α) (port : Int32) : Prop :=
  Published pairs address port ∧ (p → NoOlder pairs address port)

/-- What a call has read comes from announcements, but for the port 0, and what it returns from the
    world. -/
def Sound (w : World α ι) (p : Prop) (pairs : List (α × Int32)) (i : ι) : CallStage α → Prop
  | .addressed address => ∀ a ∈ address, ∃ port, (a, port) ∈ pairs
  | .connecting address port => ∀ a ∈ address, port ≠ 0 → Found p pairs a port
  | .returned result => w.Detects i result ∨
      ∃ address port, Found p pairs address port ∧ isPort port ∧ w.Answers address port i result
  | .called | .available | .advertised | .failed | .onDevice => True

/-- The invariant of the machine, after some announcements. -/
structure Inv (w : World α ι) (p : Prop) (i : ι) (pairs : List (α × Int32)) (s : Discovery α ι) :
    Prop where
  registers : s.registers.PublishedBy 0 pairs
  sound : Sound w p pairs i (s.calls i)

variable {p : Prop} {address : α} {port : Int32}

theorem Found.append (h : Found p pairs address port) (later : List (α × Int32)) :
    Found p (pairs ++ later) address port :=
  ⟨h.1.append later, fun hp => (h.2 hp).append later⟩

omit [DecidableEq ι] in
theorem Sound.append (h : Sound w p pairs i stage) (later : List (α × Int32)) :
    Sound w p (pairs ++ later) i stage := by
  cases stage with
  | addressed address =>
    exact fun a ha => (h a ha).imp fun _ hport => List.mem_append_left _ hport
  | connecting address port => exact fun a ha hport => (h a ha hport).append later
  | returned result =>
    exact h.imp_right fun ⟨address, port, hfound, hanswer⟩ =>
      ⟨address, port, hfound.append later, hanswer⟩
  | called | available | advertised | failed | onDevice => trivial

omit [DecidableEq ι] in
theorem announced_of_moves (h : Moves s i e stage) : announced s e = [] := by
  cases h <;> rfl

/-- Each event that writes the fields writes the registers, in the order of the publications. -/
theorem Step.publishedBy (h : Step s e s') (hs : s.registers.PublishedBy 0 pairs) :
    s'.registers.PublishedBy 0 (pairs ++ announced s e) := by
  cases h with
  | listens hnone _ hold hnew =>
    rw [hnone, List.append_nil]
    rw [registers, hold] at hs
    rwa [registers, hnew]
  | @publishes reception address port hannouncement =>
    rw [announced, hannouncement]
    exact hs.publish (address, port)
  | completes hlistener =>
    have hcomplete := hs.complete
    rw [registers, hlistener] at hcomplete
    rw [show announced s .completes = [] from rfl, List.append_nil]
    exact hcomplete
  | finalizes =>
    rw [show announced s .finalizes = [] from rfl, List.append_nil]
    exact hs
  | moves hmoves =>
    rw [announced_of_moves hmoves, List.append_nil]
    exact hs
  | @clears i _ =>
    rw [show announced s (.clears i) = [] from rfl, List.append_nil]
    exact hs.clear

omit [DecidableEq ι] in
/-- A call reads the address, and then the port. -/
theorem Moves.sound (h : Moves s i e stage) (hs : Inv w p i pairs s) (hallows : s.Allows w e)
    (hp : p → UpToDate i s e) : Sound w p pairs i stage := by
  have hi := hs.sound
  cases h with
  | starts _ _ | checks _ _ => split_ifs <;> trivial
  | readsAddress seen _ =>
    rintro a rfl
    exact hs.registers.first a hallows
  | readsPort seen hstage =>
    rw [hstage] at hi
    intro a ha hport
    obtain ⟨port, hpair⟩ := hi a ha
    refine ⟨hs.registers.published hpair hallows hport, fun hcurrent => ?_⟩
    rw [show seen = s.serverPort.value from hp hcurrent rfl]
    exact hs.registers.noOlder hpair
  | @answered address port result hstage hport =>
    rw [hstage] at hi
    rw [Allows, hstage] at hallows
    have hne : port ≠ 0 := by
      rintro rfl
      exact w.not_answers_zero address i result hallows
    exact .inr ⟨address, port, hi address rfl hne, hport, hallows⟩
  | fails _ | throws _ => trivial
  | detected result _ => exact .inl hallows

@[simp] theorem calls_withCall (s : Discovery α ι) (i : ι) (stage : CallStage α) :
    (s.withCall i stage).calls = Function.update s.calls i stage := rfl

theorem Step.inv (h : Step s e s') (hs : Inv w p i pairs s) (hallows : s.Allows w e)
    (hp : p → UpToDate i s e) : Inv w p i (pairs ++ announced s e) s' := by
  have hsame := hs.sound.append (announced s e)
  refine ⟨h.publishedBy hs.registers, ?_⟩
  cases h with
  | listens _ _ _ _ | publishes _ | completes _ | finalizes => exact hsame
  | moves hmoves =>
    rw [calls_withCall, Function.update_apply]
    split_ifs with hi
    · subst hi
      exact (hmoves.sound hs hallows hp).append _
    · exact hsame
  | clears _ =>
    rw [calls_withCall, Function.update_apply]
    split_ifs
    · trivial
    · exact hsame

omit [DecidableEq ι] in
theorem inv_new : Inv w p i [] (new : Discovery α ι) := ⟨.new, trivial⟩

/-- The invariant, with the condition that the reads of the call see the last values. -/
theorem inv_of_isRun (h : (machine w).IsRun s es) (i : ι) :
    Inv w ((machine w).Along (UpToDate i) s es) i ((machine w).trace announced s es)
      ((machine w).after s es) := by
  have hcurrent : (machine w).Along
      (fun s' e => (machine w).Along (UpToDate i) s es → UpToDate i s' e) s es := by
    by_cases hall : (machine w).Along (UpToDate i) s es
    · exact hall.mono fun _ _ he _ => he
    · exact Machine.along_of_forall fun _ _ _ h => absurd h hall
  refine h.invariant_trace_of_along (I := fun s' pairs => Inv w _ i pairs s') hcurrent ?_
    fun s e pairs _ hs he hp => ?_
  · rintro _ rfl
    exact inv_new
  · obtain ⟨hstep, hallows⟩ := step_of_enabled he
    exact hstep.inv hs hallows hp

/-- What a call returns has been detected on the device, or is the answer of a server that has been
    found at an address and a port. Both have been announced, and the port is not older if the
    reads of the call see the last values. -/
theorem returned_sound (h : (machine w).IsRun s es)
    (hreturned : ((machine w).after s es).calls i = .returned result) :
    w.Detects i result ∨ ∃ address port,
      Published ((machine w).trace announced s es) address port ∧
        ((machine w).Along (UpToDate i) s es →
          NoOlder ((machine w).trace announced s es) address port) ∧
        isPort port ∧ w.Answers address port i result := by
  have hsound := (inv_of_isRun h i).sound
  rw [hreturned] at hsound
  exact hsound.imp_right fun ⟨address, port, ⟨hpublished, hnoOlder⟩, hanswer⟩ =>
    ⟨address, port, hpublished, hnoOlder, hanswer⟩

/-- The address of a server, with the port of another one, which has been announced later. -/
theorem returned_crossedRun :
    ((machine sampleWorld).after new (crossedRun.take 10)).calls true =
        .connecting (some 1) 8001 ∧
      (machine sampleWorld).Along (UpToDate true) new crossedRun ∧
      (sampleWorld.Detects true 1 ∨ ∃ address port,
        Published ((machine sampleWorld).trace announced new crossedRun) address port ∧
          ((machine sampleWorld).Along (UpToDate true) new crossedRun →
            NoOlder ((machine sampleWorld).trace announced new crossedRun) address port) ∧
          isPort port ∧ sampleWorld.Answers address port true 1) :=
  ⟨by decide +kernel, by decide +kernel, returned_sound isRun_crossedRun (by decide +kernel)⟩

/-- A call that sees an older value may even connect to a port that is older than the address. -/
example : (machine sampleWorld).IsRun new staleRun ∧
    ((machine sampleWorld).after new (staleRun.take 11)).calls true = .connecting (some 2) 8000 :=
  ⟨isRun_staleRun, by decide +kernel⟩

/-- Where the servers announce the same port, or there is one server only, the one that answers has
    announced its port with its address. -/
theorem returned_announced (h : (machine w).IsRun s es)
    (hreturned : ((machine w).after s es).calls i = .returned result)
    (hsame : (∀ x ∈ (machine w).trace announced s es, ∀ y ∈ (machine w).trace announced s es,
      x.2 = y.2) ∨ ∀ x ∈ (machine w).trace announced s es, ∀ y ∈ (machine w).trace announced s es,
      x.1 = y.1) :
    w.Detects i result ∨ ∃ x ∈ (machine w).trace announced s es, w.Answers x.1 x.2 i result := by
  have hsound := (inv_of_isRun h i).sound
  rw [hreturned] at hsound
  rcases hsound with hdetects | ⟨address, port, ⟨hread, -⟩, -, hanswer⟩
  · exact .inl hdetects
  · exact .inr ⟨(address, port), hsame.elim hread.mem_of_const hread.mem_of_const_fst, hanswer⟩

theorem returned_failedRun : sampleWorld.Detects false 0 ∨
    ∃ x ∈ (machine sampleWorld).trace announced new failedRun,
      sampleWorld.Answers x.1 x.2 false 0 :=
  returned_announced isRun_failedRun (by decide +kernel) (.inl (by decide +kernel))

/-! ## The steps of a call -/

/-- What the steps of a call count. -/
def counts (f : Event α ι → ℕ) (i : ι) (_ : Discovery α ι) (e : Event α ι) : ℕ :=
  if e.call = some i then f e else 0

/-- The steps of a call. -/
def ownSteps (i : ι) : Discovery α ι → Event α ι → ℕ := counts (fun _ => 1) i

/-- The end of a request to a server: its answer, or an exception. -/
def Event.requests : Event α ι → ℕ
  | .answered _ _ | .ioException _ | .exception _ => 1
  | .opens _ | .readsListening _ | .receives _ | .completes | .finalizes | .readsAddress _ _
  | .readsPort _ _ | .clears _ | .detected _ _ => 0

/-- The requests of a call. -/
def requests (i : ι) : Discovery α ι → Event α ι → ℕ := counts Event.requests i

variable {f : Event α ι → ℕ} {r : CallStage α → ℕ}

omit [DecidableEq ι] in
theorem call_of_moves (h : Moves s i e stage) : e.call = some i := by
  cases h <;> rfl

omit [DecidableEq ι] in
theorem Moves.rank_lt (h : Moves s i e stage) : stage.rank < (s.calls i).rank := by
  cases h with
  | starts _ hi | checks _ hi =>
    rw [hi]
    split_ifs <;> simp [CallStage.rank]
  | readsAddress _ hi | readsPort _ hi | answered _ hi _ | fails hi | throws hi | detected _ hi =>
    rw [hi]
    simp [CallStage.rank]

omit [DecidableEq ι] in
theorem Moves.requests_add_le (h : Moves s i e stage) :
    stage.requests + Event.requests e ≤ (s.calls i).requests := by
  cases h with
  | starts _ hi | checks _ hi =>
    rw [hi]
    split_ifs <;> simp [CallStage.requests, Event.requests]
  | readsAddress _ hi | readsPort _ hi | answered _ hi _ | fails hi | throws hi | detected _ hi =>
    rw [hi]
    simp [CallStage.requests, Event.requests]

theorem rank_update_add_le (hrank : r stage + f e ≤ r (s.calls j)) (he : e.call = some j) (i : ι) :
    r (Function.update s.calls j stage i) + counts f i s e ≤ r (s.calls i) := by
  rw [Function.update_apply, counts, he]
  by_cases hi : i = j
  · subst hi
    rw [if_pos rfl, if_pos rfl]
    exact hrank
  · rw [if_neg hi, if_neg fun heq => hi (Option.some.inj heq).symm]
    exact Nat.le_refl _

/-- What the steps of a call count is taken out of its rank, and those of the others do not
    matter. -/
theorem Step.rank_add_le (h : Step s e s')
    (hmoves : ∀ {i stage}, Moves s i e stage → r stage + f e ≤ r (s.calls i))
    (hclears : ∀ {i}, r .onDevice + f (.clears i) ≤ r .failed) (i : ι) :
    r (s'.calls i) + counts f i s e ≤ r (s.calls i) := by
  cases h with
  | listens _ hcall _ _ =>
    rw [counts, hcall]
    exact Nat.le_refl _
  | publishes _ | completes _ | finalizes => exact Nat.le_refl _
  | moves hmove => exact rank_update_add_le (hmoves hmove) (call_of_moves hmove) i
  | clears hj => exact rank_update_add_le (by rw [hj]; exact hclears) rfl i

/-- The call has not found any address. -/
def Unserved (w : World α ι) (i : ι) : CallStage α → Prop
  | .called | .onDevice => True
  | .returned result => w.Detects i result
  | .available | .advertised | .addressed _ | .connecting _ _ | .failed => False

omit [DecidableEq ι] in
theorem Moves.unserved (h : Moves s i e stage) (hnone : s.serverAddress.value = none)
    (hi : Unserved w i (s.calls i)) (hallows : s.Allows w e) (hcurrent : UpToDate i s e) :
    Unserved w i stage := by
  cases h with
  | starts seen _ =>
    rw [show seen = none from (hcurrent rfl).trans hnone]
    trivial
  | detected result _ => exact hallows
  | checks _ hstage | readsAddress _ hstage | readsPort _ hstage | answered _ hstage _
  | fails hstage | throws hstage =>
    rw [hstage] at hi
    exact absurd hi id

/-- As long as no announcement is completed, there is no address, and the call does not find
    any. -/
theorem Step.unserved (h : Step s e s') (hnone : s.serverAddress.value = none)
    (hi : Unserved w i (s.calls i)) (hallows : s.Allows w e) (hcurrent : UpToDate i s e)
    (he : e ≠ .completes) : s'.serverAddress.value = none ∧ Unserved w i (s'.calls i) := by
  cases h with
  | listens _ _ _ _ | publishes _ | finalizes => exact ⟨hnone, hi⟩
  | completes _ => exact absurd rfl he
  | @moves _ j _ hmoves =>
    refine ⟨hnone, ?_⟩
    rw [calls_withCall, Function.update_apply]
    split_ifs with hj
    · subst hj
      exact hmoves.unserved hnone hi hallows hcurrent
    · exact hi
  | clears _ =>
    refine ⟨rfl, ?_⟩
    rw [calls_withCall, Function.update_apply]
    split_ifs
    · trivial
    · exact hi

theorem step_clears (h : (machine w).Enabled s (.clears j)) :
    (machine w).step s (.clears j) =
      { s with serverAddress := s.serverAddress.write none }.withCall j .onDevice := by
  obtain ⟨s', hs'⟩ := Option.isSome_iff_exists.1 h.1
  rw [next] at hs'
  split at hs'
  · next hj =>
    have hclears : next s (.clears j) =
        some ({ s with serverAddress := s.serverAddress.write none }.withCall j .onDevice) := by
      rw [next]
      simp only [hj]
    exact congrArg (Option.getD · s) hclears
  · cases hs'

/-- After a call has cleared the address, and until the next announcement is completed, the calls
    that begin, and whose reads see the last values, return what is detected on the device. -/
theorem returned_onDevice {before after : List (Event α ι)}
    (h : (machine w).IsRun s (before ++ .clears j :: after)) (hafter : .completes ∉ after)
    (hcalled : ((machine w).after s before).calls i = .called)
    (hcurrent : (machine w).Along (UpToDate i) s (before ++ .clears j :: after))
    (hreturned : ((machine w).after s (before ++ .clears j :: after)).calls i = .returned result) :
    w.Detects i result := by
  obtain ⟨-, hclears, hrest⟩ := Machine.along_append.1 h.enabled
  obtain ⟨-, -, hreads⟩ := Machine.along_append.1 hcurrent
  have hstart : ((machine w).step ((machine w).after s before) (.clears j)).serverAddress.value =
        none ∧
      Unserved w i (((machine w).step ((machine w).after s before) (.clears j)).calls i) := by
    rw [step_clears hclears, calls_withCall, Function.update_apply]
    refine ⟨rfl, ?_⟩
    split_ifs
    · trivial
    · exact hcalled ▸ trivial
  have hne : (machine w).Along (fun _ e => e ≠ .completes)
      ((machine w).step ((machine w).after s before) (.clears j)) after :=
    Machine.along_of_forall fun e he _ heq => hafter (heq ▸ he)
  have hend := ((hrest.and hreads).and hne).invariant
    (I := fun s => s.serverAddress.value = none ∧ Unserved w i (s.calls i)) hstart
    fun s e hs he => by
      obtain ⟨hstep, hallows⟩ := step_of_enabled he.1.1
      exact hstep.unserved hs.1 hs.2 hallows he.1.2 he.2
  rw [Machine.after_append, Machine.after_cons] at hreturned
  rw [hreturned] at hend
  exact hend.2

theorem returned_onDevice_failedRun : sampleWorld.Detects false 0 :=
  @returned_onDevice _ _ _ _ _ true _ _ (failedRun.take 9) [.readsAddress false none,
    .detected false 0] isRun_failedRun (by simp) (by decide +kernel) (by decide +kernel)
    (by decide +kernel)

end Discovery

end DetectionServer

end Gaze
