import Gaze.Java.Url
import Gaze.Writes

/-!
# The rooms

A host announces its room in datagrams (`RoomNotifier`): a message that all of them have in
common, a colon, the name of the room, which is encoded, and a line break. A player who looks
for a room receives datagrams from anywhere (`RoomFinder`), in a buffer of 1000 bytes, and keeps
a room for each address that has announced one.

* `announced_packet`: the name of an announced room is read with the line break.
* `receive_cases`: what one datagram does. One whose name cannot be decoded ends the loop.
* `receive_announcement`: no room is recorded under its own name.
* `keepsUp_iff`: the loop goes on, and has the latest room of each address, exactly if no
  datagram announces a name that cannot be decoded.
-/

namespace Gaze

open Java Writes

/-- `Common.BROADCAST_MESSAGE`. -/
def broadcastMessage : Text := "ANAMORPH GAME HERE".toList

/-- `Room`, at an address. -/
structure Room (α : Type) where
  address : α
  name : Text
  deriving DecidableEq

namespace RoomNotifier

/-- The text that `updateBroadcast` makes. -/
def broadcast (roomName : Text) : Text :=
  broadcastMessage ++ ':' :: (URLEncoder.encode roomName ++ ['\n'])

/-- The datagram that `RoomNotifier.run` sends, of as many bytes as the text has characters. -/
def packet (roomName : Text) : List UInt8 :=
  (encodeUtf8 (broadcast roomName)).take (broadcast roomName).length

end RoomNotifier

/-- What a call of `DatagramSocket.receive` comes to. -/
inductive Reception (α : Type)
  | packet (address : α) (data : List UInt8)
  | socketTimeout
  | ioException
  deriving DecidableEq

/-- Why `RoomFinder.run` is over. -/
inductive Ending
  | stopped
  | ioException
  | illegalArgument
  deriving DecidableEq

/-- `RoomFinder`, and whether `run` is over. -/
structure RoomFinder (α : Type) where
  listening : Bool
  rooms : AList fun _ : α => Room α
  ended : Option Ending

namespace RoomFinder

variable {α : Type}

/-- `startListening`, with no room yet. -/
def started : RoomFinder α := ⟨true, ∅, none⟩

/-- `stopListening`, which waits for the end of `run`. -/
def stopListening (s : RoomFinder α) : RoomFinder α := { s with listening := false }

/-- The loop goes on. -/
structure Running (s : RoomFinder α) : Prop where
  listening : s.listening
  ended : s.ended = none

theorem started_running : (started : RoomFinder α).Running := ⟨rfl, rfl⟩

variable [DecidableEq α]

/-- The parts of a datagram, of which the buffer has the first 1000 bytes: `receive` does not
    mind the length of the datagram before. -/
def messages (data : List UInt8) : List Text := split ':' (Utf8.decoder.decode (data.take 1000))

/-- A round of the loop of `run`. -/
def round (s : RoomFinder α) : Reception α → RoomFinder α
  | .packet address data =>
    match messages data with
    | [first, second] =>
      if first = broadcastMessage then
        match URLDecoder.decode second with
        | some name => { s with rooms := s.rooms.insert address ⟨address, name⟩ }
        | none => { s with ended := some .illegalArgument }
      else s
    | _ => s
  | .socketTimeout => s
  | .ioException => { s with ended := some .ioException }

/-- A round of the loop, if it is not over, and the condition of the loop. -/
def receive (s : RoomFinder α) (r : Reception α) : RoomFinder α :=
  if s.ended.isSome then s
  else if (s.round r).ended.isNone ∧ ¬ (s.round r).listening then
    { s.round r with ended := some .stopped }
  else s.round r

/-- The finder after some receptions. -/
def after (s : RoomFinder α) (rs : List (Reception α)) : RoomFinder α := rs.foldl receive s

/-- The name that a datagram announces, if it is an announcement and the name can be decoded. -/
def announced (data : List UInt8) : Option Text :=
  match messages data with
  | [first, second] => if first = broadcastMessage then URLDecoder.decode second else none
  | _ => none

/-- The room that a reception announces. -/
def announcement : Reception α → Option (α × Room α)
  | .packet address data => (announced data).map fun name => (address, ⟨address, name⟩)
  | _ => none

/-- A reception is an announcement of a name that cannot be decoded. -/
def Malformed (r : Reception α) : Prop :=
  ∃ address data second, r = .packet address data ∧
    messages data = [broadcastMessage, second] ∧ URLDecoder.decode second = none

instance : DecidablePred (Malformed : Reception α → Prop)
  | .packet address data =>
    match hmessages : messages data with
    | [first, second] =>
      decidable_of_iff (first = broadcastMessage ∧ URLDecoder.decode second = none) (by
        simp [Malformed, hmessages])
    | [] | [_] | _ :: _ :: _ :: _ => .isFalse (by simp [Malformed, hmessages])
  | .socketTimeout | .ioException => .isFalse (by simp [Malformed])

variable {s : RoomFinder α} {r : Reception α} {rs : List (Reception α)} {data : List UInt8}
  {address : α} {name : Text}

/-! ## One datagram -/

theorem announced_eq_some (h : announced data = some name) :
    ∃ second, messages data = [broadcastMessage, second] ∧
      URLDecoder.decode second = some name := by
  unfold announced at h
  split at h
  · next first second hmessages =>
    split_ifs at h with hfirst
    exact ⟨second, hfirst ▸ hmessages, h⟩
  · cases h

theorem round_of_announced (h : announced data = some name) :
    s.round (.packet address data) =
      { s with rooms := s.rooms.insert address ⟨address, name⟩ } := by
  obtain ⟨second, hmessages, hdecode⟩ := announced_eq_some h
  unfold round
  simp only [hmessages, hdecode, if_true]

theorem round_of_malformed (h : Malformed r) :
    (s.round r).ended = some .illegalArgument ∧ announcement r = none := by
  obtain ⟨address, data, second, rfl, hmessages, hdecode⟩ := h
  unfold round announcement announced
  simp only [hmessages, hdecode, if_true, Option.map_none, and_self]

theorem round_of_not_announced (hmalformed : ¬ Malformed r) (hio : r ≠ .ioException)
    (h : announcement r = none) : s.round r = s := by
  cases r with
  | packet address data =>
    have hnone : announced data = none := Option.map_eq_none_iff.1 h
    unfold announced at hnone
    unfold round
    dsimp only
    split
    · next first second hmessages =>
      rw [hmessages] at hnone
      dsimp only at hnone
      split_ifs with hfirst
      · rw [if_pos hfirst] at hnone
        exact absurd ⟨address, data, second, rfl, hfirst ▸ hmessages, hnone⟩ hmalformed
      · rfl
    · rfl
  | socketTimeout => rfl
  | ioException => exact absurd rfl hio

/-- What a reception does to a loop that goes on. -/
theorem receive_cases (hs : s.Running) (hio : r ≠ .ioException) :
    (∃ address room, announcement r = some (address, room) ∧ ¬ Malformed r ∧
      s.receive r = { s with rooms := s.rooms.insert address room }) ∨
    (Malformed r ∧ (s.receive r).ended = some .illegalArgument) ∨
    (announcement r = none ∧ ¬ Malformed r ∧ s.receive r = s) := by
  obtain ⟨hlistening, hended⟩ := hs
  have hreceive : s.receive r = if (s.round r).ended.isNone ∧ ¬ (s.round r).listening then
      { s.round r with ended := some .stopped } else s.round r := by
    rw [receive, hended]
    rfl
  rw [hreceive]
  by_cases hmalformed : Malformed r
  · refine .inr (.inl ⟨hmalformed, ?_⟩)
    have hround := (round_of_malformed (s := s) hmalformed).1
    rw [if_neg, hround]
    simp [hround]
  · cases hannouncement : announcement r with
    | none =>
      refine .inr (.inr ⟨rfl, hmalformed, ?_⟩)
      rw [round_of_not_announced hmalformed hio hannouncement, if_neg]
      exact fun hstop => hstop.2 hlistening
    | some w =>
      cases r with
      | packet address data =>
        obtain ⟨name, hname, rfl⟩ := Option.map_eq_some_iff.1 hannouncement
        refine .inl ⟨address, ⟨address, name⟩, rfl, hmalformed, ?_⟩
        rw [round_of_announced hname, if_neg]
        exact fun hstop => hstop.2 hlistening
      | socketTimeout | ioException => cases hannouncement

/-- After `stopListening`, one more reception ends the loop. -/
theorem receive_stopListening (hs : s.Running) (hio : r ≠ .ioException) (hwell : ¬ Malformed r) :
    (s.stopListening.receive r).ended = some .stopped := by
  have hround : (s.stopListening.round r).ended = none ∧
      (s.stopListening.round r).listening = false := by
    cases hannouncement : announcement r with
    | none =>
      rw [round_of_not_announced hwell hio hannouncement]
      exact ⟨hs.ended, rfl⟩
    | some w =>
      cases r with
      | packet address data =>
        obtain ⟨name, hname, -⟩ := Option.map_eq_some_iff.1 hannouncement
        rw [round_of_announced hname]
        exact ⟨hs.ended, rfl⟩
      | socketTimeout | ioException => cases hannouncement
  rw [receive, if_neg, if_pos]
  · rw [hround.1, hround.2]
    exact ⟨rfl, nofun⟩
  · rw [show s.stopListening.ended = none from hs.ended]
    exact nofun

/-! ## Announcements -/

theorem utf8Size_of_isUrlChar {c : Char} (h : isUrlChar c) : c.utf8Size = 1 := by
  rw [Char.utf8Size_eq_one_iff, UInt32.le_iff_toNat_le]
  delta isUrlChar isUnreserved Char.isAlphanum Char.isAlpha Char.isUpper Char.isLower
    Char.isDigit at h
  simp only [Bool.or_eq_true, Bool.and_eq_true, decide_eq_true_eq, beq_iff_eq, ge_iff_le,
    UInt32.le_iff_toNat_le] at h
  rcases h with (((((((⟨-, h⟩ | ⟨-, h⟩) | ⟨-, h⟩) | rfl) | rfl) | rfl) | rfl) | rfl) | rfl
  · exact h.trans (by decide)
  · exact h.trans (by decide)
  · exact h.trans (by decide)
  all_goals decide

theorem length_encodeUtf8 {s : Text} (h : ∀ c ∈ s, c.utf8Size = 1) :
    (encodeUtf8 s).length = s.length := by
  induction s with
  | nil => rfl
  | cons c s ih =>
    have hcons : encodeUtf8 (c :: s) = String.utf8EncodeChar c ++ encodeUtf8 s := rfl
    rw [hcons, List.length_append, String.length_utf8EncodeChar, h c List.mem_cons_self,
      ih fun d hd => h d (List.mem_cons_of_mem _ hd), List.length_cons, Nat.add_comm]

/-- All the characters of an announcement have one byte. -/
theorem packet_eq (roomName : Text) :
    RoomNotifier.packet roomName = encodeUtf8 (RoomNotifier.broadcast roomName) := by
  refine List.take_of_length_le (Nat.le_of_eq (length_encodeUtf8 fun c hc => ?_))
  rw [RoomNotifier.broadcast, List.mem_append, List.mem_cons, List.mem_append,
    List.mem_singleton] at hc
  have hmessage : broadcastMessage.all fun c => c.utf8Size = 1 := by decide
  rcases hc with hc | rfl | hc | rfl
  · simpa using List.all_eq_true.1 hmessage c hc
  · rfl
  · exact utf8Size_of_isUrlChar (isUrlChar_of_mem_encode hc)
  · rfl

/-- An announcement has two parts: the line break belongs to the second one. -/
theorem messages_packet {roomName : Text} (hfits : (RoomNotifier.packet roomName).length ≤ 1000) :
    messages (RoomNotifier.packet roomName) =
      [broadcastMessage, URLEncoder.encode roomName ++ ['\n']] := by
  have hjoin : RoomNotifier.broadcast roomName =
      join ':' [broadcastMessage, URLEncoder.encode roomName ++ ['\n']] := by
    rw [join_cons_cons, join_singleton]
    rfl
  rw [messages, List.take_of_length_le hfits, packet_eq, Utf8.decode_encodeUtf8, hjoin]
  have hmessage : ':' ∉ broadcastMessage := by decide
  have hname : ':' ∉ URLEncoder.encode roomName ++ ['\n'] := by
    rw [List.mem_append]
    rintro (hmem | hmem)
    · exact absurd (isUrlChar_of_mem_encode hmem) (by decide)
    · exact absurd hmem (by decide)
  refine split_join (fun part hpart => ?_) (List.cons_ne_nil _ _) ?_
  · rcases List.mem_pair.1 hpart with rfl | rfl
    · exact hmessage
    · exact hname
  · exact List.append_ne_nil_of_right_ne_nil _ (List.cons_ne_nil _ _)

theorem decode_encode_append (roomName : Text) :
    URLDecoder.decode (URLEncoder.encode roomName ++ ['\n']) = some (roomName ++ ['\n']) := by
  refine decodeFrom_encode_append (fun t => ?_) [] roomName
  rw [decodeFrom_plain (by decide) (by decide), URLDecoder.decodeFrom, Option.map_some,
    Utf8.decode_encodeUtf8]
  rfl

/-- The name of an announced room is read with the line break. -/
theorem announced_packet {roomName : Text}
    (hfits : (RoomNotifier.packet roomName).length ≤ 1000) :
    announced (RoomNotifier.packet roomName) = some (roomName ++ ['\n']) := by
  unfold announced
  simp only [messages_packet hfits, if_true]
  exact decode_encode_append roomName

/-- When a loop that goes on receives the announcement of a room, whatever it has received
    before, the room it records for the address does not have this name: a line break is added
    to it. -/
theorem receive_announcement (s : RoomFinder α) (rs : List (Reception α)) (address : α)
    (roomName : Text) (hrunning : (s.after rs).Running)
    (hfits : (RoomNotifier.packet roomName).length ≤ 1000) :
    (s.after (rs ++ [.packet address (RoomNotifier.packet roomName)])).rooms.lookup address =
      some ⟨address, roomName ++ ['\n']⟩ ∧
    (s.after (rs ++ [.packet address (RoomNotifier.packet roomName)])).rooms.lookup address ≠
      some ⟨address, roomName⟩ := by
  have hannounced : announcement (.packet address (RoomNotifier.packet roomName)) =
      some (address, ⟨address, roomName ++ ['\n']⟩) := by
    rw [announcement, announced_packet hfits, Option.map_some]
  have hlookup : (s.after (rs ++ [.packet address (RoomNotifier.packet roomName)])).rooms.lookup
      address = some ⟨address, roomName ++ ['\n']⟩ := by
    rw [after, List.foldl_append, List.foldl_cons, List.foldl_nil, ← after]
    obtain ⟨_, _, hw, -, hreceive⟩ | ⟨hmalformed, -⟩ | ⟨hnone, -⟩ :=
      receive_cases hrunning (r := .packet address (RoomNotifier.packet roomName)) nofun
    · obtain ⟨rfl, rfl⟩ := Prod.mk.inj (Option.some.inj (hannounced.symm.trans hw))
      rw [hreceive, AList.lookup_insert]
    · exact absurd (hannounced.symm.trans (round_of_malformed (s := s) hmalformed).2) nofun
    · exact absurd (hannounced.symm.trans hnone) nofun
  refine ⟨hlookup, fun hname => ?_⟩
  have hlength : (roomName ++ ['\n']).length = roomName.length :=
    congrArg (fun room => room.name.length) (Option.some.inj (hlookup.symm.trans hname))
  rw [List.length_append, List.length_singleton] at hlength
  omega

/-! ## A sequence of datagrams -/

theorem after_ended (h : s.ended.isSome) (rs : List (Reception α)) : s.after rs = s := by
  induction rs with
  | nil => rfl
  | cons r rs ih => rw [after, List.foldl_cons, receive, if_pos h]; exact ih

/-- A loop that goes on does so exactly as long as no datagram is malformed. -/
theorem after_ended_eq_none_iff (hs : s.Running) (hio : .ioException ∉ rs) :
    (s.after rs).ended = none ↔ ∀ r ∈ rs, ¬ Malformed r := by
  induction rs generalizing s with
  | nil => exact ⟨fun _ r hr => absurd hr List.not_mem_nil, fun _ => hs.ended⟩
  | cons r rs ih =>
    obtain ⟨hr, hrs⟩ := List.ne_and_not_mem_of_not_mem_cons hio
    have hstep : s.after (r :: rs) = (s.receive r).after rs := rfl
    rw [hstep, List.forall_mem_cons]
    obtain ⟨address, room, -, hwell, hreceive⟩ | ⟨hmalformed, hended⟩ | ⟨-, hwell, hreceive⟩ :=
      receive_cases hs (Ne.symm hr)
    · have hnext : { s with rooms := s.rooms.insert address room }.Running :=
        ⟨hs.listening, hs.ended⟩
      rw [hreceive, ih hnext hrs]
      exact (and_iff_right hwell).symm
    · rw [after_ended (by rw [hended]; rfl), hended]
      exact iff_of_false nofun fun h => h.1 hmalformed
    · rw [hreceive, ih hs hrs]
      exact (and_iff_right hwell).symm

/-- The rooms that a loop that goes on has are those announced. -/
theorem after_rooms (hs : s.Running) (hio : .ioException ∉ rs) (hwell : ∀ r ∈ rs, ¬ Malformed r) :
    (s.after rs).rooms =
      (rs.filterMap announcement).foldl (fun m w => m.insert w.1 w.2) s.rooms := by
  induction rs generalizing s with
  | nil => rfl
  | cons r rs ih =>
    obtain ⟨hr, hrs⟩ := List.ne_and_not_mem_of_not_mem_cons hio
    obtain ⟨hwell, hwells⟩ := List.forall_mem_cons.1 hwell
    have hstep : s.after (r :: rs) = (s.receive r).after rs := rfl
    rw [hstep]
    obtain ⟨address, room, hw, -, hreceive⟩ | ⟨hmalformed, -⟩ | ⟨hnone, -, hreceive⟩ :=
      receive_cases hs (Ne.symm hr)
    · have hnext : { s with rooms := s.rooms.insert address room }.Running :=
        ⟨hs.listening, hs.ended⟩
      rw [hreceive, ih hnext hrs hwells, List.filterMap_cons_some hw,
        List.foldl_cons]
    · exact absurd hmalformed hwell
    · rw [hreceive, ih hs hrs hwells, List.filterMap_cons_none hnone]

/-- The loop goes on after some receptions, and the rooms are the latest that the addresses have
    announced. -/
def KeepsUp (s : RoomFinder α) (rs : List (Reception α)) : Prop :=
  (s.after rs).ended = none ∧ ∀ address room,
    latest address (rs.filterMap announcement) = some room →
      (s.after rs).rooms.lookup address = some room

/-- The loop goes on, and has the latest rooms, exactly if no datagram announces a name that
    cannot be decoded. -/
theorem keepsUp_iff (hs : s.Running) (hio : .ioException ∉ rs) :
    s.KeepsUp rs ↔ ∀ r ∈ rs, ¬ Malformed r := by
  rw [KeepsUp, after_ended_eq_none_iff hs hio]
  refine and_iff_left_of_imp fun hwell address room hlatest => ?_
  rw [after_rooms hs hio hwell, lookup_foldl_insert, hlatest, Option.some_or]

theorem receive_announcement_colon :
    ((started : RoomFinder ℕ).after ([.socketTimeout] ++
      [.packet 0 (RoomNotifier.packet "a:b".toList)])).rooms.lookup 0 =
        some ⟨0, "a:b".toList ++ ['\n']⟩ ∧
    ((started : RoomFinder ℕ).after ([.socketTimeout] ++
      [.packet 0 (RoomNotifier.packet "a:b".toList)])).rooms.lookup 0 ≠
        some ⟨0, "a:b".toList⟩ :=
  receive_announcement started [.socketTimeout] 0 "a:b".toList ⟨rfl, rfl⟩ (by decide)

/-- The room `a` is recorded under another name. -/
theorem not_receive_announcement : ¬ ∀ (rs : List (Reception ℕ)) (address : ℕ) (roomName : Text),
    ((started : RoomFinder ℕ).after rs).Running →
    (RoomNotifier.packet roomName).length ≤ 1000 →
    ((started : RoomFinder ℕ).after (rs ++
      [.packet address (RoomNotifier.packet roomName)])).rooms.lookup address =
        some ⟨address, roomName⟩ := by
  intro h
  have ha := h [] 0 ['a'] started_running (by decide)
  have hlookup : ((started : RoomFinder ℕ).after ([] ++
      [.packet 0 (RoomNotifier.packet ['a'])])).rooms.lookup 0 = some ⟨0, ['a', '\n']⟩ := by
    decide
  exact absurd (hlookup.symm.trans ha) (by decide)

/-- Two hosts announce three rooms. Between the announcements there are foreign datagrams, one that
    is cut before its colon, one that is cut in the name, and timeouts. -/
def sampleReceptions : List (Reception ℕ) :=
  [.packet 1 (RoomNotifier.packet "attic".toList), .socketTimeout,
    .packet 7 (encodeUtf8 "DETECTION SERVER HERE:8000".toList),
    .packet 2 ((RoomNotifier.packet "hall".toList).take 12),
    .packet 2 (RoomNotifier.packet "the hall".toList), .packet 7 [0xFF, 0x3A, 0xFE, 0x3A, 0xFD],
    .packet 1 ((RoomNotifier.packet "attic".toList).take 22), .socketTimeout,
    .packet 1 (RoomNotifier.packet "cellar".toList)]

theorem keepsUp_iff_sampleReceptions : (started : RoomFinder ℕ).KeepsUp sampleReceptions ∧
    (started.after sampleReceptions).rooms.lookup 1 = some ⟨1, "cellar\n".toList⟩ ∧
    (started.after sampleReceptions).rooms.lookup 2 = some ⟨2, "the hall\n".toList⟩ :=
  ⟨(keepsUp_iff started_running (by decide +kernel)).2 (by decide +kernel), by decide +kernel,
    by decide +kernel⟩

/-- A datagram of 21 bytes, which ends with an incomplete escape. -/
def truncated : List UInt8 := encodeUtf8 (broadcastMessage ++ ":%4".toList)

/-- An announcement that is cut inside an escape ends the loop. -/
theorem not_keepsUp_truncated : ¬ ∀ rs : List (Reception ℕ),
    .ioException ∉ rs → (started : RoomFinder ℕ).KeepsUp rs := by
  intro h
  have hended := (h [.packet 0 truncated] (by simp)).1
  exact absurd hended (by decide)

end RoomFinder

end Gaze
