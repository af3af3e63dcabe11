import Gaze.Server.Runs

/-!
# The records of the players

Each player has a record: its score, and the number of anamorphoses it has found.
The records follow the players from handler to handler, when they reconnect, and
are replaced when a handler connects again.

* `recorded`: where the record bound to a handler comes from, after any event.
* `ledger`: on the lines of the protocol, the record of a player is the account of
  the finds processed while the player was bound to their handler.
* `settled_iff`: the records only change in the games exactly in the runs where no
  find is processed in the lobby, or once the game has ended.
-/

namespace Gaze

open Java Protocol

namespace Server

/-- The line reports a find. -/
def IsFind (l : Text) : Prop := parseInstructionType l = .ok anamorphosisFoundMessageType

instance (l : Text) : Decidable (IsFind l) := inferInstanceAs (Decidable (_ = _))

/-! ## Where the records come from -/

/-- Where the player bound to a handler comes from, once the event has been handled. -/
inductive Recorded (s : Server) (e : Event) (k : ClientHandler) (p' : Player) : Prop
  /-- It was there, maybe under another handler, with the same record. -/
  | kept (k' : ClientHandler) (p : Player) : s.players.get k' = some p →
      p'.playerId = p.playerId → p'.score = p.score →
      p'.nbFoundAnamorphosis = p.nbFoundAnamorphosis →
      (∀ l choice, e = .received k' l choice → ¬IsFind l) → Recorded s e k p'
  /-- It has reported a find. -/
  | found (l : Text) (choice : Choice) (p : Player) : e = .received k l choice → IsFind l →
      s.players.get k = some p → p' = recordFind (parseInstructionData l) p → Recorded s e k p'
  /-- It is new. -/
  | created (name l : Text) (choice : Choice) : e = .received k l choice → ¬IsFind l →
      p' = Player.new name 0 false choice.uuid.text → Recorded s e k p'

/-- The event is a find of a player. -/
def FindsSomething (s : Server) : Event → Prop
  | .received handler l _ => (s.players.get handler).isSome ∧ IsFind l
  | _ => False

instance (s : Server) : ∀ e, Decidable (s.FindsSomething e)
  | .received handler l _ => inferInstanceAs (Decidable ((s.players.get handler).isSome ∧ IsFind l))
  | .accepted _ | .disconnected _ | .stopped | .validated _ | .drawn _ _ =>
    inferInstanceAs (Decidable False)

/-- Ids are never taken back, and every record comes from somewhere. -/
structure Records (s : Server) (e : Event) (s' : Server) : Prop where
  issued : s.uuids ⊆ s'.uuids
  recorded : ∀ k p', s'.players.get k = some p' → Recorded s e k p'

section

variable {s s' : Server} {handler : ClientHandler} {choice : Choice} {e : Event}

theorem Recorded.of_get (he : ¬s.FindsSomething e) {k k' : ClientHandler} {p p' : Player}
    (hp : s.players.get k' = some p) (hid : p'.playerId = p.playerId) (hscore : p'.score = p.score)
    (hfound : p'.nbFoundAnamorphosis = p.nbFoundAnamorphosis) : Recorded s e k p' := by
  refine .kept k' p hp hid hscore hfound fun l choice h hfind => he ?_
  rw [h]
  exact ⟨by simp [hp], hfind⟩

/-- Nothing happens to the records when the players stay. -/
theorem Records.of_players_eq (he : ¬s.FindsSomething e) (huuids : s'.uuids = s.uuids)
    (hplayers : s'.players = s.players) : Records s e s' where
  issued := huuids ▸ List.Subset.refl _
  recorded _ _ hp := .of_get he (hplayers ▸ hp) rfl rfl rfl

/-- Nor when players leave. -/
theorem Records.of_remove (he : ¬s.FindsSomething e) (h : ClientHandler) :
    Records s e (s.withPlayers (s.players.remove h)) where
  issued := List.Subset.refl _
  recorded k p hp := by
    rw [withPlayers_players, HashMap.get_remove] at hp
    split_ifs at hp
    exact .of_get he hp rfl rfl rfl

/-- A line of another type is no find. -/
theorem not_finds {l type : Text} (htype : parseInstructionType l = .ok type)
    (hne : type ≠ anamorphosisFoundMessageType) : ¬IsFind l := by
  intro hfind
  exact hne (Except.ok.inj (htype.symm.trans hfind))

/-- Receiving a line only changes the record of the player who has found something. -/
theorem records_received (l : Text) : Records s (.received handler l choice)
    ((onMessageReceived handler (some l) choice).exec s).state := by
  have hother : ∀ {type : Text}, parseInstructionType l = .ok type →
      type ≠ anamorphosisFoundMessageType → ¬s.FindsSomething (.received handler l choice) :=
    fun htype hne hfind => not_finds htype hne hfind.2
  have hcases := receiving s handler l choice
  generalize (onMessageReceived handler (some l) choice).exec s = o at hcases ⊢
  cases hcases with
  | unreadable e htype =>
    refine .of_players_eq (fun hfind => ?_) rfl rfl
    exact absurd (htype.symm.trans hfind.2) (by simp)
  | ignored type htype hignored =>
    -- A find is ignored if its handler has no player.
    refine .of_players_eq (fun hfind => ?_) rfl rfl
    obtain rfl : type = anamorphosisFoundMessageType := Except.ok.inj (htype.symm.trans hfind.2)
    rcases hignored with ⟨hnone, -⟩ | hnot
    · exact absurd hfind.1 (by simp [hnone])
    · exact hnot (by decide)
  | unnamed _ htype | late _ htype | unknown htype | started _ _ htype | notReady _ _ htype
  | roomUnnamed _ _ _ htype | roomNamed _ _ _ htype | roomKept _ _ htype =>
    exact .of_players_eq (hother htype (by decide)) rfl rfl
  | connected name htype =>
    -- A repeated `CONNECT` replaces the record of the handler by a new one, under a new id.
    refine ⟨List.subset_cons_self _ _, fun k p hp => ?_⟩
    rw [Server.connected, withPlayers_players, HashMap.get_put] at hp
    split_ifs at hp with hk
    · exact .created name l choice (by rw [hk]) (not_finds htype (by decide))
        (Option.some.inj hp).symm
    · exact .of_get (hother htype (by decide)) hp rfl rfl rfl
  | recognised h p htype _ hp =>
    have hnot := hother htype (by decide)
    refine ⟨List.Subset.refl _, fun k q hq => ?_⟩
    rw [withPlayers_players, HashMap.get_put] at hq
    split_ifs at hq with hk
    · -- The record of the other handler, under this one.
      exact .of_get hnot (hp.trans hq) rfl rfl rfl
    · exact (Records.of_remove hnot h).recorded k q hq
  | disconnected _ _ htype => exact .of_remove (hother htype (by decide)) handler
  | ready _ _ htype =>
    have hnot := hother htype (by decide)
    refine ⟨List.Subset.refl _, fun k p hp => ?_⟩
    rw [withPlayers_players, HashMap.get_replace] at hp
    split_ifs at hp with hk
    · obtain ⟨q, hq, rfl⟩ := Option.map_eq_some_iff.1 hp
      exact .of_get hnot hq rfl rfl rfl
    · exact .of_get hnot hp rfl rfl rfl
  | found p hp htype =>
    have hholds := onAnamorphosisFound_holds (parseInstructionData l) choice hp
    refine ⟨hholds.uuids ▸ List.Subset.refl _, fun k q hq => ?_⟩
    rw [hholds.players, HashMap.get_replace] at hq
    split_ifs at hq with hk
    · subst hk
      obtain ⟨q, hget, rfl⟩ := Option.map_eq_some_iff.1 hq
      exact .found l choice q rfl htype hget rfl
    · exact .kept k q hq rfl rfl rfl fun l' c h => by
        cases h
        exact absurd rfl hk

/-- Where the records come from, after any event. -/
theorem recorded : ∀ e, Records s e (s.handle e).state
  | .received _ l _ => records_received l
  | .accepted _ | .validated _ | .drawn _ _ => .of_players_eq id rfl rfl
  | .disconnected _ => by
    rw [handle, exec_onClientDisconnected]
    exact .of_players_eq id rfl rfl
  | .stopped => by
    rw [handle, exec_onServerStopped]
    exact ⟨List.Subset.refl _, by simp⟩

/-- The record of the player who reports a find. -/
theorem handle_find {l : Text} {p : Player} (hp : s.players.get handler = some p) (hl : IsFind l) :
    (s.handle (.received handler l choice)).state.players.get handler =
      some (recordFind (parseInstructionData l) p) := by
  have hholds := onAnamorphosisFound_holds (parseInstructionData l) choice hp
  rw [handle, exec_received_found hp hl, hholds.players]
  simp [hp]

end

/-! ## The records outside of the games -/

/-- Outside of the games, the step leaves the records of the players as they are. -/
def Settled (s : Server) (e : Event) : Prop :=
  s.gameState ≠ .mainGame → s.gameState ≠ .deathMatch → ∀ k k' p p',
    s.players.get k = some p → (s.handle e).state.players.get k' = some p' →
    p'.playerId = p.playerId →
    p'.score = p.score ∧ p'.nbFoundAnamorphosis = p.nbFoundAnamorphosis

/-- A player reports a find in the lobby, or once the game has ended. -/
def FindsOutside (s : Server) (e : Event) : Prop :=
  (s.gameState = .lobby ∨ s.gameState = .ended) ∧ s.FindsSomething e

instance (s : Server) (e : Event) : Decidable (s.FindsOutside e) :=
  inferInstanceAs (Decidable (_ ∧ _))

variable {s : Server} {e : Event} {es : List Event}

theorem WellFormed.settled_handle_iff (hs : s.WellFormed) (he : s.Enabled e) :
    s.Settled e ↔ ¬s.FindsOutside e := by
  constructor
  · rintro h ⟨hphase, hfind⟩
    cases e with
    | received handler l choice =>
      obtain ⟨p, hp⟩ := Option.isSome_iff_exists.1 hfind.1
      have hsame := h (by rintro hmain; simp [hmain] at hphase)
        (by rintro hmatch; simp [hmatch] at hphase) handler handler p _ hp (handle_find hp hfind.2)
        (recordFind_playerId _ _)
      -- Whatever its difficulty, a find counts.
      rw [recordFind_nbFoundAnamorphosis] at hsame
      exact absurd hsame.2 (by simp)
    | _ => exact hfind
  · intro hnot hmain hmatch k k' p p' hp hp' hid
    have hphase : s.gameState = .lobby ∨ s.gameState = .ended := by
      cases hg : s.gameState with
      | lobby => exact .inl rfl
      | ended => exact .inr rfl
      | mainGame => exact absurd hg hmain
      | deathMatch => exact absurd hg hmatch
    cases (recorded e).recorded k' p' hp' with
    | kept k'' q hq hqid hscore hfound =>
      -- The same id is that of the same player.
      obtain rfl := hs.distinct k k'' p q hp hq (hid.symm.trans hqid)
      obtain rfl := Option.some.inj (hp.symm.trans hq)
      exact ⟨hscore, hfound⟩
    | found l choice q heq hl hq =>
      refine absurd ⟨hphase, ?_⟩ hnot
      rw [heq]
      exact ⟨by simp [hq], hl⟩
    | created name l choice heq _ hnew =>
      -- A new id is not that of a player.
      rw [heq] at he
      have hissued := hs.issued k p hp
      rw [← hid, hnew] at hissued
      exact absurd hissued he.2

/-- The records only change in the games exactly in the runs where no find is processed
    in the lobby, or once the game has ended. -/
theorem settled_iff (h : machine.IsRun s es) :
    machine.Along Settled s es ↔ machine.Along (fun s e => ¬s.FindsOutside e) s es :=
  h.along_congr fun _ _ hs he => (wellFormed_of_reachable hs).settled_handle_iff he

/-- Two players connect and start to play, and report what they find. -/
def sampleFinds : List Event :=
  [.accepted ⟨0, true⟩, .received ⟨0, true⟩ "CONNECT host".toList (sampleChoice 0),
    .accepted ⟨1, false⟩, .received ⟨1, false⟩ "CONNECT guest".toList (sampleChoice 1),
    .received ⟨0, true⟩ "READY".toList (sampleChoice 2),
    .received ⟨1, false⟩ "READY".toList (sampleChoice 2),
    .received ⟨0, true⟩ "START".toList (sampleChoice 2),
    .received ⟨0, true⟩ "ANAM-FOUND 2".toList (sampleChoice 2),
    .received ⟨1, false⟩ "ANAM-FOUND 0".toList (sampleChoice 2),
    .received ⟨0, true⟩ "ANAM-FOUND 1".toList (sampleChoice 2)]

theorem isRun_sampleFinds : machine.IsRun sampleServer sampleFinds where
  init := ⟨_, _, rfl⟩
  enabled := by decide +kernel

theorem sampleFinds_settled : machine.Along Settled sampleServer sampleFinds ∧
    ((machine.after sampleServer sampleFinds).players.get ⟨0, true⟩).map
      (fun p => (p.nbFoundAnamorphosis, p.score)) = some (2, 11) ∧
    ((machine.after sampleServer sampleFinds).players.get ⟨1, false⟩).map
      (fun p => (p.nbFoundAnamorphosis, p.score)) = some (1, 2) :=
  ⟨(settled_iff isRun_sampleFinds).2 (by decide +kernel), by decide +kernel, by decide +kernel⟩

/-- A find in the lobby counts. -/
theorem find_in_lobby : ¬∀ s es, machine.IsRun s es → machine.Along Settled s es := by
  intro h
  have hrun : machine.IsRun sampleServer [.accepted ⟨0, true⟩,
      .received ⟨0, true⟩ "CONNECT host".toList (sampleChoice 0),
      .received ⟨0, true⟩ "ANAM-FOUND 2".toList (sampleChoice 1)] := ⟨⟨_, _, rfl⟩, by decide⟩
  have hlast := (h _ _ hrun).2.2.1 (by decide) (by decide) ⟨0, true⟩ ⟨0, true⟩
    ⟨"host".toList, 0, false, (sampleUuid 0).text, 0⟩
    ⟨"host".toList, 7, false, (sampleUuid 0).text, 1⟩ (by decide) (by decide) rfl
  exact absurd hlast (by decide)

/-! ## The ledger -/

/-- What finding an anamorphosis is worth. -/
def points : Difficulty → ℕ
  | .easy => 2
  | .medium => 4
  | .hard => 7

/-- The texts that the protocol builds for the server. -/
inductive IsBuilt : Text → Prop
  | connect (playerName : Text) : IsBuilt (buildConnectInstruction playerName)
  | reconnect (playerId : Text) : IsBuilt (buildReconnectMessageType playerId)
  | disconnect (playerName : Text) : IsBuilt (buildDisconnectInstruction playerName)
  | ready (playerId : Text) : IsBuilt (buildReadyInstruction playerId)
  | start : IsBuilt buildStartInstruction
  | roomName (roomName : Text) : IsBuilt (buildRoomNameInstruction roomName)
  | quit : IsBuilt buildQuitInstruction
  | found (anam : Anamorphosis) : IsBuilt (buildAnamorphosisFoundMessage anam)

/-- The lines received are lines of the protocol. -/
def Speaks (_s : Server) : Event → Prop
  | .received _ l _ => IsBuilt (l ++ instructionEnd)
  | _ => True

/-- The finds received. -/
def finds (_s : Server) : Event → ℕ
  | .received _ l _ => if IsFind l then 1 else 0
  | _ => 0

/-- The finds of the player `id`: their difficulties. -/
def findsOf (id : Text) (s : Server) : Event → List Difficulty
  | .received handler l _ =>
    if (s.players.get handler).map Player.playerId = some id ∧ IsFind l then
      (parseAnamorphosisFoundMessage (parseInstructionData l)).toOption.toList
    else []
  | _ => []

theorem value_eq_ofNat (d : Difficulty) : d.value = Int32.ofNat (points d) := by
  cases d <;> rfl

/-- A find is at least an easy one, and at most a hard one. -/
theorem sum_points_bounds (l : List Difficulty) :
    2 * l.length ≤ (l.map points).sum ∧ (l.map points).sum ≤ 7 * l.length := by
  induction l with
  | nil => simp
  | cons d l ih =>
    have hd : 2 ≤ points d ∧ points d ≤ 7 := by cases d <;> decide
    rw [List.map_cons, List.sum_cons, List.length_cons]
    omega

theorem length_findsOf_le (id : Text) (s : Server) (e : Event) :
    (findsOf id s e).length ≤ finds s e := by
  cases e with
  | received handler l choice =>
    rw [findsOf, finds]
    split_ifs with hfind hl
    · cases parseAnamorphosisFoundMessage (parseInstructionData l) <;> simp [Except.toOption]
    · exact absurd hfind.2 hl
    · simp
    · simp
  | _ => exact Nat.le_refl 0

/-- The difficulty of a find that the protocol has built is read back. -/
theorem IsBuilt.find {l : Text} (hbuilt : IsBuilt (l ++ instructionEnd)) (hl : IsFind l) :
    ∃ d, parseAnamorphosisFoundMessage (parseInstructionData l) = .ok d := by
  have hline : ∀ {type data : Text}, l ++ instructionEnd = withData type data →
      l = line type data := fun h => List.append_cancel_right (h.trans (withData_eq_line _ _))
  have hdata : ∀ {type data : Text}, l ++ instructionEnd = withData type data → Plain type →
      type ≠ [] → type = anamorphosisFoundMessageType := by
    intro type data h htype hne
    rw [hline h] at hl
    exact Except.ok.inj ((parseInstructionType_line htype hne data).symm.trans hl)
  have hbare : ∀ {type : Text}, l ++ instructionEnd = bare type → Plain type →
      type = anamorphosisFoundMessageType := by
    intro type h htype
    rw [List.append_cancel_right h] at hl
    exact Except.ok.inj ((parseInstructionType_bare htype).symm.trans hl)
  -- Only `buildAnamorphosisFoundMessage` builds a line of this type.
  generalize htext : l ++ instructionEnd = text at hbuilt
  cases hbuilt with
  | connect | reconnect | disconnect | ready | roomName =>
    exact absurd (hdata htext (by decide) (by decide)) (by decide)
  | start | quit => exact absurd (hbare htext (by decide)) (by decide)
  | found anam =>
    refine ⟨anam.difficulty, ?_⟩
    rw [hline htext, parseInstructionData_line (by decide) (by decide)
      ((plain_integer _).not_mem (by decide))]
    cases anam.difficulty <;> decide

/-- The account of the player `id`, whose finds have the difficulties `l`. -/
structure Account (id : Text) (s : Server) (l : List Difficulty) : Prop where
  record : ∀ k p, s.players.get k = some p → p.playerId = id →
    p.nbFoundAnamorphosis = Int32.ofNat l.length ∧ p.score = Int32.ofNat (l.map points).sum
  unissued : id ∉ s.uuids → l = []

/-- Every event keeps the accounts. -/
theorem Account.handle {id : Text} {l : List Difficulty} (h : Account id s l) (hs : s.WellFormed)
    (he : s.Enabled e) (hspeaks : s.Speaks e) :
    Account id (s.handle e).state (l ++ findsOf id s e) := by
  have hrec := recorded (s := s) e
  -- Only the finds of the player are entered in its account.
  have hnone : (∀ k p line choice, e = .received k line choice → s.players.get k = some p →
      p.playerId = id → ¬IsFind line) → findsOf id s e = [] := by
    intro hno
    cases e with
    | received k line choice =>
      rw [findsOf, if_neg]
      rintro ⟨hid, hl⟩
      obtain ⟨p, hp, hpid⟩ := Option.map_eq_some_iff.1 hid
      exact hno k p line choice rfl hp hpid hl
    | _ => rfl
  refine ⟨fun k p' hp' hid => ?_, fun hnew => ?_⟩
  · cases hrec.recorded k p' hp' with
    | kept k' p hp hpid hscore hfound hno =>
      have hnil : findsOf id s e = [] := by
        refine hnone fun k'' q line choice heq hq hqid => ?_
        obtain rfl := hs.distinct k'' k' q p hq hp (hqid.trans (hid.symm.trans hpid))
        exact hno line choice heq
      rw [hnil, List.append_nil, hscore, hfound]
      exact h.record k' p hp (hpid.symm.trans hid)
    | found line choice p heq hl hp hrecord =>
      subst heq
      obtain ⟨d, hd⟩ := IsBuilt.find hspeaks hl
      rw [recordFind_of_ok hd] at hrecord
      subst hrecord
      have hfinds : findsOf id s (.received k line choice) = [d] := by
        rw [findsOf, if_pos ⟨by rw [hp]; exact congrArg some hid, hl⟩, hd]
        rfl
      obtain ⟨hfound, hscore⟩ := h.record k p hp hid
      have hfound' : (credit d p).nbFoundAnamorphosis = p.nbFoundAnamorphosis + 1 := rfl
      have hscore' : (credit d p).score = p.score + d.value := rfl
      rw [hfinds, hfound', hscore', hfound, hscore, value_eq_ofNat]
      simp
    | created name line choice heq hl hnew =>
      subst heq
      subst hnew
      -- Nothing has been found under a new id.
      have hnil : l = [] := h.unissued (hid ▸ he.2)
      have hnil' : findsOf id s (.received k line choice) = [] :=
        if_neg fun hfind => hl hfind.2
      rw [hnil, hnil']
      exact ⟨rfl, rfl⟩
  · rw [h.unissued fun hmem => hnew (hrec.issued hmem), List.nil_append]
    refine hnone fun k p line choice _ hp hpid => ?_
    exact absurd (hrec.issued (hpid ▸ hs.issued k p hp)) hnew

/-- Players are told apart by their ids, and their records are the accounts of their
    finds: they can be sorted by score. -/
structure Balanced (s : Server) (account : Text → List Difficulty) : Prop where
  distinct : ∀ k k' p p', s.players.get k = some p → s.players.get k' = some p' →
    p.playerId = p'.playerId → k = k'
  found : ∀ k p, s.players.get k = some p →
    p.nbFoundAnamorphosis.toInt = (account p.playerId).length
  score : ∀ k p, s.players.get k = some p →
    p.score.toInt = ((account p.playerId).map points).sum
  bounds : ∀ k p, s.players.get k = some p →
    2 * p.nbFoundAnamorphosis.toInt ≤ p.score.toInt ∧
      p.score.toInt ≤ 7 * p.nbFoundAnamorphosis.toInt
  scored : s.sortPlayersByScore.isSome

/-- Players whose scores are sums can be sorted. -/
theorem isSome_sortPlayersByScore (h : ∀ k p, s.players.get k = some p → 0 ≤ p.score.toInt) :
    s.sortPlayersByScore.isSome := by
  have hscored : ¬s.unscored := by
    rw [unscored, List.any_eq_true]
    rintro ⟨p, hp, hscore⟩
    obtain ⟨k, hk⟩ := HashMap.mem_values.1 hp
    have hnone : p.score = -1 := by simpa using hscore
    have hneg : p.score.toInt = -1 := by rw [hnone]; rfl
    have hpos := h k p hk
    omega
  rw [sortPlayersByScore_eq, if_neg hscored]
  rfl

/-- On the lines of the protocol, with fewer than `2 ^ 28` finds, the records of the
    players are the accounts of the finds processed while they were bound to their
    handlers. -/
theorem ledger (h : machine.IsRun s es) (hspeaks : machine.Along Speaks s es)
    (hfinds : machine.total finds s es < 2 ^ 28) :
    Balanced (machine.after s es) fun id => machine.trace (findsOf id) s es := by
  have hrecords : ∀ k p, (machine.after s es).players.get k = some p →
      p.nbFoundAnamorphosis.toInt = (machine.trace (findsOf p.playerId) s es).length ∧
      p.score.toInt = ((machine.trace (findsOf p.playerId) s es).map points).sum := by
    intro k p hp
    have hacc : Account p.playerId (machine.after s es)
        (machine.trace (findsOf p.playerId) s es) := by
      refine h.invariant_trace_of_along hspeaks (fun s hinit => ?_) fun s e l hs hacc he hsp =>
        hacc.handle (wellFormed_of_reachable hs) he hsp
      obtain ⟨roomName, all, rfl⟩ := hinit
      exact ⟨by simp [new], fun _ => rfl⟩
    have hlen : (machine.trace (findsOf p.playerId) s es).length ≤ machine.total finds s es :=
      Machine.length_trace_le_total (length_findsOf_le p.playerId)
    have hbounds := sum_points_bounds (machine.trace (findsOf p.playerId) s es)
    obtain ⟨hfound, hscore⟩ := hacc.record k p hp rfl
    -- The counts are far from overflowing.
    rw [hfound, hscore, Int32.toInt_ofNat_of_lt (by omega), Int32.toInt_ofNat_of_lt (by omega)]
    exact ⟨rfl, rfl⟩
  have hbounds : ∀ k p, (machine.after s es).players.get k = some p →
      2 * p.nbFoundAnamorphosis.toInt ≤ p.score.toInt ∧
        p.score.toInt ≤ 7 * p.nbFoundAnamorphosis.toInt := by
    intro k p hp
    obtain ⟨hfound, hscore⟩ := hrecords k p hp
    have hsum := sum_points_bounds (machine.trace (findsOf p.playerId) s es)
    omega
  refine ⟨(wellFormed_of_reachable h.reachable).distinct, fun k p hp => (hrecords k p hp).1,
    fun k p hp => (hrecords k p hp).2, hbounds, isSome_sortPlayersByScore fun k p hp => ?_⟩
  rw [(hrecords k p hp).2]
  exact Int.natCast_nonneg _

/-- A player finds an anamorphosis, reconnects from another handler, and finds another
    one. -/
def sampleLedger : List Event :=
  [.accepted ⟨0, true⟩, .received ⟨0, true⟩ "CONNECT host".toList (sampleChoice 0),
    .received ⟨0, true⟩ "ANAM-FOUND 2".toList (sampleChoice 1), .accepted ⟨1, false⟩,
    .received ⟨1, false⟩ ("RECONNECT ".toList ++ (sampleUuid 0).text) (sampleChoice 1),
    .received ⟨1, false⟩ "ANAM-FOUND 0".toList (sampleChoice 1)]

theorem sampleLedger_balanced : Balanced (machine.after sampleServer sampleLedger) fun id =>
    machine.trace (findsOf id) sampleServer sampleLedger :=
  ledger ⟨⟨_, _, rfl⟩, by decide⟩
    ⟨trivial, .connect "host".toList, .found ⟨2, .hard, "c".toList⟩, trivial,
      .reconnect (sampleUuid 0).text, .found ⟨0, .easy, "a".toList⟩, trivial⟩ (by decide)

end Server

end Gaze
