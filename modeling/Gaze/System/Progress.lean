import Gaze.System.Announcements
import Mathlib.Data.List.Pairwise

/-!
# The phases of the game, on the clients

The server announces the phases of the game. The clients hear them in order, whatever is
lost, and each once at most, unless the game is started again.

* `System.phases_announced`: the phases that are announced go forward, in the runs where no
  `START` is accepted after the lobby.
* `System.clients_agree`: so do those that a client hears, and two clients that hear of the same
  phase hear the same line: in particular, the leaderboards that clients show are all the same.
* `System.phase_known`: a client that keeps the connection it has opened in the lobby is told the
  phase of the server, unless this is a death match that could not be drawn: then the last phase
  that it is told is the main game.
-/

namespace Gaze

open Java Protocol
open scoped List

/-- The phase that a line announces. -/
def phaseOf (l : Text) : Option GameState :=
  match parseInstructionType l with
  | .ok type =>
    if type = startInstructionType then some .mainGame
    else if type = deathMatchInstructionType then some .deathMatch
    else if type = finishedInstructionType then some .ended
    else none
  | .error _ => none

theorem ServerMessage.phaseOf_line (m : ServerMessage) : phaseOf m.line = m.phase := by
  rw [phaseOf, m.parseInstructionType_line]
  cases m <;> rfl

namespace System

variable {ι : Type} {s s' : System ι} {owner : Text → Option ι} {e : Event ι} {k : ClientHandler}
  {c : Connection ι}

/-- The phases that lines announce. -/
def phases (lines : List Text) : List GameState := lines.filterMap phaseOf

theorem phases_append (lines lines' : List Text) :
    phases (lines ++ lines') = phases lines ++ phases lines' := List.filterMap_append ..

theorem phases_lines (a : Option ServerMessage) :
    phases (a.toList.map ServerMessage.line) = (a.bind ServerMessage.phase).toList := by
  cases a with
  | none => rfl
  | some m =>
    change [m.line].filterMap phaseOf = m.phase.toList
    rw [List.filterMap_cons, m.phaseOf_line]
    cases m.phase <;> rfl

/-- Only announcements announce phases. -/
theorem phases_announcements (lines : List Text) : phases (announcements lines) = phases lines := by
  rw [phases, announcements, List.filterMap_filter]
  refine List.filterMap_congr fun l _ => ?_
  split_ifs with hl
  · rfl
  · symm
    cases htype : parseInstructionType l with
    | ok type =>
      have hne : ∀ announced ∈ announcementTypes, type ≠ announced := by
        rintro _ hmem rfl
        refine hl ?_
        simp only [isAnnouncement, htype]
        exact List.contains_iff_mem.2 hmem
      simp only [phaseOf, htype, hne startInstructionType (by decide),
        hne deathMatchInstructionType (by decide), hne finishedInstructionType (by decide),
        if_false]
    | error e => simp only [phaseOf, htype]

/-- What an event does to the phase of the server, and what it announces of it. -/
inductive Progress (s : System ι) (e : Event ι) (s' : System ι) : Prop
  | stays : phases (s.announced e) = [] → s'.server.gameState = s.server.gameState → Progress s e s'
  /-- The death match cannot be drawn. -/
  | undrawn : phases (s.announced e) = [] → s.server.gameState = .mainGame →
      s'.server.gameState = .deathMatch → Progress s e s'
  | starts : phases (s.announced e) = [.mainGame] → s.Starts e →
      s'.server.gameState = .mainGame → Progress s e s'
  | moves : phases (s.announced e) = [s'.server.gameState] →
      s.server.gameState.rank < s'.server.gameState.rank → Progress s e s'

/-- The phase that the messages of an event announce, if there is a client to hear it. -/
theorem Messages.phases {ms : List Server.Message} {a : Option ServerMessage}
    (h : Messages s e ms a) : System.phases (s.announced e) = [] ∨
      System.phases (s.announced e) = (a.bind ServerMessage.phase).toList := by
  cases hclients : s.server.clients with
  | nil =>
    left
    have hnone : (ms.filter fun m => m.2.isAnnouncement) = [] := by
      refine List.filter_eq_nil_iff.2 fun m hm hann => ?_
      have hfilter := h.announces m.1
      rw [hclients, if_neg List.not_mem_nil] at hfilter
      exact List.filter_eq_nil_iff.1 hfilter m.2 (Server.mem_messagesTo.2 hm) hann
    rw [announced, h.sent, announcements_linesSent h.hasUuids, hnone]
    rfl
  | cons k clients =>
    right
    rw [announced_eq h.sent h.hasUuids h.announces (by rw [hclients]; exact List.mem_cons_self ..),
      phases_lines]

theorem Messages.phases_eq_nil {ms : List Server.Message} {a : Option ServerMessage}
    (h : Messages s e ms a) (ha : a.bind ServerMessage.phase = none) :
    System.phases (s.announced e) = [] := by
  rcases h.phases with hphases | hphases
  · exact hphases
  · rw [hphases, ha]
    rfl

variable [DecidableEq ι]

/-- Serving a command makes progress, or none. -/
theorem Inv.progress_serving (hs : Inv owner s) {choice : Choice}
    (h : s.next (.serves k choice) = some s') : Progress s (.serves k choice) s' := by
  obtain ⟨c, command, commands, server, ms, ok, hserving, hemitted, hstate⟩ :=
    hs.serving_emitted h
  have hsent := hserving.sent hemitted hstate
  obtain ⟨hserver, -, -⟩ := hserving.after
  obtain ⟨a, ha, hphasing⟩ := hserving.served.announces hs.server.nodup
  cases ok with
  | true =>
    have hmessages : Messages s (.serves k choice) ms a :=
      ⟨hsent, hserving.served.hasUuids hserving.wellFormed, ha⟩
    have hphases : phases (s.announced (.serves k choice)) =
        (a.bind ServerMessage.phase).toList := by
      rw [announced_eq hmessages.sent hmessages.hasUuids ha hserving.accepted, phases_lines]
    generalize hgame : server.gameState = g at hphasing
    generalize hgame₀ : s.server.gameState = g₀ at hphasing
    cases hphasing with
    | stays _ _ hnone =>
      exact .stays (by rw [hphases, hnone]; rfl) (by rw [hserver, hgame, hgame₀])
    | starts _ hcommand =>
      subst hcommand
      have hstart : (k, ServerMessage.start) ∈ ms := by
        have hfilter := ha k
        rw [if_pos hserving.accepted] at hfilter
        have hmem : ServerMessage.start ∈
            (Server.messagesTo k ms).filter ServerMessage.isAnnouncement := by
          rw [hfilter]
          exact List.mem_singleton_self _
        exact Server.mem_messagesTo.1 (List.mem_filter.1 hmem).1
      obtain ⟨-, hbound, hready, -⟩ := hserving.served.start hstart
      have hnext : s.nextCommand k = some .start := by
        rw [nextCommand, hserving.get, Option.bind_some, hserving.toServer, List.head?_cons]
      exact .starts hphases ⟨hnext, hbound, hready⟩ (by rw [hserver, hgame])
    | moves _ _ m hrank hphase =>
      refine .moves ?_ (by rwa [hserver, hgame, hgame₀])
      rw [hphases, hserver, hgame, Option.bind_some, hphase]
      rfl
    | undrawn hok => exact Bool.noConfusion hok
  | false =>
    -- An exception is only announced as the end of a handler.
    obtain ⟨b, hmessages, hb⟩ :=
      messages_farewell hserving.wellFormed hserving.served.clients_eq hsent
    have hphases := hmessages.phases_eq_nil hb
    obtain ⟨rfl, -, -⟩ := hserving.served.of_error
    obtain rfl : a = none := by
      have hnone := ha k
      rw [if_pos hserving.accepted] at hnone
      cases a with
      | none => rfl
      | some m => exact absurd hnone (by simp)
    generalize hgame : server.gameState = g at hphasing
    generalize hgame₀ : s.server.gameState = g₀ at hphasing
    cases hphasing with
    | stays => exact .stays hphases (by rw [hserver, hgame, hgame₀])
    | undrawn => exact .undrawn hphases hgame₀ (by rw [hserver, hgame])

/-- Every event makes progress, or none. -/
theorem Inv.progress (hs : Inv owner s) : ∀ {e : Event ι}, s.next e = some s' → Progress s e s'
  | .serves _ _, h => hs.progress_serving h
  | .connectServer .., h | .opens .., h | .refused _, h | .introduces _, h | .reads _, h
  | .hangsUp _, h | .toggleReady _, h | .setFound .., h | .startGame _, h | .sendRoomName .., h
  | .disconnect _, h | .lost _, h => .stays rfl (by rw [(hs.meanwhile rfl h).server])
  | .accepted _, h | .validated _, h => by
    simp only [System.next] at h
    split_ifs at h
    obtain rfl := Option.some.inj h
    exact .stays rfl rfl
  | .drawn _ _, h => by
    obtain rfl := Option.some.inj h
    exact .stays rfl rfl
  | .dropped handler, h => by
    obtain ⟨a, hmessages, ha⟩ := messages_farewell (e := .dropped handler) hs.server rfl
      (by rw [System.sent, Server.handle_disconnected])
    simp only [System.next] at h
    split at h
    · split_ifs at h
      rw [Server.handle_disconnected] at h
      obtain rfl := Option.some.inj h
      exact .stays (hmessages.phases_eq_nil ha) rfl
    · cases h
  | .stopped, h => by
    simp only [System.next] at h
    split_ifs at h
    rw [Server.handle_stopped] at h
    obtain rfl := Option.some.inj h
    exact .stays (hs.messages_stopped.phases_eq_nil rfl) rfl

/-- No `START` is accepted after the lobby. -/
def StartsInLobby (s : System ι) (e : Event ι) : Prop :=
  s.Starts e → s.server.gameState = .lobby

instance (s : System ι) (e : Event ι) : Decidable (s.StartsInLobby e) :=
  inferInstanceAs (Decidable (s.Starts e → _))

/-- The phases go forward. -/
def Forward (gs : List GameState) : Prop := gs.Pairwise fun g g' => g.rank < g'.rank

instance (gs : List GameState) : Decidable (Forward gs) :=
  inferInstanceAs (Decidable (gs.Pairwise _))

omit [DecidableEq ι] in
/-- The phases have gone forward, up to that of the server. -/
theorem Progress.forward (h : Progress s e s') (hstart : s.StartsInLobby e) {gs : List GameState}
    (hgs : Forward gs ∧ ∀ g ∈ gs, g.rank ≤ s.server.gameState.rank) :
    Forward (gs ++ phases (s.announced e)) ∧
      ∀ g ∈ gs ++ phases (s.announced e), g.rank ≤ s'.server.gameState.rank := by
  obtain ⟨hforward, hle⟩ := hgs
  have hnext : ∀ g', s.server.gameState.rank < g'.rank → Forward (gs ++ [g']) ∧
      ∀ g ∈ gs ++ [g'], g.rank ≤ g'.rank := by
    intro g' hrank
    refine ⟨List.pairwise_append.2 ⟨hforward, List.pairwise_singleton .., ?_⟩, ?_⟩
    · rintro g hg _ (_ | ⟨_, ⟨⟩⟩)
      exact (hle g hg).trans_lt hrank
    · intro g hg
      rcases List.mem_append.1 hg with hg | hg
      · exact ((hle g hg).trans_lt hrank).le
      · rw [List.mem_singleton.1 hg]
  cases h with
  | stays hphases hgame =>
    rw [hphases, List.append_nil, hgame]
    exact ⟨hforward, hle⟩
  | undrawn hphases hgame hgame' =>
    rw [hphases, List.append_nil, hgame']
    rw [hgame] at hle
    exact ⟨hforward, fun g hg => (hle g hg).trans (by decide)⟩
  | starts hphases hstarts hgame =>
    rw [hphases, hgame]
    exact hnext _ (by rw [hstart hstarts]; decide)
  | moves hphases hrank =>
    rw [hphases]
    exact hnext _ hrank

/-- The phases that are announced go forward, if no `START` is accepted after the lobby. -/
theorem phases_announced {es : List (Event ι)} (h : (machine ι).IsRun s es)
    (hstart : (machine ι).Along StartsInLobby s es) :
    Forward (phases ((machine ι).trace announced s es)) := by
  have hrun := h.invariant_trace_of_along hstart (f := announced)
    (I := fun s lines => Forward (phases lines) ∧
      ∀ g ∈ phases lines, g.rank ≤ s.server.gameState.rank) ?_ fun s e lines hs hI he hstart => ?_
  · exact hrun.1
  · exact fun _ _ => ⟨.nil, nofun⟩
  · obtain ⟨owner, hs⟩ := inv_of_reachable hs
    rw [phases_append]
    exact (hs.progress (next_of_enabled he)).forward hstart hI

omit [DecidableEq ι] in
/-- Among lines whose phases go forward, a phase is announced by a single line. -/
theorem eq_of_phaseOf {lines : List Text} (h : Forward (phases lines)) {l l' : Text}
    (hl : l ∈ lines) (hl' : l' ∈ lines) {g : GameState} (hg : phaseOf l = some g)
    (hg' : phaseOf l' = some g) : l = l' := by
  have hpairwise : lines.Pairwise fun l l' =>
      phaseOf l = some g → phaseOf l' = some g → l = l' := by
    refine (List.pairwise_filterMap.1 h).imp fun hlt hg hg' => ?_
    exact absurd (hlt g hg g hg') (Nat.lt_irrefl _)
  exact List.Pairwise.forall_of_forall_of_flip (fun _ _ _ _ => rfl) hpairwise
    (hpairwise.imp fun heq hg' hg => (heq hg hg').symm) hl hl' hg hg'

/-- The last phase that lines announce, from the lobby on. -/
def lastPhase (lines : List Text) : GameState := (phases lines).getLast?.getD .lobby

/-- The last phase that lines announce is that of the server, unless this is a death match that
    could not be drawn. -/
def TellsPhase (s : System ι) (lines : List Text) : Prop :=
  s.server.gameState = lastPhase lines ∨
    lastPhase lines = .mainGame ∧ s.server.gameState = .deathMatch

omit [DecidableEq ι] in
theorem Progress.tellsPhase (h : Progress s e s') {lines : List Text}
    (htells : s.TellsPhase lines) : s'.TellsPhase (lines ++ s.announced e) := by
  have hsame : phases (s.announced e) = [] →
      lastPhase (lines ++ s.announced e) = lastPhase lines := by
    intro hnil
    rw [lastPhase, phases_append, hnil, List.append_nil, ← lastPhase]
  have hnext : ∀ g, phases (s.announced e) = [g] → lastPhase (lines ++ s.announced e) = g := by
    intro g hone
    rw [lastPhase, phases_append, hone, List.getLast?_concat]
    rfl
  cases h with
  | stays hphases hgame => rwa [TellsPhase, hsame hphases, hgame]
  | undrawn hphases hgame hgame' =>
    rw [TellsPhase, hsame hphases]
    rcases htells with hlast | ⟨-, hgame''⟩
    · exact .inr ⟨hlast.symm.trans hgame, hgame'⟩
    · exact absurd (hgame.symm.trans hgame'') (by decide)
  | starts hphases _ hgame => exact .inl (hgame.trans (hnext _ hphases).symm)
  | moves hphases => exact .inl (hnext _ hphases).symm

/-- A client with a player, whose connection has been accepted in the lobby, and lasts, has been
    told the phase of the server, once it has read what is written to it, unless this is a death
    match that could not be drawn. -/
theorem phase_known {before after : List (Event ι)}
    (h : (machine ι).IsRun s (before ++ .accepted k :: after)) {i : ι}
    (hlobby : ((machine ι).after s before).server.gameState = .lobby)
    (hears : ((machine ι).after s (before ++ .accepted k :: after)).Hears i k c) :
    ((machine ι).after s (before ++ .accepted k :: after)).TellsPhase
      ((machine ι).trace (heard i) ((machine ι).after s (before ++ [.accepted k])) after ++
        c.toClient.lines) := by
  have hall := (hearsAll_after h i).of_hears hears
  have hsplit : before ++ .accepted k :: after = (before ++ [.accepted k]) ++ after := by simp
  rw [hsplit] at h ⊢
  obtain ⟨hbefore, hafter⟩ := Machine.along_append.1 h.enabled
  have hreach := (h.of_prefix (List.prefix_append ..)).reachable
  obtain ⟨hbefore, henabled, -⟩ := Machine.along_append.1 hbefore
  obtain ⟨owner, hs⟩ := inv_of_reachable (Machine.IsRun.mk h.init hbefore).reachable
  have hstart : ((machine ι).after s (before ++ [.accepted k])).TellsPhase [] := by
    rw [Machine.after_append]
    have hphase : ((machine ι).after s before).TellsPhase [] := .inl hlobby
    exact (hs.progress (next_of_enabled henabled)).tellsPhase hphase
  have htells := hreach.invariant_traces hafter (f := announced) (g := announced)
    (I := fun s lines _ => s.TellsPhase lines) hstart fun s e lines _ hs htells he => by
      obtain ⟨owner, hs⟩ := inv_of_reachable hs
      exact (hs.progress (next_of_enabled he)).tellsPhase htells
  rw [← Machine.after_append, ← hall] at htells
  rwa [TellsPhase, lastPhase, phases_append, ← phases_announcements c.toClient.lines,
    ← phases_append, ← lastPhase]

/-! ## A sample run -/

/-- The host has been told that the main game has begun. -/
theorem sampleRun_phase_known : ∃ c,
    ((machine SampleClient).after sampleSystem sampleRun).Hears .host host c ∧
      ((machine SampleClient).after sampleSystem sampleRun).TellsPhase
        ((machine SampleClient).trace (heard .host)
          ((machine SampleClient).after sampleSystem (sampleRun.take 3)) (sampleRun.drop 3) ++
            c.toClient.lines) := by
  obtain ⟨c, hears⟩ := sampleRun_hears
  have htells := @phase_known _ _ _ _ _ (sampleRun.take 2) (sampleRun.drop 3) isRun_sampleRun _
    (by decide +kernel) hears
  exact ⟨c, hears, htells⟩

end System

end Gaze
