import Gaze.Server.Answers

/-!
# What the server announces

Some messages are sent to all the clients whenever they are sent: the lists of the
players, the phases of the game, and its end. Serving a command, or anything else the
server does, announces one of them at most.

* `Served.announces`: what a command announces, and what it makes of the phase of the game:
  a phase that is announced is the next one, and the phase only changes without being
  announced when the death match cannot be drawn.
-/

namespace Gaze

open Java Protocol

/-- How far a phase is in the game. -/
def GameState.rank : GameState → ℕ
  | .lobby => 0
  | .mainGame => 1
  | .deathMatch => 2
  | .ended => 3

namespace ServerMessage

/-- Is the message sent to all the clients, whenever it is? -/
def isAnnouncement : ServerMessage → Bool
  | players _ | start | deathMatch _ _ | finished _ | serverStopped => true
  | id _ | roomName _ | notReady | alreadyStarted | unknownId => false

/-- The phase of the game that the message announces. -/
def phase : ServerMessage → Option GameState
  | start => some .mainGame
  | deathMatch _ _ => some .deathMatch
  | finished _ => some .ended
  | _ => none

theorem isAnnouncement_of_isRefusal {m : ServerMessage} (h : m.isRefusal = true) :
    m.isAnnouncement = false := by
  cases m with
  | alreadyStarted | unknownId => rfl
  | _ => exact absurd h (by simp [isRefusal])

end ServerMessage

namespace Server

/-- The clients are all sent the announcement, if there is one, and nobody is sent any other. -/
def Announces (clients : List ClientHandler) (ms : List Message) (a : Option ServerMessage) :
    Prop :=
  ∀ k, (messagesTo k ms).filter ServerMessage.isAnnouncement =
    if k ∈ clients then a.toList else []

variable {s s' : Server} {handler : ClientHandler} {choice : Choice} {c : Command}
  {ms : List Message} {ok : Bool}

theorem Announces.nil (clients : List ClientHandler) : Announces clients [] none := fun k => by
  rw [messagesTo_nil]
  split_ifs <;> rfl

theorem announces_announce (hs : s.clients.Nodup) {m : ServerMessage} (hm : m.isAnnouncement) :
    Announces s.clients (s.announce m) (some m) := fun k => by
  rw [messagesTo_announce hs]
  split_ifs
  · simp [hm]
  · rfl

theorem announces_announce_of_not (hs : s.clients.Nodup) {m : ServerMessage}
    (hm : m.isAnnouncement = false) : Announces s.clients (s.announce m) none := fun k => by
  rw [messagesTo_announce hs]
  split_ifs
  · simp [hm]
  · rfl

/-- A message for one handler is no announcement. -/
theorem Announces.cons {clients : List ClientHandler} {a : Option ServerMessage}
    {m : ServerMessage} (hm : m.isAnnouncement = false) (h : Announces clients ms a) :
    Announces clients ((handler, m) :: ms) a := fun k => by
  rw [← h k, messagesTo_cons]
  split_ifs
  · rw [List.filter_cons_of_neg (by simp [hm])]
  · rfl

/-- What an announcement makes of the phase of the game. -/
inductive Phasing (c : Command) (ok : Bool) : GameState → GameState → Option ServerMessage → Prop
  /-- The phase stays. -/
  | stays (g : GameState) (a : Option ServerMessage) : a.bind ServerMessage.phase = none →
      Phasing c ok g g a
  | starts (g : GameState) : c = .start → Phasing c ok g .mainGame (some .start)
  /-- The next phase is announced. -/
  | moves (g g' : GameState) (m : ServerMessage) : g.rank < g'.rank → m.phase = some g' →
      Phasing c ok g g' (some m)
  /-- The death match cannot be drawn. -/
  | undrawn : ok = false → Phasing c ok .mainGame .deathMatch none

/-- What a command announces, and what it makes of the phase. -/
theorem Served.announces (h : Served s handler choice c s' ms ok) (hs : s.clients.Nodup) :
    ∃ a, Announces s.clients ms a ∧ Phasing c ok s.gameState s'.gameState a := by
  have hcredited : ∀ d, (s.credited handler d).clients = s.clients := fun _ => rfl
  cases h with
  | accepted name =>
    exact ⟨_, ((announces_announce (s := s.connected handler name choice) hs rfl).cons
      rfl).cons rfl, .stays _ _ rfl⟩
  | late | unknown | notReady | recognised =>
    exact ⟨none, (Announces.nil _).cons rfl, .stays _ _ rfl⟩
  | ignored | quit | roomKept | foundOutside | foundUnscored =>
    exact ⟨none, .nil _, .stays _ _ rfl⟩
  | ready | found => exact ⟨_, announces_announce hs rfl, .stays _ _ rfl⟩
  | started => exact ⟨_, announces_announce hs rfl, .starts _ rfl⟩
  | roomNamed => exact ⟨none, announces_announce_of_not hs rfl, .stays _ _ rfl⟩
  | foundLast a p hp hphase =>
    refine ⟨_, announces_announce hs rfl, .moves _ _ _ ?_ rfl⟩
    rcases hphase with hphase | hphase
    · rw [hphase]
      exact (by decide : GameState.mainGame.rank < GameState.ended.rank)
    · rw [hphase]
      exact (by decide : GameState.deathMatch.rank < GameState.ended.rank)
  | foundTied a p dict drawn hp hphase =>
    refine ⟨_, announces_announce hs rfl, .moves _ _ _ ?_ rfl⟩
    rw [hphase]
    exact (by decide : GameState.mainGame.rank < GameState.deathMatch.rank)
  | foundUndrawn a p dict hp hphase =>
    refine ⟨none, .nil _, ?_⟩
    rw [hphase]
    exact .undrawn rfl

theorem Served.hasUuids (h : Served s handler choice c s' ms ok) (hs' : s'.WellFormed) :
    ∀ m ∈ ms, m.2.HasUuids := by
  rintro ⟨k, m⟩ hm
  rcases h.messages hs' hm with hnews | ⟨-, -, ⟨p, hp, rfl⟩ | ⟨hrefusal, -⟩⟩
  · exact hnews.hasUuids
  · exact hs'.uuids _ (hs'.issued _ p hp)
  · cases m with
    | alreadyStarted | unknownId => trivial
    | _ => exact absurd hrefusal (by simp [ServerMessage.isRefusal])

/-- When a handler ends, the list of the players is announced, if it had a player. -/
theorem announces_farewell (hs : s.clients.Nodup) :
    ∃ a, Announces s.clients (s.farewell handler) a ∧ a.bind ServerMessage.phase = none := by
  rw [farewell]
  split_ifs
  · exact ⟨_, announces_announce hs rfl, rfl⟩
  · exact ⟨none, .nil _, rfl⟩

end Server

end Gaze
