import Gaze.System.Events

/-!
# The events of the clients and of the network

What they cannot change, the server doing nothing meanwhile: nothing is added to
what the clients have to read, and a client holds, once it has read all its lines,
the list of players it would have held.

`System.Inv.meanwhile` is the handle for proofs: invariants are then left with the
events of the server.
-/

namespace Gaze

open Java Protocol Client

/-- The list of players, after a line. -/
theorem IsLine.listAfter {known : Text → Prop} {l : Text} (hl : IsLine known l) {c c' : Client}
    {event : Option GameEvent} (h : c.onMessage l = .ok (c', event)) :
    c'.players = Client.listAfter c.players l := by
  rcases hl with hl | ⟨m, hread, -, rfl, -⟩
  · obtain ⟨event', h', -⟩ := onMessage_swallowed hl (c := c)
    rw [h'] at h
    rw [← (Prod.mk.inj (Except.ok.inj h)).1, listAfter_swallowed hl]
  · rw [onMessage_line hread] at h
    rw [listAfter_line hread, ← received_players, Except.ok.inj h]

namespace System

variable {ι : Type}

/-- Client `i` listens to an admitted connection, which is not lost. -/
structure Hears (s : System ι) (i : ι) (handler : ClientHandler) (c : Connection ι) : Prop where
  stage : (s.client i).stage = .listening handler
  get : s.connections.get handler = some c
  up : c.up = true
  admitted : c.admitted = true

/-- The server has done nothing meanwhile. -/
structure Meanwhile (s s' : System ι) : Prop where
  server : s'.server = s.server
  stopping : s'.stopping = s.stopping
  kept : ∀ k c, s.connections.get k = some c → ∃ c', s'.connections.get k = some c' ∧
    c'.client = c.client ∧ c'.admitted = c.admitted
  /-- A connection is new, or was already there. -/
  connection : ∀ k c', s'.connections.get k = some c' →
    c'.admitted = false ∧ c'.toClient.lines = [] ∨ ∃ c, s.connections.get k = some c ∧
      c'.client = c.client ∧ c'.admitted = c.admitted ∧ c'.toClient.lines ⊆ c.toClient.lines
  hears : ∀ i k c', s'.Hears i k c' → ∃ c, s.Hears i k c ∧
    view (s'.client i).players c'.toClient.lines = view (s.client i).players c.toClient.lines

namespace Meanwhile

variable {s s' s'' : System ι}

theorem refl (s : System ι) : Meanwhile s s :=
  ⟨rfl, rfl, fun _ c hc => ⟨c, hc, rfl, rfl⟩, fun _ c hc => .inr ⟨c, hc, rfl, rfl, fun _ h => h⟩,
    fun _ _ c h => ⟨c, h, rfl⟩⟩

theorem trans (h : Meanwhile s s') (h' : Meanwhile s' s'') : Meanwhile s s'' where
  server := h'.server.trans h.server
  stopping := h'.stopping.trans h.stopping
  kept k c hc := by
    obtain ⟨c', hc', hclient, hadmitted⟩ := h.kept k c hc
    obtain ⟨c'', hc'', hclient', hadmitted'⟩ := h'.kept k c' hc'
    exact ⟨c'', hc'', hclient'.trans hclient, hadmitted'.trans hadmitted⟩
  connection k c'' hc'' := by
    rcases h'.connection k c'' hc'' with hnew | ⟨c', hc', hclient', hadmitted', hlines'⟩
    · exact .inl hnew
    · rcases h.connection k c' hc' with ⟨hadmitted, hlines⟩ | ⟨c, hc, hclient, hadmitted, hlines⟩
      · rw [hlines] at hlines'
        exact .inl ⟨hadmitted'.trans hadmitted, List.subset_nil.1 hlines'⟩
      · exact .inr ⟨c, hc, hclient'.trans hclient, hadmitted'.trans hadmitted,
          List.Subset.trans hlines' hlines⟩
  hears i k c'' hc'' := by
    obtain ⟨c', hc', hview'⟩ := h'.hears i k c'' hc''
    obtain ⟨c, hc, hview⟩ := h.hears i k c' hc'
    exact ⟨c, hc, hview'.trans hview⟩

/-- A connection is used by its client, or lost. -/
theorem withConnection {handler : ClientHandler} {f : Connection ι → Connection ι}
    (hf : ∀ c, (f c).client = c.client ∧ (f c).admitted = c.admitted ∧
      (f c).toClient = c.toClient ∧ ((f c).up = true → c.up = true)) :
    Meanwhile s (s.withConnection handler f) := by
  have hget : ∀ k c', (s.withConnection handler f).connections.get k = some c' → ∃ c,
      s.connections.get k = some c ∧ c'.client = c.client ∧ c'.admitted = c.admitted ∧
        c'.toClient = c.toClient ∧ (c'.up = true → c.up = true) := by
    intro k c' hc'
    rw [get_withConnection] at hc'
    split_ifs at hc'
    · obtain ⟨c, hc, rfl⟩ := Option.map_eq_some_iff.1 hc'
      exact ⟨c, hc, hf c⟩
    · exact ⟨c', hc', rfl, rfl, rfl, id⟩
  refine ⟨rfl, rfl, fun k c hc => ?_, fun k c' hc' => .inr ?_, fun i k c' h => ?_⟩
  · rw [get_withConnection, hc]
    split_ifs
    · exact ⟨f c, rfl, (hf c).1, (hf c).2.1⟩
    · exact ⟨c, rfl, rfl, rfl⟩
  · obtain ⟨c, hc, hclient, hadmitted, hstream, -⟩ := hget k c' hc'
    exact ⟨c, hc, hclient, hadmitted, by rw [hstream]; exact fun _ h => h⟩
  · obtain ⟨c, hc, -, hadmitted, hstream, hup⟩ := hget k c' h.get
    exact ⟨c, ⟨h.stage, hc, hup h.up, hadmitted ▸ h.admitted⟩, by rw [hstream]; rfl⟩

theorem say (i : ι) (command : Command) : Meanwhile s (s.say i command) := by
  rw [System.say]
  split
  · exact refl s
  · exact withConnection fun c => by simp

theorem lose (handler : ClientHandler) : Meanwhile s (s.withConnection handler .lose) :=
  withConnection fun _ => ⟨rfl, rfl, rfl, fun h => absurd h (by simp [Connection.lose])⟩

theorem finish (handler : ClientHandler) : Meanwhile s (s.withConnection handler .finish) :=
  withConnection fun _ => ⟨rfl, rfl, rfl, fun h => absurd h (by simp [Connection.finish])⟩

theorem closeIfOver (i : ι) (handler : ClientHandler) :
    Meanwhile s (s.closeIfOver i handler) := by
  rw [System.closeIfOver]
  split_ifs
  · exact lose handler
  · exact refl s

theorem opens {handler : ClientHandler} (hnew : s.connections.get handler = none) (i : ι) :
    Meanwhile s { s with connections := s.connections.put handler (.new i) .id } := by
  have hget : ∀ k c', (s.connections.put handler (.new i) .id).get k = some c' →
      k = handler ∧ c' = .new i ∨ k ≠ handler ∧ s.connections.get k = some c' := by
    intro k c' hc'
    rw [HashMap.get_put] at hc'
    split_ifs at hc' with hk
    · exact .inl ⟨hk, (Option.some.inj hc').symm⟩
    · exact .inr ⟨hk, hc'⟩
  refine ⟨rfl, rfl, fun k c hc => ⟨c, ?_, rfl, rfl⟩, fun k c' hc' => ?_, fun j k c' h => ?_⟩
  · rw [HashMap.get_put, if_neg]
    · exact hc
    · rintro rfl
      exact absurd (hnew.symm.trans hc) (by simp)
  · rcases hget k c' hc' with ⟨-, rfl⟩ | ⟨-, hc⟩
    · exact .inl ⟨rfl, rfl⟩
    · exact .inr ⟨c', hc, rfl, rfl, fun _ h => h⟩
  · rcases hget k c' h.get with ⟨-, rfl⟩ | ⟨-, hc⟩
    · exact absurd h.admitted (by simp [Connection.new])
    · exact ⟨c', ⟨h.stage, hc, h.up, h.admitted⟩, rfl⟩

variable [DecidableEq ι]

/-- A client changes, but not the list it holds if it hears the server. -/
theorem withClient {i : ι} {c : Client}
    (hc : ∀ k, c.stage = .listening k →
      (s.client i).stage = .listening k ∧ c.players = (s.client i).players ∨
        ∀ c₀, s.connections.get k = some c₀ → c₀.admitted = false) :
    Meanwhile s (s.withClient i c) := by
  refine ⟨rfl, rfl, fun k c hc => ⟨c, hc, rfl, rfl⟩,
    fun k c hc => .inr ⟨c, hc, rfl, rfl, fun _ h => h⟩, fun j k c' h => ⟨c', ?_⟩⟩
  by_cases hj : j = i
  · subst hj
    have hstage := h.stage
    rw [client_withClient] at hstage ⊢
    rcases hc k hstage with ⟨hlistening, hplayers⟩ | hnot
    · exact ⟨⟨hlistening, h.get, h.up, h.admitted⟩, by rw [hplayers]⟩
    · exact absurd h.admitted (by rw [hnot c' h.get]; decide)
  · have hstage := h.stage
    rw [client_withClient_of_ne hj] at hstage ⊢
    exact ⟨⟨hstage, h.get, h.up, h.admitted⟩, rfl⟩

/-- A client that is not listening any more. -/
theorem withClient_of_stage {i : ι} {c : Client} (h : ∀ k, c.stage ≠ .listening k) :
    Meanwhile s (s.withClient i c) := withClient fun k hk => absurd hk (h k)

/-- A client reads a line. -/
theorem reads {owner : Text → Option ι} (hs : Inv owner s) {i : ι} {handler : ClientHandler}
    {c : Connection ι} (hstage : (s.client i).stage = .listening handler)
    (hc : s.connections.get handler = some c) {l : Text} {lines : List Text}
    (hl : c.toClient.lines = l :: lines) {c' : Client} {event : Option GameEvent}
    (honMessage : (s.client i).onMessage l = .ok (c', event)) :
    Meanwhile s ((s.withConnection handler fun c => c.read lines).withClient i
      c'.afterMessage) := by
  have hlistening := (hs.reads hstage hc hl honMessage).1
  have hplayers : c'.afterMessage.players = listAfter (s.client i).players l := by
    have hafter : c'.afterMessage.players = c'.players := by
      rw [afterMessage]
      split_ifs <;> rfl
    rw [hafter, ((hs.sound handler c hc).lines l (by simp [hl])).listAfter honMessage]
  have hget : ∀ k c', (s.withConnection handler fun c => c.read lines).connections.get k = some c' →
      k = handler ∧ c' = c.read lines ∨ k ≠ handler ∧ s.connections.get k = some c' := by
    intro k c' hc'
    rw [get_withConnection] at hc'
    split_ifs at hc' with hk
    · subst hk
      rw [hc] at hc'
      exact .inl ⟨rfl, (Option.some.inj hc').symm⟩
    · exact .inr ⟨hk, hc'⟩
  refine ⟨rfl, rfl, fun k c₀ hc₀ => ?_, fun k c'' hc'' => .inr ?_, fun j k c'' h => ?_⟩
  · by_cases hk : k = handler
    · subst hk
      obtain rfl := Option.some.inj (hc.symm.trans hc₀)
      exact ⟨c.read lines, by simp [System.withClient, hc], rfl, rfl⟩
    · exact ⟨c₀, by simp [System.withClient, hk, hc₀], rfl, rfl⟩
  · rcases hget k c'' hc'' with ⟨rfl, rfl⟩ | ⟨-, hc₀⟩
    · exact ⟨c, hc, rfl, rfl, hl ▸ List.subset_cons_self ..⟩
    · exact ⟨c'', hc₀, rfl, rfl, fun _ h => h⟩
  · have hclient : ∀ j k c, (s.client j).stage = .listening k → s.connections.get k = some c →
        c.client = j := by
      intro j k c hj hk
      obtain ⟨c₀, hc₀, hclient⟩ := hs.out j k (by rw [Client.out, hj])
      rwa [Option.some.inj (hk.symm.trans hc₀)]
    have hstage' := h.stage
    -- The line that has been read is the first of those that were to be.
    by_cases hj : j = i
    · subst hj
      rw [client_withClient] at hstage' ⊢
      have hk : handler = k := by
        rw [afterMessage] at hstage'
        split_ifs at hstage'
        exact Stage.listening.inj (hstage.symm.trans (hlistening.symm.trans hstage'))
      rcases hget k c'' h.get with ⟨rfl, rfl⟩ | ⟨hne, -⟩
      · refine ⟨c, ⟨hstage, hc, h.up, h.admitted⟩, ?_⟩
        rw [hplayers, hl]
        rfl
      · exact absurd hk.symm hne
    · rw [client_withClient_of_ne hj] at hstage' ⊢
      rcases hget k c'' h.get with ⟨rfl, rfl⟩ | ⟨-, hc₀⟩
      · exact absurd ((hclient j k c hstage' hc).symm.trans (hclient i k c hstage hc)) hj
      · exact ⟨c'', ⟨hstage', hc₀, h.up, h.admitted⟩, rfl⟩

end Meanwhile

variable [DecidableEq ι] {s s' : System ι} {owner : Text → Option ι}

/-- During the events of the clients and of the network, the server does nothing. -/
theorem Inv.meanwhile (hs : Inv owner s) {e : Event ι} (he : e.isOfServer = false)
    (hnext : s.next e = some s') : Meanwhile s s' := by
  cases hs.acting he hnext with
  | connectServer => exact .withClient_of_stage (by simp [Client.connectServer])
  | opens i handler _ hnew =>
    exact (Meanwhile.opens hnew i).trans (.withClient_of_stage (by simp))
  | refused | hangsUp => exact .withClient_of_stage (by simp [Client.failed])
  | introduces i handler hstage =>
    refine ((Meanwhile.withClient fun k hk => .inr fun c hc => ?_).trans
      (.withConnection fun c => by simp)).trans (.closeIfOver i handler)
    -- The connection has not been introduced yet.
    obtain ⟨c', hc', rfl⟩ := hs.out i handler (by rw [Client.out, hstage])
    rw [introduced] at hk
    dsimp only at hk
    split_ifs at hk
    obtain rfl := Stage.listening.inj hk
    obtain rfl := Option.some.inj (hc.symm.trans hc')
    have hone := (hs.sound handler c hc).introductions
    by_contra hadmitted
    simp only [Connection.introductions, if_pos hstage,
      if_pos (Bool.eq_true_of_not_eq_false hadmitted)] at hone
    omega
  | reads i handler c l lines c' event hstage hc hl honMessage =>
    exact (Meanwhile.reads hs hstage hc hl honMessage).trans (.closeIfOver i handler)
  | toggleReady | setFound | startGame | sendRoomName => exact .say ..
  | disconnect i =>
    refine (Meanwhile.say i .quit).trans (.withClient fun k hk => .inl ?_)
    rw [client_say]
    exact ⟨hk, rfl⟩
  | lost handler => exact .lose handler

end System

end Gaze
