import Gaze.System.Pending

/-!
# What becomes of the finds

The server counts a find when it reads it from the connection the player of its
client is bound to. A find that is reported is on its way, has been counted once,
or is lost: without a connection nothing is sent, nor sent again later, and when a
client reconnects, or its handler ends, what it has written before may be left
unread, or read from a connection that is not its player's any more.

* `System.Counted`: how many finds of a client the server has counted.
* `System.Inv.counted_next`: an event only moves the finds of a client from those on
  their way to those that are counted, or lost.
* `System.finds_counted`: when no message is in flight, the finds of a player are those
  its client has reported, except those that are lost.
-/

namespace Gaze

open Java Protocol

namespace System

variable {ι : Type} [DecidableEq ι] {s s' : System ι} {owner : Text → Option ι} {i : ι} {n : ℕ}

/-- The finds a client reports in an event. -/
def called (i : ι) : Event ι → ℕ
  | .setFound j _ => if j = i then 1 else 0
  | _ => 0

/-- The finds of a client that are lost in an event: it cannot write, or they are read
    from a handler without player, or left unread when their handler ends. -/
def lostFinds (s : System ι) (i : ι) : Event ι → ℕ
  | .setFound j _ => if j = i ∧ s.canWrite i = false then 1 else 0
  | .serves handler choice =>
    match s.connections.get handler with
    | some c =>
      match c.toServer with
      | command :: commands =>
        if c.client = i then
          (if command.isFind ∧ (s.server.players.get handler).isNone then 1 else 0) +
            match (s.server.handle (.received handler command.line choice)).result with
            | .ok _ => 0
            | .error _ => commands.countP Command.isFind
        else 0
      | [] => 0
    | none => 0
  | .dropped handler =>
    match s.connections.get handler with
    | some c => if c.client = i then c.toServer.countP Command.isFind else 0
    | none => 0
  | _ => 0

/-- How many times the client has called `setFound`. -/
def calls (s : System ι) (es : List (Event ι)) (i : ι) : ℕ :=
  (machine ι).total (fun _ => called i) s es

/-- How many finds of the client have been lost. -/
def losses (s : System ι) (es : List (Event ι)) (i : ι) : ℕ :=
  (machine ι).total (fun s => s.lostFinds i) s es

/-- The server has counted `n` finds of the client. -/
structure Counted (s : System ι) (i : ι) (n : ℕ) : Prop where
  player : ∀ k c p, s.connections.get k = some c → c.client = i →
    s.server.players.get k = some p → p.nbFoundAnamorphosis = Int32.ofNat n
  unadmitted : ¬s.Admitted i → n = 0

/-! ## Events that count nothing -/

omit [DecidableEq ι] in
theorem Counted.of_stays (h : s.Counted i n) (hs : Inv owner s) (hstays : s.Stays s') :
    s'.Counted i n where
  player k c' p hc' hi hp' := by
    have hp := hstays.players k p hp'
    obtain ⟨c₀, hc₀, -⟩ := hs.bound k p hp
    obtain ⟨c, hc, hclient, -⟩ := hstays.connection hc' (.inl (by simp [hc₀]))
    exact h.player k c p hc (hclient.symm.trans hi) hp
  unadmitted hnot := by
    refine h.unadmitted ?_
    rintro ⟨k, c, hc, hi, hadmitted⟩
    refine hnot ?_
    obtain ⟨c', hc', hclient, hadmitted'⟩ := hstays.kept k c hc
    exact ⟨k, c', hc', hclient.trans hi, hadmitted'.trans hadmitted⟩

/-- A find is written, or lost. -/
theorem written_add_lostFinds {e : Event ι} (he : e.isOfServer = false) :
    s.written Command.isFind i e + s.lostFinds i e = called i e := by
  cases e with
  | setFound j anamorphosis =>
    by_cases hj : j = i
    · cases hcan : s.canWrite i <;>
        simp [written, said, lostFinds, called, Command.isFind, hj, hcan]
    · simp [written, said, lostFinds, called, hj]
  | introduces j =>
    have hintro : (s.client j).introduction.isFind = false := by
      rw [Client.introduction]
      split_ifs <;> rfl
    simp [written, said, lostFinds, called, hintro]
  | toggleReady | startGame | sendRoomName | disconnect =>
    simp [written, said, lostFinds, called, Command.isFind]
  | connectServer | opens | refused | reads | hangsUp | lost => rfl
  | accepted | serves | dropped | stopped | validated | drawn =>
    exact absurd he (by simp [Event.isOfServer])

/-! ## Serving a command -/

section Serving

variable {handler : ClientHandler} {choice : Choice} {c : Connection ι} {command : Command}
  {commands : List Command} {server : Server} {ms : List Server.Message} {ok : Bool}

/-- The finds of a client that are lost when a command is served. -/
theorem Serving.lostFinds (h : Serving s handler choice s' c command commands server ms ok) :
    s.lostFinds i (.serves handler choice) = if c.client = i then
      (if command.isFind ∧ (s.server.players.get handler).isNone then 1 else 0) +
        (if ok then 0 else commands.countP Command.isFind) else 0 := by
  rw [System.lostFinds]
  simp only [h.get, h.toServer]
  have hresult := h.result
  cases hr : (s.server.handle (.received handler command.line choice)).result with
  | ok u =>
    rw [hresult.1 hr]
    rfl
  | error e =>
    have hok : ok = false := by
      by_contra hok
      exact absurd (hr.symm.trans (hresult.2 (Bool.eq_true_of_not_eq_false hok))) (by simp)
    rw [hok]
    rfl

/-- The finds of a client that are counted when a command is served: the one that is
    read, if a player is bound to the handler. -/
theorem Serving.counted (h : Serving s handler choice s' c command commands server ms ok)
    (hs : Inv owner s) (hone : s.OnePlayer) (hcounted : s.Counted i n) : s'.Counted i
      (n + if c.client = i ∧ command.isFind ∧ (s.server.players.get handler).isSome then 1
        else 0) where
  player k c' p hc' hi hp := by
    rw [h.after.1] at hp
    obtain ⟨c₀, hc₀, hclient, -⟩ := h.connection hc'
    have hi₀ : c₀.client = i := hclient.symm.trans hi
    cases h.served.binding hp with
    | kept q hq hid hnb =>
      have hn := hcounted.player k c₀ q hc₀ hi₀ hq
      -- A client has one player, so that its find is that of the handler.
      have hiff : (c.client = i ∧ command.isFind ∧ (s.server.players.get handler).isSome) ↔
          k = handler ∧ command.isFind := by
        constructor
        · rintro ⟨hclient', hfind, hsome⟩
          obtain ⟨q', hq'⟩ := Option.isSome_iff_exists.1 hsome
          exact ⟨hone.single k handler q q' c₀ c hq hq' hc₀ h.get (hi₀.trans hclient'.symm), hfind⟩
        · rintro ⟨rfl, hfind⟩
          obtain rfl := Option.some.inj (h.get.symm.trans hc₀)
          exact ⟨hi₀, hfind, by simp [hq]⟩
      rw [hnb, hn]
      simp only [hiff]
      split_ifs
      · rw [Int32.ofNat_add]
        rfl
      · simp
    | created name hk hcommand hnew =>
      subst hk hcommand hnew
      obtain rfl := Option.some.inj (h.get.symm.trans hc₀)
      have hpending := h.pending (q := Command.isConnect) i
      -- A client asks for a player once, before it has one: nothing has been counted for it.
      have hnot : ¬s.Admitted i := by
        intro hadmitted
        have hzero := hone.admitted i hadmitted
        rw [System.requests] at hzero
        simp only [hi₀, if_true, Command.isConnect] at hpending
        omega
      rw [hcounted.unadmitted hnot]
      simp [Command.isFind, Player.new]
    | moved id k₀ hk hcommand hold hformat =>
      subst hk hcommand
      obtain rfl := Option.some.inj (h.get.symm.trans hc₀)
      -- The player comes from another connection of the same client.
      obtain ⟨c₂, hc₂, -, howner⟩ := hs.bound k₀ p hold
      have howner' := hs.owner_of_format h.get hold (h.toServer ▸ List.mem_cons_self ..) hformat
      have hclient₂ : c₂.client = i := (Option.some.inj (howner.symm.trans howner')).trans hi₀
      rw [hcounted.player k₀ c₂ p hc₂ hclient₂ hold]
      simp [Command.isFind]
  unadmitted hnot := by
    have hnot₀ : ¬s.Admitted i := by
      rintro ⟨k, c₀, hc₀, hi₀, hadmitted⟩
      obtain ⟨c', hc', hclient, hadmitted'⟩ := h.kept hc₀
      exact hnot ⟨k, c', hc', hclient.trans hi₀, hadmitted' hadmitted⟩
    rw [hcounted.unadmitted hnot₀, if_neg]
    rintro ⟨hclient, -, hsome⟩
    obtain ⟨q, hq⟩ := Option.isSome_iff_exists.1 hsome
    obtain ⟨c₁, hc₁, hadmitted, -⟩ := hs.bound handler q hq
    obtain rfl := Option.some.inj (h.get.symm.trans hc₁)
    exact hnot₀ ⟨handler, c, hc₁, hclient, hadmitted⟩

end Serving

/-! ## All the events -/

/-- The finds of a client that are on its way or reported move to those that are counted or
    lost, or stay on their way. -/
theorem Inv.counted_next (hs : Inv owner s) (hone : s.OnePlayer) {e : Event ι}
    (hnext : s.next e = some s') (hcounted : s.Counted i n) : ∃ m, s'.Counted i (n + m) ∧
      s'.pending Command.isFind i + m + s.lostFinds i e =
        s.pending Command.isFind i + called i e := by
  cases he : e.isOfServer with
  | false =>
    refine ⟨0, hcounted.of_stays hs (hs.meanwhile he hnext).stays, ?_⟩
    have hpending := hs.pending_next (q := Command.isFind) i he hnext
    have hwritten := written_add_lostFinds (s := s) (i := i) he
    omega
  | true =>
    cases hs.answering he hnext with
    | served handler choice _ c command commands server ms ok hserving =>
      refine ⟨_, hserving.counted hs hone hcounted, ?_⟩
      have hpending := hserving.pending (q := Command.isFind) i
      -- The find that is read is counted if a player is bound to the handler, and lost otherwise.
      have hread : (if c.client = i ∧ command.isFind ∧ (s.server.players.get handler).isSome then
          1 else 0) + (if c.client = i ∧ command.isFind ∧ (s.server.players.get handler).isNone
          then 1 else 0) = if c.client = i ∧ command.isFind then 1 else 0 := by
        cases s.server.players.get handler <;> simp
      rw [hserving.lostFinds]
      by_cases hclient : c.client = i
      · simp only [hclient, true_and, if_true, called] at hread hpending ⊢
        omega
      · simp only [hclient, false_and, if_false, called] at hpending ⊢
        omega
    | silent _ server hsilent hplayers =>
      refine ⟨0, hcounted.of_stays hs (.serverDoes [] fun k p hp => hplayers ▸ hp), ?_⟩
      rw [pending_serverDoes]
      cases e with
      | accepted | validated | drawn => rfl
      | _ => exact absurd hsilent (by simp [Event.isSilent])
    | dropped handler haccepted =>
      obtain ⟨c, hc⟩ := hs.accepted handler haccepted
      refine ⟨0, hcounted.of_stays hs (.answering (.dropped handler haccepted) (by simp)), ?_⟩
      -- What has not been read when a handler ends is lost.
      have hdropped := pending_dropped (q := Command.isFind) hc s.server
        (Server.wire (s.server.farewell handler)) i
      simp only [lostFinds, hc, called]
      omega
    | stopped =>
      refine ⟨0, hcounted.of_stays hs (.answering .stopped (by simp)), ?_⟩
      exact pending_serverDoes (s.server.withPlayers .empty) _ i

/-- When no message is in flight, an admitted client has a player, whose finds are those
    the client has reported, except those that are lost. -/
theorem finds_counted {es : List (Event ι)} (h : (machine ι).IsRun s es)
    (hquiescent : ((machine ι).after s es).Quiescent) (i : ι) :
    (((machine ι).after s es).stopping = false → ((machine ι).after s es).Admitted i →
        ∃ p, ((machine ι).after s es).IsPlayerOf i p) ∧ s.losses es i ≤ s.calls es i ∧
      ∀ p, ((machine ι).after s es).IsPlayerOf i p →
        p.nbFoundAnamorphosis = Int32.ofNat (s.calls es i - s.losses es i) := by
  obtain ⟨n, hcounted, hbalance⟩ : ∃ n, ((machine ι).after s es).Counted i n ∧
      s.calls es i = s.losses es i + n + ((machine ι).after s es).pending Command.isFind i := by
    refine h.invariant_total (I := fun s calls losses => ∃ n, s.Counted i n ∧
      calls = losses + n + s.pending Command.isFind i) ?_ ?_
    · rintro _ ⟨server, hserver, rfl⟩
      refine ⟨0, ⟨fun k c p hc => absurd hc (by simp [new]), fun _ => rfl⟩, ?_⟩
      rw [pending_new]
    -- Calls are counted, lost or on their way: each event keeps the balance.
    · rintro s e calls losses hreach ⟨n, hcounted, rfl⟩ he
      obtain ⟨owner, hs⟩ := inv_of_reachable hreach
      obtain ⟨m, hcounted', hbalance⟩ :=
        hs.counted_next (onePlayer_of_reachable hreach) (next_of_enabled he) hcounted
      exact ⟨n + m, hcounted', by omega⟩
  rw [hquiescent.pending, Nat.add_zero] at hbalance
  refine ⟨fun hrunning => havePlayers_of_reachable h.reachable hrunning i, by omega, ?_⟩
  rintro p ⟨k, c, hc, hi, hp⟩
  rw [hcounted.player k c p hc hi hp]
  congr 1
  omega

/-- A find of the samples. -/
def sampleFind : Anamorphosis := ⟨0, .easy, "a".toList⟩

/-- The host finds an anamorphosis. -/
def foundRun : List (Event SampleClient) :=
  sampleRun ++ [.setFound .host sampleFind, .serves host (Server.sampleChoice 7), .reads .host,
    .reads .guest]

theorem foundRun_counted : ∃ p,
    ((machine SampleClient).after sampleSystem foundRun).IsPlayerOf .host p ∧
      p.nbFoundAnamorphosis = 1 := by
  have hrun : (machine SampleClient).IsRun sampleSystem foundRun :=
    ⟨⟨_, ⟨_, _, rfl⟩, rfl⟩, by decide +kernel⟩
  obtain ⟨hquiescent, hstopping, hconnection⟩ :
      ((machine SampleClient).after sampleSystem foundRun).Quiescent ∧
      ((machine SampleClient).after sampleSystem foundRun).stopping = false ∧
      (((machine SampleClient).after sampleSystem foundRun).connections.get host).any
        (fun c => c.client = .host && c.admitted) = true := by decide +kernel
  obtain ⟨c, hc, hall⟩ := (Option.any_eq_true ..).1 hconnection
  obtain ⟨hclient, hadmitted⟩ : c.client = .host ∧ c.admitted = true := by simpa using hall
  obtain ⟨hplayer, -, hcounted⟩ := finds_counted hrun hquiescent .host
  obtain ⟨p, hp⟩ := hplayer hstopping ⟨host, c, hc, hclient, hadmitted⟩
  have hcounts :
      sampleSystem.calls foundRun .host = 1 ∧ sampleSystem.losses foundRun .host = 0 := by
    decide +kernel
  exact ⟨p, hp, by rw [hcounted p hp, hcounts.1, hcounts.2]; rfl⟩

/-- From the state `s` on, each find of the clients that hear the server is counted once. -/
def FindsKept (s : System ι) (game : List (Event ι)) : Prop :=
  ∀ i k c p, ((machine ι).after s game).Hears i k c →
    ((machine ι).after s game).server.players.get k = some p →
    p.nbFoundAnamorphosis = Int32.ofNat (s.calls game i)

/-- The host loses its connection, finds an anamorphosis before it reconnects, and
    reconnects. -/
def lostFind : List (Event SampleClient) :=
  readsStart ++ [.lost host, .hangsUp .host, .setFound .host sampleFind] ++
    reconnects .host host hostAgain

/-- The state in which the game of the samples starts. -/
def sampleGame : System SampleClient :=
  (machine SampleClient).after sampleSystem (lobbyRun ++ hostStarts)

/-- The find is not counted, though the `RECONNECT` has been accepted and no message is in
    flight. -/
theorem find_lost : ¬∀ s es game, (machine SampleClient).IsRun s (es ++ game) →
    (∀ i, s.calls es i = 0) →
    (machine SampleClient).Along (fun s _ => s.server.gameState = .mainGame)
      ((machine SampleClient).after s es) game →
    ((machine SampleClient).after s (es ++ game)).server.gameState = .mainGame →
    ((machine SampleClient).after s (es ++ game)).Quiescent →
    ((machine SampleClient).after s es).FindsKept game := by
  intro h
  have hrun : (machine SampleClient).IsRun sampleSystem ((lobbyRun ++ hostStarts) ++ lostFind) :=
    ⟨⟨_, ⟨_, _, rfl⟩, rfl⟩, by decide +kernel⟩
  have hcalls : ∀ i, sampleSystem.calls (lobbyRun ++ hostStarts) i = 0 := by
    intro i
    cases i <;> decide +kernel
  obtain ⟨hgame, hmain, hquiescent⟩ :
      (machine SampleClient).Along (fun s _ => s.server.gameState = .mainGame) sampleGame lostFind ∧
      ((machine SampleClient).after sampleSystem
        ((lobbyRun ++ hostStarts) ++ lostFind)).server.gameState = .mainGame ∧
      ((machine SampleClient).after sampleSystem
        ((lobbyRun ++ hostStarts) ++ lostFind)).Quiescent := by decide +kernel
  obtain ⟨hstage, hhears, hplayer⟩ :
      (((machine SampleClient).after sampleGame lostFind).client .host).stage =
        .listening hostAgain ∧
      (((machine SampleClient).after sampleGame lostFind).connections.get hostAgain).any
        (fun c => c.up && c.admitted) = true ∧
      (((machine SampleClient).after sampleGame lostFind).server.players.get hostAgain).any
        (fun p => p.nbFoundAnamorphosis = 0) = true := by decide +kernel
  obtain ⟨c, hc, hall⟩ := (Option.any_eq_true ..).1 hhears
  obtain ⟨hup, hadmitted⟩ : c.up = true ∧ c.admitted = true := by simpa using hall
  obtain ⟨p, hp, hzero⟩ := (Option.any_eq_true ..).1 hplayer
  have hkept : sampleGame.FindsKept lostFind := h _ _ _ hrun hcalls hgame hmain hquiescent
  have hone := hkept .host hostAgain c p ⟨hstage, hc, hup, hadmitted⟩ hp
  exact absurd ((of_decide_eq_true hzero).symm.trans hone) (by decide +kernel)

end System

end Gaze
