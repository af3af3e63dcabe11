import Gaze.Client.Sessions

/-!
# When a client may connect again

`connectServer` keeps the client locked, and waits for its last thread to be over. To notify the
listener, this thread needs the lock: once it is to notify it of something, it waits for ever. Else
it reads messages that notify of nothing, and it leaves its loop only if the client is not running
any more: if `disconnect` is called, or if another thread reads that the server has stopped.

* `stuck_next`: as long as `disconnect` is not called, a call that is stuck stays so, whatever
  happens.
* `returns_iff`: a call may return exactly if it is not stuck.
* `waits_in_silence`: even if the client is disconnected, a call that waits for a thread in
  `readLine` does so until a line comes. The end of the connection is not one.
-/

namespace Gaze

open Java Protocol

namespace Sessions

/-- The thread is in the `try` of `Client.run`, and does not wait for the lock. -/
def ThreadStage.isLive : ThreadStage → Bool
  | .opening | .opened | .listening => true
  | .stalled | .notifying | .failing | .sleeping | .ended => false

/-- The thread waits for the lock, to notify the listener. -/
def ThreadStage.isLocked : ThreadStage → Bool
  | .stalled | .notifying | .failing => true
  | .opening | .opened | .listening | .sleeping | .ended => false

variable {A : Type} {s s' : Sessions A} {e : Event A} {t : ℕ} {stage : ThreadStage}

/-- A thread of the client is in its `try`, and does not wait for the lock. -/
def Live (s : Sessions A) (t : ℕ) : Prop := (s.threads[t]?).any ThreadStage.isLive

/-- A thread of the client waits for the lock. -/
def Locked (s : Sessions A) (t : ℕ) : Prop := (s.threads[t]?).any ThreadStage.isLocked

/-- All the other threads are over, or wait for the lock. -/
def Alone (s : Sessions A) (t : ℕ) : Prop :=
  ∀ t' < s.threads.length, t' ≠ t → s.threads[t']? = some .ended ∨ s.Locked t'

/-- A call waits for a thread that waits for the lock; or for one that is in its `try`, of a client
    that is running and has no other thread that can go on. -/
def Stuck (s : Sessions A) : Prop :=
  ∃ call ∈ s.call, ∃ t ∈ call.joined, s.Locked t ∨ s.running = true ∧ s.Live t ∧ s.Alone t

/-- The call may return, without any call of `disconnect`. -/
def Returns (s : Sessions A) : Prop :=
  ∃ es, .disconnects ∉ es ∧ machine.Along machine.Enabled s (es ++ [.connects])

instance (s : Sessions A) (t : ℕ) : Decidable (s.Live t) :=
  inferInstanceAs (Decidable ((s.threads[t]?).any ThreadStage.isLive = true))

instance (s : Sessions A) (t : ℕ) : Decidable (s.Locked t) :=
  inferInstanceAs (Decidable ((s.threads[t]?).any ThreadStage.isLocked = true))

instance (s : Sessions A) (t : ℕ) : Decidable (s.Alone t) :=
  inferInstanceAs
    (Decidable (∀ t' < s.threads.length, t' ≠ t → s.threads[t']? = some .ended ∨ s.Locked t'))

instance (s : Sessions A) : Decidable s.Stuck :=
  inferInstanceAs (Decidable (∃ call ∈ s.call, ∃ t ∈ call.joined,
    s.Locked t ∨ s.running = true ∧ s.Live t ∧ s.Alone t))

/-! ## A call that waits for ever -/

theorem running_onMessage {c c' : Client} {l : Text} (h : c.onMessage l = .ok (c', none)) :
    c'.running = c.running := by
  rw [Client.onMessage] at h
  cases htype : parseInstructionType l with
  | error e => simp [htype, bind, Except.bind] at h
  | ok type =>
    simp only [htype, bind, Except.bind, pure, Except.pure] at h
    split_ifs at h
    all_goals first
      | (obtain ⟨rfl, -⟩ := Prod.mk.inj (Except.ok.inj h); rfl)
      | (split at h <;> simp at h)
      | simp at h

/-- A message that notifies of nothing does not stop the client. -/
theorem running_processed {l : Text} (h : s.notification l = .ok none) :
    (s.processed l).running = s.running := by
  unfold notification at h
  unfold processed
  cases hmessage : s.client.onMessage l with
  | error e => rfl
  | ok r =>
    rw [hmessage] at h
    obtain ⟨c, event⟩ := r
    obtain rfl : event = none := Except.ok.inj h
    exact running_onMessage hmessage

theorem live_of (h : s.threads[t]? = some stage) (hlive : stage.isLive) : s.Live t := by
  rw [Live, h]
  exact hlive

theorem locked_of (h : s.threads[t]? = some stage) (hlocked : stage.isLocked) : s.Locked t := by
  rw [Locked, h]
  exact hlocked

theorem not_live_of (h : s.threads[t]? = some stage) (hlive : stage.isLive = false) :
    ¬s.Live t := by
  rw [Live, h]
  simp [hlive]

theorem not_locked_of (h : s.threads[t]? = some stage) (hlocked : stage.isLocked = false) :
    ¬s.Locked t := by
  rw [Locked, h]
  simp [hlocked]

/-- A step of another thread leaves one that waits for the lock. -/
theorem Locked.set {t' : ℕ} (h : s.Locked t) (hthreads : s'.threads = s.threads.set t' stage)
    (hne : t' ≠ t) : s'.Locked t := by
  rw [Locked, hthreads, List.getElem?_set_ne hne]
  exact h

theorem Alone.set (h : s.Alone t) (hthreads : s'.threads = s.threads.set t stage) : s'.Alone t := by
  intro t' hlt hne
  rw [hthreads, List.length_set] at hlt
  rw [hthreads, List.getElem?_set_ne (Ne.symm hne)]
  exact (h t' hlt hne).imp_right fun hlocked => hlocked.set hthreads (Ne.symm hne)

/-- A step of a thread that can go on is a step of the only one. -/
theorem Alone.eq {t' : ℕ} (h : s.Alone t) (ht' : s.threads[t']? = some stage)
    (hended : stage ≠ .ended) (hlocked : stage.isLocked = false) : t' = t := by
  by_contra hne
  rcases h t' (List.getElem?_eq_some_iff.1 ht').1 hne with hover | hwaits
  · exact hended (Option.some.inj (ht'.symm.trans hover))
  · exact not_locked_of ht' hlocked hwaits

theorem looped_of_running (h : s.running = true) (t : ℕ) :
    s.looped t = { s with threads := s.threads.set t .listening } := if_pos h

/-- While a call keeps the lock, a thread that needs it stays where it is. -/
theorem Locked.next (h : s.Locked t) (hcall : s.call.isSome) (he : s.Enabled e)
    (hne : e ≠ .connects) : (s.next e).Locked t ∧ (s.next e).call = s.call := by
  have hheld : ¬s.call.isNone := by
    rw [Option.isNone_iff_eq_none]
    exact Option.isSome_iff_ne_none.1 hcall
  have hother : ∀ {t' : ℕ} {stage : ThreadStage}, s.threads[t']? = some stage →
      stage.isLocked = false → t' ≠ t := by
    rintro t' stage ht' hlocked rfl
    exact not_locked_of ht' hlocked h
  cases e with
  | called playerName serverAddress => exact absurd he hheld
  | connects => exact absurd rfl hne
  | opens t' => exact ⟨h.set rfl (hother he rfl), rfl⟩
  | introduces t' =>
    rw [Sessions.next, looped]
    split_ifs
    · exact ⟨h.set rfl (hother he rfl), rfl⟩
    · exact ⟨h.set rfl (hother he rfl), rfl⟩
  | stalls t' => exact ⟨h.set rfl (hother he rfl), rfl⟩
  | resumes t' => exact absurd he.1 hheld
  | reads t' l =>
    obtain ⟨playerId, running, hprocessed⟩ := s.processed_eq l
    rw [Sessions.next, looped, hprocessed]
    split_ifs
    · exact ⟨h.set rfl (hother he.1 rfl), rfl⟩
    · exact ⟨h.set rfl (hother he.1 rfl), rfl⟩
  | consumes t' l =>
    obtain ⟨playerId, running, hprocessed⟩ := s.processed_eq l
    rw [Sessions.next, hprocessed]
    exact ⟨h.set rfl (hother he.1 rfl), rfl⟩
  | notifies t' => exact absurd he.1 hheld
  | throws t' =>
    have hne' : t' ≠ t := by
      rcases he with he | he
      · exact hother he rfl
      · exact hother he rfl
    exact ⟨h.set rfl hne', rfl⟩
  | fails t' l notified => exact absurd he.1 hheld
  | restarts t' =>
    have hset : Locked { s with threads := s.threads.set t' .ended } t := h.set rfl (hother he rfl)
    refine ⟨?_, rfl⟩
    have hlt : t < (s.threads.set t' .ended).length := by
      by_contra hle
      rw [Locked, List.getElem?_eq_none (Nat.le_of_not_lt hle)] at hset
      exact absurd hset (by decide)
    rw [Locked,
      show (s.next (.restarts t')).threads = s.threads.set t' .ended ++ [.opening] from rfl,
      List.getElem?_append_left hlt]
    exact hset
  | disconnects => exact ⟨h, rfl⟩

/-- A call that waits for the only thread that can go on, of a client that is running: the thread
    stays in its loop, or waits for the lock. -/
theorem stuck_of_live {call : Call A} (hcall : call ∈ s.call) (ht : t ∈ call.joined)
    (hrunning : s.running = true) (hlive : s.Live t) (halone : s.Alone t) (he : s.Enabled e)
    (hconnects : e ≠ .connects) (hne : e ≠ .disconnects) : (s.next e).Stuck := by
  have hheld : ¬s.call.isNone := by rw [Option.mem_def.1 hcall]; simp
  have hmem : ∀ {stage : ThreadStage}, s.threads[t]? = some stage → t < s.threads.length :=
    fun hstage => (List.getElem?_eq_some_iff.1 hstage).1
  -- The thread moves to another place in its `try`, or to one where it waits.
  have hmoved : ∀ {s' : Sessions A} {stage : ThreadStage}, t < s.threads.length →
      s'.threads = s.threads.set t stage → s'.call = s.call →
      stage.isLocked ∨ s'.running = true ∧ stage.isLive → s'.Stuck := by
    intro s' stage hlt hthreads hsame hstage
    have hnow : s'.threads[t]? = some stage := by
      rw [hthreads, List.getElem?_set_self hlt]
    refine ⟨call, hsame ▸ hcall, t, ht, hstage.imp (locked_of hnow) fun hstage => ?_⟩
    exact ⟨hstage.1, live_of hnow hstage.2, halone.set hthreads⟩
  cases e with
  | called playerName serverAddress => exact absurd he hheld
  | connects => exact absurd rfl hconnects
  | opens t' =>
    obtain rfl := halone.eq he (by decide) rfl
    exact hmoved (hmem he) rfl rfl (.inr ⟨hrunning, rfl⟩)
  | introduces t' =>
    obtain rfl := halone.eq he (by decide) rfl
    rw [Sessions.next, looped_of_running (s := { s with reconnecting := false }) hrunning t']
    exact hmoved (hmem he) rfl rfl (.inr ⟨hrunning, rfl⟩)
  | stalls t' =>
    obtain rfl := halone.eq he (by decide) rfl
    exact hmoved (hmem he) rfl rfl (.inl rfl)
  | resumes t' => exact absurd he.1 hheld
  | reads t' l =>
    obtain rfl := halone.eq he.1 (by decide) rfl
    have hsilent : s.notification l = .ok none := he.2.resolve_right fun h => hheld h.1
    have hstill := (running_processed hsilent).trans hrunning
    obtain ⟨playerId, running, hprocessed⟩ := s.processed_eq l
    rw [Sessions.next, looped_of_running hstill t']
    rw [hprocessed] at hstill ⊢
    exact hmoved (hmem he.1) rfl rfl (.inr ⟨hstill, rfl⟩)
  | consumes t' l =>
    obtain rfl := halone.eq he.1 (by decide) rfl
    obtain ⟨playerId, running, hprocessed⟩ := s.processed_eq l
    rw [Sessions.next, hprocessed]
    exact hmoved (hmem he.1) rfl rfl (.inl rfl)
  | notifies t' => exact absurd he.1 hheld
  | throws t' =>
    obtain ⟨stage, hstage, hended, hlocked⟩ : ∃ stage, s.threads[t']? = some stage ∧
        stage ≠ .ended ∧ stage.isLocked = false := by
      rcases he with he | he
      · exact ⟨_, he, by decide, rfl⟩
      · exact ⟨_, he, by decide, rfl⟩
    obtain rfl := halone.eq hstage hended hlocked
    exact hmoved (hmem hstage) rfl rfl (.inl rfl)
  | fails t' l notified => exact absurd he.1 hheld
  | restarts t' =>
    obtain rfl := halone.eq he (by decide) rfl
    exact absurd hlive (not_live_of he rfl)
  | disconnects => exact absurd rfl hne

/-- The thread of a stuck call is not over. -/
theorem Stuck.not_connects (h : s.Stuck) : ¬s.Enabled .connects := by
  rintro ⟨call', hcall', hended⟩
  obtain ⟨call, hcall, t, ht, hstage⟩ := h
  obtain rfl := Option.some.inj (hcall.symm.trans hcall')
  rcases hstage with hlocked | ⟨-, hlive, -⟩
  · exact not_locked_of (hended t ht) rfl hlocked
  · exact not_live_of (hended t ht) rfl hlive

/-- The call stays stuck. -/
theorem stuck_next (h : s.Stuck) (he : s.Enabled e) (hne : e ≠ .disconnects) :
    (s.next e).Stuck := by
  have hconnects : e ≠ .connects := by
    rintro rfl
    exact h.not_connects he
  obtain ⟨call, hcall, t, ht, hstage⟩ := h
  rcases hstage with hlocked | ⟨hrunning, hlive, halone⟩
  · obtain ⟨hlocked', hsame⟩ :=
      hlocked.next (Option.isSome_iff_exists.2 ⟨call, hcall⟩) he hconnects
    exact ⟨call, hsame ▸ hcall, t, ht, .inl hlocked'⟩
  · exact stuck_of_live hcall ht hrunning hlive halone he hconnects hne

/-! ## A call that may return -/

/-- The threads that the fields and the call know. -/
structure Known (s : Sessions A) : Prop where
  thread : ∀ t ∈ s.thread, t < s.threads.length
  joined : ∀ call ∈ s.call, ∀ t ∈ call.joined, t < s.threads.length

/-- Threads are only added. -/
theorem Known.mono (h : s.Known) (hlength : s.threads.length ≤ s'.threads.length)
    (hthread : s'.thread = s.thread) (hcall : s'.call = s.call) : s'.Known where
  thread t ht := (h.thread t (hthread ▸ ht)).trans_le hlength
  joined call hc t ht := (h.joined call (hcall ▸ hc) t ht).trans_le hlength

theorem Known.closed (h : s.Known) (t : ℕ) : (s.closed t).Known :=
  h.mono (by simp [Sessions.closed]) rfl rfl

theorem Known.looped (h : s.Known) (t : ℕ) : (s.looped t).Known := by
  rw [Sessions.looped]
  split_ifs
  · exact h.mono (by simp) rfl rfl
  · exact h.closed t

theorem Known.processed (h : s.Known) (l : Text) : (s.processed l).Known := by
  obtain ⟨playerId, running, hprocessed⟩ := s.processed_eq l
  exact hprocessed ▸ h.mono (Nat.le_refl _) rfl rfl

theorem Known.failed (h : s.Known) (t : ℕ) (notified : Bool) : (s.failed t notified).Known := by
  rw [Sessions.failed]
  split_ifs
  · exact (h.mono (Nat.le_refl _) rfl rfl : Known { s with reconnecting := true }).closed t
  · exact h.closed t

theorem Known.next (h : s.Known) (e : Event A) : (s.next e).Known := by
  cases e with
  | called playerName serverAddress =>
    refine ⟨h.thread, fun call hc t ht => ?_⟩
    obtain rfl := Option.some.inj hc
    exact h.thread t ht
  | connects =>
    cases hcall : s.call with
    | none => simpa only [Sessions.next, hcall] using h
    | some call =>
      simp only [Sessions.next, hcall]
      refine ⟨fun t ht => ?_, fun call hc => absurd hc (Option.not_mem_none call)⟩
      obtain rfl := Option.some.inj ht
      simp
  | opens t => exact h.mono (by simp [Sessions.next]) rfl rfl
  | introduces t | resumes t =>
    exact (h.mono (Nat.le_refl _) rfl rfl : Known { s with reconnecting := false }).looped t
  | stalls t | throws t => exact h.mono (by simp [Sessions.next]) rfl rfl
  | reads t l => exact (h.processed l).looped t
  | consumes t l => exact (h.processed l).mono (by simp [Sessions.next]) rfl rfl
  | notifies t => exact h.looped t
  | fails t l notified =>
    cases l with
    | none => exact h.failed t notified
    | some l => exact (h.processed l).failed t notified
  | restarts t =>
    refine ⟨fun t' ht' => ?_, fun call hc t' ht' => ?_⟩
    · obtain rfl := Option.some.inj ht'
      simp [Sessions.next]
    · exact (h.joined call hc t' ht').trans_le (by simp [Sessions.next])
  | disconnects => exact h.mono (Nat.le_refl _) rfl rfl

theorem known_of_reachable (hs : machine.Reachable s) : s.Known :=
  hs.invariant (I := Known) (fun s (h : s = new) => h ▸ ⟨nofun, nofun⟩) fun _ e h _ => h.next e

theorem Returns.cons (h : (s.next e).Returns) (he : s.Enabled e) (hne : e ≠ .disconnects) :
    s.Returns := by
  obtain ⟨es, hes, hrun⟩ := h
  exact ⟨e :: es, List.not_mem_cons_of_ne_of_not_mem (Ne.symm hne) hes, he, hrun⟩

/-- A call that waits for nothing returns. -/
theorem returns_of_ended {call : Call A} (hcall : call ∈ s.call)
    (hended : ∀ t ∈ call.joined, s.threads[t]? = some .ended) : s.Returns :=
  ⟨[], List.not_mem_nil, ⟨call, hcall, hended⟩, trivial⟩

/-- A call waits for the thread to be over. -/
def Awaits (s : Sessions A) (t : ℕ) : Prop := ∃ call ∈ s.call, call.joined = some t

theorem Awaits.returns (h : s.Awaits t) (ht : s.threads[t]? = some .ended) : s.Returns := by
  obtain ⟨call, hcall, hjoined⟩ := h
  refine returns_of_ended hcall fun t' ht' => ?_
  obtain rfl := Option.some.inj (hjoined.symm.trans ht')
  exact ht

/-- A thread that sleeps starts another one, and is over. -/
theorem Awaits.returns_of_sleeping (h : s.Awaits t) (ht : s.threads[t]? = some .sleeping) :
    s.Returns := by
  have hlt := (List.getElem?_eq_some_iff.1 ht).1
  have hnext : (s.next (.restarts t)).threads[t]? = some .ended := by
    rw [show (s.next (.restarts t)).threads = s.threads.set t .ended ++ [.opening] from rfl,
      List.getElem?_append_left (by rwa [List.length_set]), List.getElem?_set_self hlt]
  have hawaits : (s.next (.restarts t)).Awaits t := h
  exact (hawaits.returns hnext).cons ht nofun

/-- A thread that leaves its loop is over, or sleeps. -/
theorem Awaits.returns_closed (h : s.Awaits t) (ht : t < s.threads.length) :
    (s.closed t).Returns := by
  have hawaits : (s.closed t).Awaits t := h
  have hclosed : (s.closed t).threads[t]? =
      some (if s.reconnecting then .sleeping else .ended) := List.getElem?_set_self ht
  by_cases hreconnecting : s.reconnecting = true
  · rw [if_pos hreconnecting] at hclosed
    exact hawaits.returns_of_sleeping hclosed
  · rw [if_neg hreconnecting] at hclosed
    exact hawaits.returns hclosed

/-- A thread of a client that has been disconnected leaves its loop. -/
theorem Awaits.returns_looped (h : s.Awaits t) (hrunning : s.running = false)
    (ht : t < s.threads.length) : (s.looped t).Returns := by
  rw [looped, if_neg (by simp [hrunning])]
  exact h.returns_closed ht

theorem Awaits.returns_of_opened (h : s.Awaits t) (hrunning : s.running = false)
    (ht : s.threads[t]? = some .opened) : s.Returns := by
  have hawaits : Awaits { s with reconnecting := false } t := h
  have hlt := (List.getElem?_eq_some_iff.1 ht).1
  exact (hawaits.returns_looped hrunning hlt).cons (e := .introduces t) ht nofun

theorem Awaits.returns_of_opening (h : s.Awaits t) (hrunning : s.running = false)
    (ht : s.threads[t]? = some .opening) : s.Returns := by
  have hawaits : (s.next (.opens t)).Awaits t := h
  have hlt := (List.getElem?_eq_some_iff.1 ht).1
  have hnext : (s.next (.opens t)).threads[t]? = some .opened := List.getElem?_set_self hlt
  exact (hawaits.returns_of_opened hrunning hnext).cons ht nofun

/-- A line that notifies of nothing: an empty id. -/
def silentLine : Text := playerIdInstructionType ++ [' ']

theorem notification_silentLine (s : Sessions A) : s.notification silentLine = .ok none := by
  rw [notification, onMessage_id (by decide)]

theorem Awaits.returns_of_listening (h : s.Awaits t) (hrunning : s.running = false)
    (ht : s.threads[t]? = some .listening) : s.Returns := by
  have hsilent := s.notification_silentLine
  have hstill := (running_processed hsilent).trans hrunning
  obtain ⟨playerId, running, hprocessed⟩ := s.processed_eq silentLine
  have hawaits : (s.processed silentLine).Awaits t := hprocessed ▸ h
  have hlt : t < (s.processed silentLine).threads.length := by
    rw [hprocessed]
    exact (List.getElem?_eq_some_iff.1 ht).1
  exact (hawaits.returns_looped hstill hlt).cons (e := .reads t silentLine) ⟨ht, .inl hsilent⟩
    nofun

/-- A thread of a client that has been stopped leaves its loop. -/
theorem Awaits.returns_of_live (h : s.Awaits t) (hrunning : s.running = false) (hlive : s.Live t) :
    s.Returns := by
  rw [Live] at hlive
  cases hst : s.threads[t]? with
  | none => simp [hst] at hlive
  | some stage =>
    rw [hst, Option.any_some] at hlive
    cases stage with
    | opening => exact h.returns_of_opening hrunning hst
    | opened => exact h.returns_of_opened hrunning hst
    | listening => exact h.returns_of_listening hrunning hst
    | stalled | notifying | failing | sleeping | ended => exact absurd hlive (by decide)

/-! ## Another thread that can go on -/

theorem Live.lt_length (h : s.Live t) : t < s.threads.length := by
  by_contra hle
  rw [Live, List.getElem?_eq_none (Nat.le_of_not_lt hle)] at h
  exact absurd h (by decide)

theorem Live.set {t' : ℕ} (h : s.Live t) (hthreads : s'.threads = s.threads.set t' stage)
    (hne : t' ≠ t) : s'.Live t := by
  rw [Live, hthreads, List.getElem?_set_ne hne]
  exact h

/-- A line that stops the client. -/
theorem notification_stopped (s : Sessions A) :
    s.notification serverStoppedInstruction = .ok (some .serverStopped) := rfl

theorem running_processed_stopped (s : Sessions A) :
    (s.processed serverStoppedInstruction).running = false := rfl

/-- A thread that reads stops the client, even if it cannot notify the listener of it. -/
theorem Awaits.returns_of_other_listening {t' : ℕ} (h : s.Awaits t) (hlive : s.Live t)
    (ht' : s.threads[t']? = some .listening) (hne : t' ≠ t) : s.Returns := by
  have hawaits : (s.next (.consumes t' serverStoppedInstruction)).Awaits t := h
  have hstill : (s.next (.consumes t' serverStoppedInstruction)).Live t := hlive.set rfl hne
  exact (hawaits.returns_of_live s.running_processed_stopped hstill).cons
    (e := .consumes t' serverStoppedInstruction) ⟨ht', _, s.notification_stopped⟩ nofun

theorem Awaits.returns_of_other_opened {t' : ℕ} (h : s.Awaits t) (hrunning : s.running = true)
    (hlive : s.Live t) (ht' : s.threads[t']? = some .opened) (hne : t' ≠ t) : s.Returns := by
  have hnext : s.next (.introduces t') =
      { s with reconnecting := false, threads := s.threads.set t' .listening } :=
    looped_of_running (s := { s with reconnecting := false }) hrunning t'
  have hlt := (List.getElem?_eq_some_iff.1 ht').1
  have hawaits : (s.next (.introduces t')).Awaits t := hnext ▸ h
  have hstill : (s.next (.introduces t')).Live t := hnext ▸ hlive.set rfl hne
  have hlistening : (s.next (.introduces t')).threads[t']? = some .listening := by
    rw [hnext]
    exact List.getElem?_set_self hlt
  exact (hawaits.returns_of_other_listening hstill hlistening hne).cons ht' nofun

theorem Awaits.returns_of_other_opening {t' : ℕ} (h : s.Awaits t) (hrunning : s.running = true)
    (hlive : s.Live t) (ht' : s.threads[t']? = some .opening) (hne : t' ≠ t) : s.Returns := by
  have hlt := (List.getElem?_eq_some_iff.1 ht').1
  have hawaits : (s.next (.opens t')).Awaits t := h
  have hopened : (s.next (.opens t')).threads[t']? = some .opened := List.getElem?_set_self hlt
  exact (hawaits.returns_of_other_opened hrunning (hlive.set rfl hne) hopened hne).cons ht' nofun

theorem Awaits.returns_of_other_sleeping {t' : ℕ} (h : s.Awaits t) (hrunning : s.running = true)
    (hlive : s.Live t) (ht' : s.threads[t']? = some .sleeping) (hne : t' ≠ t) : s.Returns := by
  have hlt := hlive.lt_length
  have hthreads : (s.next (.restarts t')).threads = s.threads.set t' .ended ++ [.opening] := rfl
  have hawaits : (s.next (.restarts t')).Awaits t := h
  have hset : Live { s with threads := s.threads.set t' .ended } t := hlive.set rfl hne
  have hstill : (s.next (.restarts t')).Live t := by
    rw [Live, hthreads, List.getElem?_append_left (by rwa [List.length_set])]
    exact hset
  -- The new thread is the last one.
  have hnew : (s.next (.restarts t')).threads[s.threads.length]? = some .opening := by
    rw [hthreads, ← List.length_set (i := t') (a := ThreadStage.ended), List.getElem?_concat_length]
  exact (hawaits.returns_of_other_opening hrunning hstill hnew hlt.ne').cons ht' nofun

/-- Another thread that can go on may read that the server has stopped. -/
theorem Awaits.returns_of_not_alone (h : s.Awaits t) (hrunning : s.running = true)
    (hlive : s.Live t) (halone : ¬s.Alone t) : s.Returns := by
  rw [Alone] at halone
  push Not at halone
  obtain ⟨t', hlt, hne, hended, hlocked⟩ := halone
  have hstage : s.threads[t']? = some s.threads[t'] := List.getElem?_eq_getElem hlt
  cases hst : s.threads[t'] with
  | opening => exact h.returns_of_other_opening hrunning hlive (hst ▸ hstage) hne
  | opened => exact h.returns_of_other_opened hrunning hlive (hst ▸ hstage) hne
  | listening => exact h.returns_of_other_listening hlive (hst ▸ hstage) hne
  | sleeping => exact h.returns_of_other_sleeping hrunning hlive (hst ▸ hstage) hne
  | ended => exact absurd (hst ▸ hstage) hended
  | stalled | notifying | failing => exact absurd (locked_of (hst ▸ hstage) rfl) hlocked

/-- A call of `connectServer` may return exactly if it is not stuck: its thread does not wait for
    the lock; and if it is in its `try`, then the client is not running any more, or has another
    thread that can go on. Otherwise it waits for ever, and so do those who need the lock, unless
    `disconnect` is called. -/
theorem returns_iff (hs : machine.Reachable s) (hcall : s.call.isSome) :
    s.Returns ↔ ¬ s.Stuck := by
  obtain ⟨call, hcall⟩ := Option.isSome_iff_exists.1 hcall
  have hknown := known_of_reachable hs
  constructor
  · rintro ⟨es, hes, hrun⟩ hstuck
    obtain ⟨hrun, hconnects, -⟩ := Machine.along_append.1 hrun
    have hne : machine.Along (fun _ e => e ≠ .disconnects) s es :=
      Machine.along_of_forall fun e he _ heq => hes (heq ▸ he)
    have hend : (machine.after s es).Stuck :=
      (hrun.and hne).invariant hstuck fun s e hs he => stuck_next hs he.1 he.2
    exact hend.not_connects hconnects
  · intro hstuck
    cases hjoined : call.joined with
    | none => exact returns_of_ended hcall (by simp [hjoined])
    | some t =>
      have hawaits : s.Awaits t := ⟨call, hcall, hjoined⟩
      obtain ⟨stage, hstage⟩ : ∃ stage, s.threads[t]? = some stage :=
        ⟨_, List.getElem?_eq_getElem (hknown.joined call hcall t hjoined)⟩
      have hlocked : ¬s.Locked t := fun hlocked => hstuck ⟨call, hcall, t, hjoined, .inl hlocked⟩
      by_cases hlive : s.Live t
      · by_cases hrunning : s.running = true
        · refine hawaits.returns_of_not_alone hrunning hlive fun halone => ?_
          exact hstuck ⟨call, hcall, t, hjoined, .inr ⟨hrunning, hlive, halone⟩⟩
        · exact hawaits.returns_of_live (by simpa using hrunning) hlive
      · -- The thread is asleep, or over.
        cases stage with
        | sleeping => exact hawaits.returns_of_sleeping hstage
        | ended => exact hawaits.returns hstage
        | opening | opened | listening => exact absurd (live_of hstage rfl) hlive
        | stalled | notifying | failing => exact absurd (locked_of hstage rfl) hlocked

/-- A client calls `connectServer` again while it reads from its first connection, where it is told
    that the game starts; then `disconnect` is called. -/
def waitingRun : List (Event ℕ) :=
  [.called "ann".toList 1, .connects, .opens 0, .introduces 0, .called "ann".toList 2,
    .consumes 0 startInstructionType, .disconnects]

theorem returns_iff_waitingRun : (machine.after new waitingRun).Stuck ∧
    ((machine.after new waitingRun).Returns ↔ ¬ (machine.after new waitingRun).Stuck) :=
  ⟨by decide, returns_iff (Machine.IsRun.reachable ⟨rfl, by decide⟩) (by decide)⟩

/-! ## A connection that says nothing -/

/-- The call waits for a thread in `readLine`. -/
def WaitsForLine (s : Sessions A) (t : ℕ) : Prop :=
  s.Awaits t ∧ s.threads[t]? = some .listening

/-- The call waits for a thread which is in `readLine`, or which has left it and waits for the
    lock. -/
def WaitsInside (s : Sessions A) (t : ℕ) : Prop :=
  s.Awaits t ∧ (s.threads[t]? = some .listening ∨ s.Locked t)

/-- The end of a round moves one thread. -/
theorem looped_eq (s : Sessions A) (t : ℕ) :
    ∃ out stage, s.looped t = { s with out := out, threads := s.threads.set t stage } := by
  rw [looped]
  split_ifs
  · exact ⟨_, _, rfl⟩
  · exact ⟨_, _, rfl⟩

theorem WaitsInside.call_isSome (h : s.WaitsInside t) : s.call.isSome := by
  obtain ⟨⟨call, hcall, -⟩, -⟩ := h
  exact Option.isSome_iff_exists.2 ⟨call, hcall⟩

theorem WaitsInside.not_connects (h : s.WaitsInside t) : ¬ s.Enabled .connects := by
  obtain ⟨⟨call, hcall, hjoined⟩, hstage⟩ := h
  rintro ⟨call', hcall', hended⟩
  obtain rfl := Option.some.inj (hcall.symm.trans hcall')
  rcases hstage with ht | hlocked
  · exact absurd (ht.symm.trans (hended t hjoined)) (by decide)
  · exact not_locked_of (hended t hjoined) rfl hlocked

/-- A thread in `readLine` does not leave it without a line, but to wait for the lock: to notify the
    listener of an exception, or of a line. -/
theorem listening_next (ht : s.threads[t]? = some .listening) (hcall : s.call.isSome)
    (he : s.Enabled e) (hconnects : e ≠ .connects) (hne : ∀ l, e ≠ .reads t l) :
    ((s.next e).threads[t]? = some .listening ∨ (s.next e).Locked t) ∧
      (s.next e).call = s.call := by
  have hheld : ¬s.call.isNone := by
    rw [Option.isNone_iff_eq_none]
    exact Option.isSome_iff_ne_none.1 hcall
  have hlt := (List.getElem?_eq_some_iff.1 ht).1
  have hother : ∀ {t' : ℕ} {stage : ThreadStage}, s.threads[t']? = some stage →
      stage ≠ .listening → t' ≠ t := by
    rintro t' stage ht' hstage rfl
    exact hstage (Option.some.inj (ht'.symm.trans ht))
  -- Another thread moves, or this one does, to a place where it waits.
  have hset : ∀ {s' : Sessions A} {t' : ℕ} {stage : ThreadStage},
      s'.threads = s.threads.set t' stage → t' ≠ t ∨ stage.isLocked →
      s'.threads[t]? = some .listening ∨ s'.Locked t := by
    intro s' t' stage hthreads hstage
    by_cases heq : t' = t
    · refine .inr (locked_of ?_ (hstage.resolve_left (not_not.2 heq)))
      rw [hthreads, heq, List.getElem?_set_self hlt]
    · exact .inl (by rw [hthreads, List.getElem?_set_ne heq, ht])
  cases e with
  | called playerName serverAddress => exact absurd he hheld
  | connects => exact absurd rfl hconnects
  | opens t' => exact ⟨hset rfl (.inl (hother he (by decide))), rfl⟩
  | introduces t' =>
    obtain ⟨out, stage, hloop⟩ := looped_eq { s with reconnecting := false } t'
    rw [Sessions.next, hloop]
    exact ⟨hset rfl (.inl (hother he (by decide))), rfl⟩
  | stalls t' => exact ⟨hset rfl (.inr rfl), rfl⟩
  | resumes t' => exact absurd he.1 hheld
  | reads t' l =>
    have hdifferent : t' ≠ t := fun heq => hne l (heq ▸ rfl)
    obtain ⟨playerId, running, hprocessed⟩ := s.processed_eq l
    obtain ⟨out, stage, hloop⟩ := looped_eq (s.processed l) t'
    rw [Sessions.next, hloop, hprocessed]
    exact ⟨hset rfl (.inl hdifferent), rfl⟩
  | consumes t' l =>
    obtain ⟨playerId, running, hprocessed⟩ := s.processed_eq l
    rw [Sessions.next, hprocessed]
    exact ⟨hset rfl (.inr rfl), rfl⟩
  | notifies t' => exact absurd he.1 hheld
  | throws t' => exact ⟨hset rfl (.inr rfl), rfl⟩
  | fails t' l notified => exact absurd he.1 hheld
  | restarts t' =>
    have hne' := hother he (by decide)
    refine ⟨.inl ?_, rfl⟩
    rw [show (s.next (.restarts t')).threads = s.threads.set t' .ended ++ [.opening] from rfl,
      List.getElem?_append_left (by rwa [List.length_set]), List.getElem?_set_ne hne', ht]
  | disconnects => exact ⟨.inl ht, rfl⟩

/-- The call goes on waiting. -/
theorem WaitsInside.next (h : s.WaitsInside t) (he : s.Enabled e) (hne : ∀ l, e ≠ .reads t l) :
    (s.next e).WaitsInside t := by
  have hconnects : e ≠ .connects := by
    rintro rfl
    exact h.not_connects he
  have hcall := h.call_isSome
  obtain ⟨⟨call, hmem, hjoined⟩, ht | hlocked⟩ := h
  · obtain ⟨hstage, hsame⟩ := listening_next ht hcall he hconnects hne
    exact ⟨⟨call, hsame ▸ hmem, hjoined⟩, hstage⟩
  · obtain ⟨hlocked', hsame⟩ := hlocked.next hcall he hconnects
    exact ⟨⟨call, hsame ▸ hmem, hjoined⟩, .inr hlocked'⟩

/-- A call that waits for a thread in `readLine` does not return before a line comes, even if the
    client is disconnected, and its connection is closed or lost. -/
theorem waits_in_silence {es : List (Event A)} (h : machine.Along machine.Enabled s es)
    (hs : s.WaitsForLine t) (hes : ∀ l, .reads t l ∉ es) : .connects ∉ es := by
  intro hmem
  obtain ⟨before, after, rfl⟩ := List.append_of_mem hmem
  obtain ⟨hbefore, hconnects, -⟩ := Machine.along_append.1 h
  have hne : machine.Along (fun _ e => ∀ l, e ≠ .reads t l) s before :=
    Machine.along_of_forall fun e he _ l heq => hes l (List.mem_append_left _ (heq ▸ he))
  have hend := (hbefore.and hne).invariant (I := fun s => s.WaitsInside t) ⟨hs.1, .inl hs.2⟩
    fun s e hs he => hs.next he.1 he.2
  exact hend.not_connects hconnects

/-- A client leaves a room, and is told to enter another one. -/
def leavingRun : List (Event ℕ) :=
  [.called "ann".toList 1, .connects, .opens 0, .introduces 0, .disconnects,
    .called "ann".toList 2]

theorem waitsForLine_leavingRun : (machine.after new leavingRun).WaitsForLine 0 :=
  ⟨⟨⟨"ann".toList, 2, some 0⟩, rfl, rfl⟩, by decide⟩

theorem waits_in_silence_leavingRun :
    machine.IsRun new leavingRun ∧ (.connects : Event ℕ) ∉ [.disconnects, .disconnects] :=
  ⟨⟨rfl, by decide⟩, waits_in_silence (s := machine.after new leavingRun) (by decide)
    waitsForLine_leavingRun (by simp)⟩

end Sessions

end Gaze
