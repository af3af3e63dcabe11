import Gaze.Java.Reader
import Mathlib.Data.List.ReduceOption

/-!
# The read loop of a client's handler

`ClientHandler.run` reads the lines of a socket and passes each to the
listeners. The socket has a timeout of one second (`setSoTimeout`), and the loop
tries again after it, on the same `BufferedReader`: a call of `readLine` that a
timeout interrupts has already consumed the beginning of the line, which is
lost. So the listeners are passed the lines of the stream exactly if every
timeout falls between two lines, and no line but the last makes them raise
(`run_delivers_lines_iff`).

The listeners are a state and a function that may raise. Nobody closes the
handler.
-/

namespace Gaze

open Java

namespace ClientHandler

section Run

variable {S E : Type} (onMessageReceived : S → Option Text → Except E S)

/-- `ClientHandler.run`: the messages passed to the listeners in the given number
    of rounds of the loop; at the end of the stream, `readLine` gives `null`
    again and again. Only the timeouts are caught. -/
def run : ℕ → S → BufferedReader → List (Option Text)
  | 0, _, _ => []
  | n + 1, s, reader =>
    match reader.readLine with
    | (.line l, reader') =>
      some l :: match onMessageReceived s (some l) with
        | .ok s' => run n s' reader'
        | .error _ => []
    | (.endOfStream, reader') =>
      none :: match onMessageReceived s none with
        | .ok s' => run n s' reader'
        | .error _ => []
    | (.timeout, reader') => run n s reader'

/-- The messages passed in the end: those that are not `null`. -/
def Passes (s : S) (reader : BufferedReader) (ls : List Text) : Prop :=
  ∃ N, ∀ n ≥ N, (run onMessageReceived n s reader).reduceOption = ls

/-- The lines passed before the listeners raise. -/
def passed : S → List Text → List Text
  | _, [] => []
  | s, l :: ls =>
    l :: match onMessageReceived s (some l) with
      | .ok s' => passed s' ls
      | .error _ => []

/-- Do the listeners raise on none of the lines? -/
def accepts : S → List Text → Bool
  | _, [] => true
  | s, l :: ls =>
    match onMessageReceived s (some l) with
    | .ok s' => accepts s' ls
    | .error _ => false

theorem passed_prefix (s : S) (ls : List Text) : passed onMessageReceived s ls <+: ls := by
  induction ls generalizing s with
  | nil => exact List.prefix_rfl
  | cons l ls ih =>
    rw [passed]
    split
    · exact List.prefix_cons_inj l |>.2 (ih _)
    · exact ⟨ls, rfl⟩

theorem passed_eq_iff (s : S) (ls : List Text) :
    passed onMessageReceived s ls = ls ↔ accepts onMessageReceived s ls.dropLast := by
  induction ls generalizing s with
  | nil => simp [passed, accepts]
  | cons l ls ih =>
    cases ls with
    | nil =>
      rw [passed]
      split <;> simp [passed, accepts]
    | cons l' ls =>
      rw [passed, List.dropLast_cons_of_ne_nil (List.cons_ne_nil _ _), accepts]
      split
      · next s' hs => rw [List.cons.injEq, ih s']; simp
      · simp

/-- Once the pending lines are delivered, only `null` is passed. -/
theorem run_of_pending_nil {reader : BufferedReader} (hline : reader.reader.line = [])
    (hpending : reader.pending = []) (n : ℕ) (s : S) :
    (run onMessageReceived n s reader).reduceOption = [] := by
  induction n generalizing s reader with
  | zero => rfl
  | succ n ih =>
    have hreads := BufferedReader.reads hline
    rw [run]
    generalize reader.readLine = read at hreads ⊢
    cases hreads with
    -- A line cannot be read; `null` and the timeouts leave nothing pending.
    | line l b' hlines => exact absurd (hpending.symm.trans hlines) (by simp)
    | endOfStream b' _ hpending' hline' =>
      simp only [List.reduceOption_cons_of_none]
      split
      · exact ih hline' hpending' _
      · rfl
    | timeout b' hpending' hline' => exact ih hline' (hpending'.symm.trans hpending) s

/-- After enough rounds, the pending lines have been passed. -/
theorem run_eq_passed {reader : BufferedReader} (hline : reader.reader.line = []) {n : ℕ}
    (hn : reader.size < n) (s : S) :
    (run onMessageReceived n s reader).reduceOption =
      passed onMessageReceived s reader.pending := by
  induction n generalizing s reader with
  | zero => omega
  | succ n ih =>
    have hreads := BufferedReader.reads hline
    rw [run]
    generalize reader.readLine = read at hreads ⊢
    cases hreads with
    | line l b' hpending hline' hsize =>
      simp only [hpending, passed, List.reduceOption_cons_of_some]
      -- When the listeners throw, the handler closes, and the lines that follow are dropped.
      cases onMessageReceived s (some l) with
      | ok s' => simp only [ih hline' (by omega)]
      | error => rfl
    | endOfStream b' hpending hpending' hline' =>
      simp only [hpending, passed, List.reduceOption_cons_of_none]
      split
      · exact run_of_pending_nil onMessageReceived hline' hpending' n _
      · rfl
    | timeout b' hpending hline' hsize =>
      rw [hpending]
      -- A timeout passes nothing, but it uses a round: the size has decreased all the same.
      exact ih hline' (by omega) s

theorem passes_iff {reader : BufferedReader} (hline : reader.reader.line = []) (s : S)
    (ls : List Text) :
    Passes onMessageReceived s reader ls ↔ passed onMessageReceived s reader.pending = ls := by
  constructor
  · rintro ⟨N, hN⟩
    rw [← run_eq_passed onMessageReceived hline (Nat.lt_of_lt_of_le (Nat.lt_succ_self _)
      (Nat.le_max_right N (reader.size + 1))) s]
    exact hN _ (Nat.le_max_left _ _)
  · rintro h
    exact ⟨reader.size + 1, fun n hn => (run_eq_passed onMessageReceived hline hn s).trans h⟩

end Run

/-- The socket of a handler: its reader, over the octets the client sends. -/
def reader {σ : Type} (d : Decoder σ) (arrivals : List (Arrival UInt8)) : BufferedReader :=
  .new (decodeArrivals d d.start arrivals)

/-- The timeouts among the octets are those among their characters. -/
theorem forall_timeout_decodeArrivals {σ : Type} (d : Decoder σ) (q : σ) (P : Text → Prop)
    (as : List (Arrival UInt8)) :
    (∀ pre post, decodeArrivals d q as = pre ++ .timeout :: post → P (arrived pre)) ↔
      ∀ pre post, as = pre ++ .timeout :: post → P (d.run q (arrived pre)).2 := by
  -- By induction on the arrivals, for every state of the decoder: what it gives for the first
  -- octets becomes part of the property of the others.
  induction as generalizing q P with
  | nil =>
    rw [decodeArrivals, forall_timeout_data P]
    exact iff_of_true (forall_timeout_nil fun s => P (d.flush q ++ s))
      (forall_timeout_nil fun bs => P (d.run q bs).2)
  | cons a as ih =>
    cases a with
    | data bs =>
      rw [decodeArrivals, forall_timeout_data P, forall_timeout_data fun bs => P (d.run q bs).2,
        ih (d.run q bs).1 fun s => P ((d.run q bs).2 ++ s)]
      simp only [Decoder.run_append]
    | timeout =>
      rw [decodeArrivals, forall_timeout_timeout P, ih q P,
        forall_timeout_timeout fun bs => P (d.run q bs).2]
      rfl

variable {σ S E : Type}

/-- The messages passed to the listeners are the lines of the whole stream
    exactly if every timeout falls where a line ends, and no line but the last
    makes the listeners raise. -/
theorem run_delivers_lines_iff (d : Decoder σ) (onMessageReceived : S → Option Text → Except E S)
    (s : S) (arrivals : List (Arrival UInt8)) :
    Passes onMessageReceived s (reader d arrivals) (lines (d.decode (arrived arrivals))) ↔
      (∀ pre post, arrivals = pre ++ .timeout :: post →
        atBoundary (d.run d.start (arrived pre)).2) ∧
      accepts onMessageReceived s (lines (d.decode (arrived arrivals))).dropLast := by
  have hchars : arrived (decodeArrivals d d.start arrivals) = d.decode (arrived arrivals) := by
    rw [arrived_decodeArrivals, Decoder.decode]
  have hpending : (reader d arrivals).pending =
      deliver LineReader.start (decodeArrivals d d.start arrivals) := by
    simp [BufferedReader.pending, reader, BufferedReader.new, deliver]
  have hquiet := deliver_eq_lines_iff (decodeArrivals d d.start arrivals)
  rw [forall_timeout_decodeArrivals d d.start fun s => atBoundary s, hchars] at hquiet
  rw [passes_iff onMessageReceived rfl, hpending, ← hquiet, ← passed_eq_iff]
  constructor
  · intro h
    -- What is passed is the beginning of what is delivered: if that is all the
    -- lines of the stream, then no character is lost.
    have hprefix : lines (d.decode (arrived arrivals)) <+:
        deliver LineReader.start (decodeArrivals d d.start arrivals) :=
      h ▸ passed_prefix onMessageReceived s _
    have hlost := lost_eq_zero_of_prefix (hchars.symm ▸ hprefix)
    have hall : deliver LineReader.start (decodeArrivals d d.start arrivals) =
        lines (d.decode (arrived arrivals)) := by
      rw [deliver_of_lost_eq_zero hlost, ← LineReader.lines_eq_feed, hchars]
    exact ⟨hall, by rw [← hall, h, hall]⟩
  · rintro ⟨hall, hpassed⟩
    rw [hall, hpassed]

/-- A timeout in the middle of a line: the listeners are passed `DY` instead of
    `READY`. -/
theorem run_loses_interrupted_line :
    ¬ Passes (fun (_ : Unit) _ => (.ok () : Except Unit Unit)) ()
      (reader Utf8.decoder
        [.data (encodeUtf8 "REA".toList), .timeout, .data (encodeUtf8 "DY\n".toList)])
      (lines "READY\n".toList) := by
  rw [passes_iff _ rfl]
  decide

end ClientHandler

end Gaze
