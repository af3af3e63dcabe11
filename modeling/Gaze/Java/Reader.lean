import Gaze.Java.Utf8
import Mathlib.Algebra.BigOperators.Group.List.Basic
import Mathlib.Tactic.Ring

/-!
# Reading lines

`BufferedReader.readLine` over an `InputStreamReader` over a socket with a
timeout. What the network does is a list of *arrivals*: data, or a read timeout
because nothing came for a while; after the last arrival the peer has closed the
stream.

* `LineReader` is the state of the reader between two characters: the
  characters of the unfinished line the current call has consumed, and whether a
  `\n` just after a `\r` is still to be skipped. `LineReader.feed` gives the
  lines completed by some text, as soon as it has arrived.
* `BufferedReader.readLine` is one call: it consumes arrivals until it has a
  line, meets the end of the stream, or is interrupted by a timeout, and then
  the characters it has already consumed are gone.
* `lines` is the plain line split of a text.
* `atBoundary` tells whether a text ends where a line does, so that reading it
  leaves no unfinished line (`feed_line_eq_nil_iff`).
-/

namespace Java

/-! ## The characters of a line -/

/-- Is it a line terminator? -/
def isTerminator (c : Char) : Bool := c == '\n' || c == '\r'

/-- The state of a line reader between two characters. -/
structure LineReader where
  /-- The characters of the unfinished line. -/
  line : Text
  /-- The last character was a `\r`, whose `\n` is to be skipped. -/
  skipLF : Bool
  deriving DecidableEq

namespace LineReader

/-- The reader of a new stream. -/
def start : LineReader := ⟨[], false⟩

/-- One character: the next state, and the line it completes, if it does. -/
def step (r : LineReader) (c : Char) : LineReader × Option Text :=
  if c = '\n' ∧ r.skipLF then (⟨r.line, false⟩, none)
  else if isTerminator c then (⟨[], c == '\r'⟩, some r.line)
  else (⟨r.line ++ [c], false⟩, none)

/-- The state after some text, and the lines it completes. -/
def feed (r : LineReader) : Text → LineReader × List Text
  | [] => (r, [])
  | c :: s => (((r.step c).1.feed s).1, (r.step c).2.toList ++ ((r.step c).1.feed s).2)

/-- The call that has consumed the unfinished line is interrupted: its
    characters are lost. -/
def interrupt (r : LineReader) : LineReader := { r with line := [] }

/-- The last line of the stream, which nothing terminates. -/
def rest (r : LineReader) : List Text := if r.line = [] then [] else [r.line]

@[simp] theorem feed_nil (r : LineReader) : r.feed [] = (r, []) := rfl

theorem feed_cons (r : LineReader) (c : Char) (s : Text) : r.feed (c :: s) =
    (((r.step c).1.feed s).1, (r.step c).2.toList ++ ((r.step c).1.feed s).2) := rfl

/-- Text arriving in two pieces completes the same lines as in one. -/
theorem feed_append (r : LineReader) (s t : Text) : r.feed (s ++ t) =
    (((r.feed s).1.feed t).1, (r.feed s).2 ++ ((r.feed s).1.feed t).2) := by
  induction s generalizing r with
  | nil => simp
  | cons c s ih => simp [feed_cons, ih]

theorem step_plain {c : Char} (hc : isTerminator c = false) (r : LineReader) :
    r.step c = (⟨r.line ++ [c], false⟩, none) := by
  have hn : c ≠ '\n' := by rintro rfl; exact absurd hc (by decide)
  simp [step, hn, hc]

/-- Characters without terminator only extend the unfinished line. -/
theorem feed_plain {s : Text} (hs : ∀ c ∈ s, isTerminator c = false) {r : LineReader}
    (hr : r.skipLF = false) : r.feed s = (⟨r.line ++ s, false⟩, []) := by
  induction s generalizing r with
  | nil =>
    obtain ⟨line, skipLF⟩ := r
    simp_all
  | cons c s ih =>
    rw [feed_cons, step_plain (hs c (by simp)),
      ih (fun d hd => hs d (List.mem_cons_of_mem _ hd)) rfl]
    simp

/-- The end of a line completes it, with what precedes. -/
theorem feed_lineEnd {s : Text} (hs : ∀ c ∈ s, isTerminator c = false) {r : LineReader}
    (hr : r.skipLF = false) : r.feed (s ++ ['\n']) = (start, [r.line ++ s]) := by
  rw [feed_append, feed_plain hs hr]
  rfl

/-- A terminated line is completed, and the reader is as before. -/
theorem feed_line {s : Text} (hs : ∀ c ∈ s, isTerminator c = false) :
    start.feed (s ++ ['\n']) = (start, [s]) := feed_lineEnd hs rfl

/-- The line a reader completes first begins like the one it is in. -/
theorem head?_feed {s : Text} {r r' : LineReader} {l : Text} {ls : List Text}
    (hskip : r.skipLF = false) (hne : r.line ≠ []) (h : r.feed s = (r', l :: ls)) :
    l.head? = r.line.head? := by
  induction s generalizing r with
  | nil => exact absurd (congrArg Prod.snd h) (by simp)
  | cons c s ih =>
    by_cases hc : isTerminator c = true
    · have hstep : r.step c = (⟨[], c == '\r'⟩, some r.line) := by simp [step, hskip, hc]
      rw [feed_cons, hstep] at h
      rw [(List.cons.inj (congrArg Prod.snd h)).1]
    · rw [feed_cons, step_plain (by simpa using hc)] at h
      rw [ih (r := ⟨r.line ++ [c], false⟩) rfl (by simp) h]
      exact List.head?_append_of_ne_nil _ hne

end LineReader

/-! ## The line split -/

/-- The lines of a text, after the characters `acc` of the current one. -/
def linesFrom (acc : Text) : Text → List Text
  | [] => if acc = [] then [] else [acc]
  | '\r' :: '\n' :: s => acc :: linesFrom [] s
  | c :: s => if isTerminator c then acc :: linesFrom [] s else linesFrom (acc ++ [c]) s

/-- The lines of a text: `\n`, `\r` and `\r\n` end a line, and so does the end of
    the text, unless nothing precedes it. -/
def lines (s : Text) : List Text := linesFrom [] s

namespace LineReader

/-- After a `\r`, the lines of a text are those of the text without a leading `\n`. -/
theorem feed_afterCR (s : Text) (hs : ∀ t, s ≠ '\n' :: t) :
    ((⟨[], true⟩ : LineReader).feed s).2 = (start.feed s).2 ∧
      ((⟨[], true⟩ : LineReader).feed s).1.rest = (start.feed s).1.rest := by
  cases s with
  | nil => exact ⟨rfl, rfl⟩
  | cons c s =>
    have hc : c ≠ '\n' := fun h => hs s (h ▸ rfl)
    have hstep : step ⟨[], true⟩ c = step start c := by simp [step, start, hc]
    rw [feed_cons, feed_cons, hstep]
    exact ⟨rfl, rfl⟩

theorem linesFrom_eq_feed (acc s : Text) :
    linesFrom acc s =
      ((⟨acc, false⟩ : LineReader).feed s).2 ++ ((⟨acc, false⟩ : LineReader).feed s).1.rest := by
  -- The cases are those of `linesFrom`: the two ends of the text, a CR before a LF, another
  -- terminator, and any other character.
  induction acc, s using linesFrom.induct with
  | case1 => simp [linesFrom, rest]
  | case2 acc h => simp [linesFrom, rest, h]
  | case3 acc s ih =>
    rw [linesFrom, ih]
    simp [feed_cons, step, isTerminator]
  | case4 acc c s hne hc ih =>
    rw [linesFrom, if_pos hc, ih]
    · by_cases hcr : c = '\r'
      · obtain ⟨h1, h2⟩ := feed_afterCR s fun t ht => hne t hcr ht
        rw [start] at h1 h2
        simp [feed_cons, step, hcr, isTerminator, h1, h2]
      · have hskip : (c == '\r') = false := by simpa using hcr
        simp [feed_cons, step, hc, hskip]
    · exact hne
  | case5 acc c s hne hc ih =>
    rw [linesFrom, if_neg hc, ih]
    · rw [feed_cons, step_plain (by simpa using hc)]
      simp
    · exact hne

/-- The lines of a text are those completed while it arrives, and the rest. -/
theorem lines_eq_feed (s : Text) : lines s = (start.feed s).2 ++ (start.feed s).1.rest :=
  linesFrom_eq_feed [] s

end LineReader

/-- Does the text end where a line does? -/
def atBoundary (s : Text) : Bool := s.getLast?.all isTerminator

/-- The number of characters of a text in its lines. -/
def lineChars (s : Text) : ℕ := s.countP fun c => !isTerminator c

/-- The number of characters of some lines. -/
def weight (ls : List Text) : ℕ := (ls.map List.length).sum

namespace LineReader

/-- A reader about to skip a `\n` is at the start of a line. -/
def Sound (r : LineReader) : Prop := r.skipLF = true → r.line = []

theorem sound_start : start.Sound := fun h => absurd h (by decide)

theorem sound_step (r : LineReader) (c : Char) : (r.step c).1.Sound := by
  rw [step]
  split_ifs with h1 h2
  · exact fun h => absurd h (by simp)
  · exact fun _ => rfl
  · exact fun h => absurd h (by simp)

theorem sound_feed {r : LineReader} (hr : r.Sound) (s : Text) : (r.feed s).1.Sound := by
  induction s generalizing r with
  | nil => exact hr
  | cons c s ih => exact ih (sound_step r c)

/-- Reading a text leaves no unfinished line exactly if it ends where a line does. -/
theorem feed_line_eq_nil_iff (s : Text) : (start.feed s).1.line = [] ↔ atBoundary s := by
  induction s using List.reverseRecOn with
  | nil => simp [start, atBoundary]
  | append_singleton s c _ =>
    have hs : (start.feed s).1.Sound := sound_feed sound_start s
    rw [feed_append, feed_cons, feed_nil, atBoundary, List.getLast?_concat, Option.all_some, step]
    split_ifs with h1 h2
    · simp [h1.1, isTerminator, hs h1.2]
    · simp [h2]
    · simp [h2]

theorem weight_step (r : LineReader) (c : Char) :
    weight (r.step c).2.toList + (r.step c).1.line.length =
      r.line.length + if isTerminator c then 0 else 1 := by
  rw [step]
  split_ifs with h1 h2 h3
  · simp [weight]
  · simp [h1.1, isTerminator] at h2
  · simp [weight]
  · simp [weight]

/-- No character of a line is lost while text arrives. -/
theorem weight_feed (r : LineReader) (s : Text) :
    weight (r.feed s).2 + (r.feed s).1.line.length = r.line.length + lineChars s := by
  induction s generalizing r with
  | nil => simp [weight, lineChars]
  | cons c s ih =>
    have hstep := weight_step r c
    have hs := ih (r.step c).1
    simp only [weight, lineChars, feed_cons, List.map_append, List.sum_append,
      List.countP_cons] at hstep hs ⊢
    split_ifs at hstep with hc <;> simp [hc] <;> omega

end LineReader

/-! ## Arrivals -/

/-- What the network does next: data arrive, or the read times out. -/
inductive Arrival (α : Type)
  | data (xs : List α)
  | timeout
  deriving DecidableEq

/-- Everything that arrives. -/
def arrived {α : Type} : List (Arrival α) → List α
  | [] => []
  | .data xs :: as => xs ++ arrived as
  | .timeout :: as => arrived as

section Timeouts

variable {α : Type} (P : List α → Prop) (as : List (Arrival α))

/-- What holds at each timeout, of what has arrived before it: nothing without arrivals. -/
theorem forall_timeout_nil : ∀ pre post : List (Arrival α),
    [] = pre ++ .timeout :: post → P (arrived pre) := by
  intro pre post heq
  simp at heq

theorem forall_timeout_data (xs : List α) :
    (∀ pre post, .data xs :: as = pre ++ .timeout :: post → P (arrived pre)) ↔
      ∀ pre post, as = pre ++ .timeout :: post → P (xs ++ arrived pre) := by
  constructor
  · intro h pre post heq
    exact h (.data xs :: pre) post (by rw [heq]; rfl)
  · intro h pre post heq
    cases pre with
    | nil => simp at heq
    | cons a pre =>
      obtain ⟨rfl, htail⟩ := List.cons.inj heq
      exact h pre post htail

theorem forall_timeout_timeout :
    (∀ pre post, .timeout :: as = pre ++ .timeout :: post → P (arrived pre)) ↔
      P [] ∧ ∀ pre post, as = pre ++ .timeout :: post → P (arrived pre) := by
  constructor
  · intro h
    exact ⟨h [] as rfl, fun pre post heq => h (.timeout :: pre) post (by rw [heq]; rfl)⟩
  · rintro ⟨hnil, h⟩ pre post heq
    cases pre with
    | nil => exact hnil
    | cons a pre =>
      obtain ⟨rfl, htail⟩ := List.cons.inj heq
      exact h pre post htail

end Timeouts

/-- The characters an `InputStreamReader` makes of the octets that arrive; the
    end of the stream may give some more. -/
def decodeArrivals {σ : Type} (d : Decoder σ) (q : σ) :
    List (Arrival UInt8) → List (Arrival Char)
  | [] => [.data (d.flush q)]
  | .data bs :: as => .data (d.run q bs).2 :: decodeArrivals d (d.run q bs).1 as
  | .timeout :: as => .timeout :: decodeArrivals d q as

theorem arrived_decodeArrivals {σ : Type} (d : Decoder σ) (q : σ) (as : List (Arrival UInt8)) :
    arrived (decodeArrivals d q as) =
      (d.run q (arrived as)).2 ++ d.flush (d.run q (arrived as)).1 := by
  induction as generalizing q with
  | nil => simp [decodeArrivals, arrived]
  | cons a as ih =>
    cases a with
    | data bs => simp [decodeArrivals, arrived, ih, Decoder.run_append]
    | timeout => simp [decodeArrivals, arrived, ih]

/-- The lines a reader delivers that tries again after every timeout. -/
def deliver (r : LineReader) : List (Arrival Char) → List Text
  | [] => r.rest
  | .data s :: as => (r.feed s).2 ++ deliver (r.feed s).1 as
  | .timeout :: as => deliver r.interrupt as

/-- The number of characters the timeouts make the reader lose. -/
def lost (r : LineReader) : List (Arrival Char) → ℕ
  | [] => 0
  | .data s :: as => lost (r.feed s).1 as
  | .timeout :: as => r.line.length + lost r.interrupt as

/-- Every character of a line is delivered or lost. -/
theorem weight_deliver (r : LineReader) (as : List (Arrival Char)) :
    weight (deliver r as) + lost r as = r.line.length + lineChars (arrived as) := by
  induction as generalizing r with
  | nil =>
    by_cases h : r.line = [] <;>
      simp [deliver, lost, LineReader.rest, weight, lineChars, arrived, h]
  | cons a as ih =>
    cases a with
    | data s =>
      have hf := LineReader.weight_feed r s
      have hs := ih (r.feed s).1
      simp only [weight, lineChars, deliver, lost, arrived, List.map_append, List.sum_append,
        List.countP_append] at hf hs ⊢
      omega
    | timeout =>
      have hs := ih r.interrupt
      simp only [weight, lineChars, deliver, lost, arrived, LineReader.interrupt,
        List.length_nil] at hs ⊢
      omega

theorem deliver_of_lost_eq_zero {r : LineReader} {as : List (Arrival Char)} (h : lost r as = 0) :
    deliver r as = (r.feed (arrived as)).2 ++ (r.feed (arrived as)).1.rest := by
  induction as generalizing r with
  | nil => simp [deliver, arrived]
  | cons a as ih =>
    cases a with
    | data s =>
      rw [deliver, ih h, arrived, LineReader.feed_append, List.append_assoc]
    | timeout =>
      obtain ⟨hline, hlost⟩ : r.line.length = 0 ∧ lost r.interrupt as = 0 := by
        simpa [lost] using h
      have hr : r.interrupt = r := by
        rw [LineReader.interrupt, ← List.eq_nil_of_length_eq_zero hline]
      rw [hr] at hlost
      rw [deliver, hr, ih hlost, arrived]

/-- Nothing is lost exactly if every timeout falls where a line of the text that
    arrived before it ends. -/
theorem lost_eq_zero_iff (s : Text) (as : List (Arrival Char)) :
    lost (LineReader.start.feed s).1 as = 0 ↔
      ∀ pre post, as = pre ++ .timeout :: post → atBoundary (s ++ arrived pre) := by
  -- By induction on the arrivals: `s` is what has arrived before them.
  induction as generalizing s with
  | nil => exact iff_of_true rfl (forall_timeout_nil fun t => atBoundary (s ++ t))
  | cons a as ih =>
    cases a with
    | data t =>
      have hfeed : ((LineReader.start.feed s).1.feed t).1 = (LineReader.start.feed (s ++ t)).1 := by
        rw [LineReader.feed_append]
      rw [lost, hfeed, ih, forall_timeout_data fun u => atBoundary (s ++ u)]
      simp only [List.append_assoc]
    | timeout =>
      rw [lost, Nat.add_eq_zero_iff, List.length_eq_zero_iff, LineReader.feed_line_eq_nil_iff,
        forall_timeout_timeout fun u => atBoundary (s ++ u), List.append_nil]
      refine and_congr_right fun hb => ?_
      -- At the end of a line, there is nothing that a timeout could drop.
      have hr : (LineReader.start.feed s).1.interrupt = (LineReader.start.feed s).1 := by
        rw [LineReader.interrupt, ← (LineReader.feed_line_eq_nil_iff s).2 hb]
      rw [hr, ih]

/-- Every character that ends no line is in a line. -/
theorem weight_lines (s : Text) : weight (lines s) = lineChars s := by
  have h := weight_deliver LineReader.start [.data s]
  have hlines : deliver LineReader.start [.data s] = lines s := (LineReader.lines_eq_feed s).symm
  rw [hlines] at h
  simpa [lost, arrived, LineReader.start] using h

/-- A reader that delivers at least the lines of the whole stream loses nothing. -/
theorem lost_eq_zero_of_prefix {as : List (Arrival Char)}
    (h : lines (arrived as) <+: deliver LineReader.start as) : lost LineReader.start as = 0 := by
  have hd := weight_deliver LineReader.start as
  have hl := weight_lines (arrived as)
  obtain ⟨ls, hls⟩ := h
  have hw : weight (deliver LineReader.start as) = weight (lines (arrived as)) + weight ls := by
    rw [← hls]
    simp [weight]
  simp only [LineReader.start, List.length_nil] at hd hw ⊢
  omega

/-- The reader delivers the lines of the whole stream exactly if every timeout
    falls where a line ends. -/
theorem deliver_eq_lines_iff (as : List (Arrival Char)) :
    deliver LineReader.start as = lines (arrived as) ↔
      ∀ pre post, as = pre ++ .timeout :: post → atBoundary (arrived pre) := by
  have hlost := lost_eq_zero_iff [] as
  rw [LineReader.feed_nil] at hlost
  simp only [List.nil_append] at hlost
  rw [← hlost]
  constructor
  · intro h
    exact lost_eq_zero_of_prefix (h ▸ List.prefix_rfl)
  · intro h
    rw [deliver_of_lost_eq_zero h, ← LineReader.lines_eq_feed]

/-! ## `readLine` -/

/-- The outcome of a call of `readLine`: a line, `null` at the end of the
    stream, or a `SocketTimeoutException`. -/
inductive ReadLine
  | line (l : Text)
  | endOfStream
  | timeout
  deriving DecidableEq

/-- A `BufferedReader` between two calls: the characters it has buffered, and
    those still to come. -/
structure BufferedReader where
  /-- The state of the reader; no line is unfinished between two calls. -/
  reader : LineReader
  /-- The characters received and not consumed. -/
  buffer : Text
  /-- What the network does next. -/
  coming : List (Arrival Char)

/-- Consume characters up to the end of a line; the line, and the characters
    after it. -/
def LineReader.scan (r : LineReader) : Text → LineReader × Option (Text × Text)
  | [] => (r, none)
  | c :: s =>
    match r.step c with
    | (r', some l) => (r', some (l, s))
    | (r', none) => scan r' s

namespace BufferedReader

/-- A reader of what is to come. -/
def new (coming : List (Arrival Char)) : BufferedReader := ⟨LineReader.start, [], coming⟩

/-- The rest of a call of `readLine`: with the characters consumed so far, those
    buffered and those to come. -/
def readLineFrom : List (Arrival Char) → LineReader → Text → ReadLine × BufferedReader
  | [], r, buffer =>
    match r.scan buffer with
    | (r', some (l, s)) => (.line l, ⟨r', s, []⟩)
    | (r', none) => (if r'.line = [] then .endOfStream else .line r'.line, ⟨r'.interrupt, [], []⟩)
  | a :: coming, r, buffer =>
    match r.scan buffer with
    | (r', some (l, s)) => (.line l, ⟨r', s, a :: coming⟩)
    | (r', none) =>
      match a with
      | .data s => readLineFrom coming r' s
      | .timeout => (.timeout, ⟨r'.interrupt, [], coming⟩)

/-- `BufferedReader.readLine`. -/
def readLine (b : BufferedReader) : ReadLine × BufferedReader :=
  readLineFrom b.coming b.reader b.buffer

/-- The lines the reader has still to deliver. -/
def pending (b : BufferedReader) : List Text := deliver b.reader (.data b.buffer :: b.coming)

/-- What the reader has still to consume. -/
def size (b : BufferedReader) : ℕ := b.buffer.length + (arrived b.coming).length + b.coming.length

end BufferedReader

theorem LineReader.scan_none {r r' : LineReader} {s : Text} (h : r.scan s = (r', none)) :
    r.feed s = (r', []) := by
  induction s generalizing r with
  | nil => simpa [scan] using h
  | cons c s ih =>
    rw [scan] at h
    split at h
    · simp at h
    · next r₁ hstep => simp [feed_cons, hstep, ih h]

theorem LineReader.scan_none_length {r r' : LineReader} {s : Text} (h : r.scan s = (r', none)) :
    r'.line.length ≤ r.line.length + s.length := by
  have hw := weight_feed r s
  have hcount : lineChars s ≤ s.length := List.countP_le_length
  rw [scan_none h] at hw
  simp only [weight, List.map_nil, List.sum_nil, Nat.zero_add] at hw
  omega

theorem LineReader.scan_some {r r' : LineReader} {s l t : Text}
    (h : r.scan s = (r', some (l, t))) :
    r.feed s = ((r'.feed t).1, l :: (r'.feed t).2) ∧ r'.line = [] ∧ t.length < s.length := by
  induction s generalizing r with
  | nil => simp [scan] at h
  | cons c s ih =>
    rw [scan] at h
    split at h
    · next r₁ l₁ hstep =>
      obtain ⟨rfl, rfl, rfl⟩ : r₁ = r' ∧ l₁ = l ∧ s = t := by simpa using h
      have hline : r₁.line = [] := by
        rw [step] at hstep
        split_ifs at hstep <;> simp_all
        rw [← hstep.1]
      exact ⟨by simp [feed_cons, hstep], hline, by simp⟩
    · next r₁ hstep =>
      obtain ⟨hfeed, hline, hlen⟩ := ih h
      exact ⟨by simp [feed_cons, hstep, hfeed], hline, by simp; omega⟩

namespace BufferedReader

/-- A call of `readLine` with the lines `ls` to deliver and `n` things to consume
    takes the first line away, or none, and makes progress before the end. -/
def Spec (ls : List Text) (n : ℕ) : ReadLine × BufferedReader → Prop
  | (.line l, b) => ls = l :: b.pending ∧ b.reader.line = [] ∧ b.size < n
  | (.timeout, b) => ls = b.pending ∧ b.reader.line = [] ∧ b.size < n
  | (.endOfStream, b) => ls = [] ∧ b.pending = [] ∧ b.reader.line = []

theorem Spec.mono {ls : List Text} {n m : ℕ} (h : n ≤ m) :
    ∀ {res : ReadLine × BufferedReader}, Spec ls n res → Spec ls m res
  | (.line _, _), ⟨h1, h2, h3⟩ => ⟨h1, h2, h3.trans_le h⟩
  | (.timeout, _), ⟨h1, h2, h3⟩ => ⟨h1, h2, h3.trans_le h⟩
  | (.endOfStream, _), hs => hs

theorem readLineFrom_spec (coming : List (Arrival Char)) (r : LineReader) (buffer : Text) :
    Spec (deliver r (.data buffer :: coming))
      (r.line.length + buffer.length + (arrived coming).length + coming.length)
      (readLineFrom coming r buffer) := by
  -- By induction on the arrivals to come. The buffer is scanned first; only if it completes no
  -- line does `readLine` wait for the next arrival.
  induction coming generalizing r buffer with
  | nil =>
    rw [readLineFrom]
    split
    · next r' l s hscan =>
      obtain ⟨hfeed, hline, hlen⟩ := LineReader.scan_some hscan
      refine ⟨by simp [deliver, pending, hfeed], hline, ?_⟩
      simp only [size, arrived, List.length_nil]
      omega
    · next r' hscan =>
      have hfeed := LineReader.scan_none hscan
      split_ifs with hnil
      · exact ⟨by simp [deliver, hfeed, LineReader.rest, hnil],
          by simp [pending, deliver, LineReader.rest, LineReader.interrupt], rfl⟩
      · have hpos : 0 < r'.line.length := List.length_pos_of_ne_nil hnil
        have hle := LineReader.scan_none_length hscan
        refine ⟨?_, rfl, ?_⟩
        · simp [deliver, hfeed, LineReader.rest, hnil, pending, LineReader.interrupt]
        · simp only [size, arrived, List.length_nil]
          omega
  | cons a coming ih =>
    rw [readLineFrom]
    split
    · next r' l s hscan =>
      obtain ⟨hfeed, hline, hlen⟩ := LineReader.scan_some hscan
      refine ⟨by simp [deliver, pending, hfeed], hline, ?_⟩
      simp only [size]
      omega
    · next r' hscan =>
      have hfeed := LineReader.scan_none hscan
      have hle := LineReader.scan_none_length hscan
      cases a with
      | data s =>
        have hdeliver : deliver r (.data buffer :: .data s :: coming) =
            deliver r' (.data s :: coming) := by simp [deliver, hfeed]
        rw [hdeliver]
        refine (ih r' s).mono ?_
        simp only [arrived, List.length_append, List.length_cons]
        omega
      | timeout =>
        refine ⟨by simp [deliver, hfeed, pending], rfl, ?_⟩
        simp only [size, arrived, List.length_nil, List.length_cons]
        omega

/-- A call of `readLine` between two calls takes the first pending line. -/
theorem readLine_spec {b : BufferedReader} (hb : b.reader.line = []) :
    Spec b.pending b.size b.readLine := by
  refine (readLineFrom_spec b.coming b.reader b.buffer).mono ?_
  simp [size, hb]

theorem size_of_readLineFrom_endOfStream {coming : List (Arrival Char)} {r : LineReader}
    {buffer : Text} {b : BufferedReader}
    (h : readLineFrom coming r buffer = (.endOfStream, b)) : b.size = 0 := by
  induction coming generalizing r buffer with
  | nil =>
    rw [readLineFrom] at h
    split at h
    · simp at h
    · obtain ⟨-, rfl⟩ := Prod.mk.inj h
      rfl
  | cons a coming ih =>
    rw [readLineFrom] at h
    split at h
    · simp at h
    · cases a with
      | data s => exact ih h
      | timeout => simp at h

/-- What a call of `readLine` between two calls gives and leaves: it takes the first line to
    deliver away, or none, and it makes progress before the end of the stream. -/
inductive Reads (b : BufferedReader) : ReadLine × BufferedReader → Prop
  | line (l : Text) (b' : BufferedReader) (pending : b.pending = l :: b'.pending)
      (between : b'.reader.line = []) (progress : b'.size < b.size) : Reads b (.line l, b')
  | endOfStream (b' : BufferedReader) (pending : b.pending = []) (pending' : b'.pending = [])
      (between : b'.reader.line = []) (consumed : b'.size = 0) : Reads b (.endOfStream, b')
  | timeout (b' : BufferedReader) (pending : b.pending = b'.pending)
      (between : b'.reader.line = []) (progress : b'.size < b.size) : Reads b (.timeout, b')

theorem reads {b : BufferedReader} (hb : b.reader.line = []) : Reads b b.readLine := by
  have hspec := readLine_spec hb
  cases hread : b.readLine with
  | mk read b' =>
    rw [hread] at hspec
    cases read with
    | line l => exact .line l b' hspec.1 hspec.2.1 hspec.2.2
    | timeout => exact .timeout b' hspec.1 hspec.2.1 hspec.2.2
    | endOfStream =>
      exact .endOfStream b' hspec.1 hspec.2.1 hspec.2.2 (size_of_readLineFrom_endOfStream hread)

end BufferedReader

end Java
