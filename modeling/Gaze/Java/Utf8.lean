import Gaze.Java.Text
import Mathlib.Data.Nat.Notation

/-!
# UTF-8

The charset Java reads and writes text with. Encoding is the one of Lean's
strings. Decoding is total, as Java's is: it goes octet by octet, as an
`InputStreamReader` receives them, and puts the replacement character for every
maximal sequence of octets that starts no character (`Decoder`).

* `decode_encodeUtf8`: encoded text is decoded to itself.
-/

namespace Java

/-- The octets of a text. -/
def encodeUtf8 (s : Text) : List UInt8 := s.flatMap String.utf8EncodeChar

/-- A charset decoder fed octet by octet: from each state, an octet gives some
    characters (none inside a character) and the next state, and the end of the
    input gives the characters of what is left over. -/
structure Decoder (σ : Type) where
  /-- The state between characters. -/
  start : σ
  /-- The state and the characters an octet gives. -/
  step : σ → UInt8 → σ × Text
  /-- The characters the end of the input gives. -/
  flush : σ → Text

namespace Decoder

variable {σ : Type} (d : Decoder σ)

/-- The state and the characters a sequence of octets gives. -/
def run : σ → List UInt8 → σ × Text
  | q, [] => (q, [])
  | q, b :: bs =>
    let (q', s) := d.step q b
    let (q'', t) := run q' bs
    (q'', s ++ t)

/-- The text of a whole sequence of octets. -/
def decode (bs : List UInt8) : Text :=
  let (q, s) := d.run d.start bs
  s ++ d.flush q

@[simp] theorem run_nil (q : σ) : d.run q [] = (q, []) := rfl

theorem run_cons (q : σ) (b : UInt8) (bs : List UInt8) :
    d.run q (b :: bs) =
      ((d.run (d.step q b).1 bs).1, (d.step q b).2 ++ (d.run (d.step q b).1 bs).2) := rfl

/-- Octets arriving in two pieces give the same characters as in one. -/
theorem run_append (q : σ) (bs cs : List UInt8) :
    d.run q (bs ++ cs) =
      ((d.run (d.run q bs).1 cs).1, (d.run q bs).2 ++ (d.run (d.run q bs).1 cs).2) := by
  induction bs generalizing q with
  | nil => simp
  | cons b bs ih => simp [run_cons, ih]

end Decoder

namespace Utf8

/-- What an unfinished character has come to. -/
structure Partial where
  /-- The bits of the octets seen. -/
  value : ℕ
  /-- The number of octets owed. -/
  owed : ℕ
  /-- The least octet that may come next. -/
  low : ℕ
  /-- The greatest octet that may come next. -/
  high : ℕ
  deriving DecidableEq

/-- The replacement character. -/
def replacement : Char := '\uFFFD'

/-- The first octet of a character. -/
def first (b : ℕ) : Option Partial × Text :=
  if b ≤ 0x7F then (none, [Char.ofNat b])
  else if 0xC2 ≤ b ∧ b ≤ 0xDF then (some ⟨b - 0xC0, 1, 0x80, 0xBF⟩, [])
  else if b = 0xE0 then (some ⟨0, 2, 0xA0, 0xBF⟩, [])
  else if b = 0xED then (some ⟨0xD, 2, 0x80, 0x9F⟩, [])
  else if 0xE1 ≤ b ∧ b ≤ 0xEF then (some ⟨b - 0xE0, 2, 0x80, 0xBF⟩, [])
  else if b = 0xF0 then (some ⟨0, 3, 0x90, 0xBF⟩, [])
  else if 0xF1 ≤ b ∧ b ≤ 0xF3 then (some ⟨b - 0xF0, 3, 0x80, 0xBF⟩, [])
  else if b = 0xF4 then (some ⟨4, 3, 0x80, 0x8F⟩, [])
  else (none, [replacement])

/-- One more octet: it continues the unfinished character, or ends it
    prematurely and starts the next one. -/
def step : Option Partial → UInt8 → Option Partial × Text
  | none, b => first b.toNat
  | some p, b =>
    if p.low ≤ b.toNat ∧ b.toNat ≤ p.high then
      let value := 64 * p.value + (b.toNat - 0x80)
      if p.owed = 1 then (none, [Char.ofNat value])
      else (some ⟨value, p.owed - 1, 0x80, 0xBF⟩, [])
    else ((first b.toNat).1, replacement :: (first b.toNat).2)

/-- The UTF-8 decoder of `InputStreamReader` and of `new String(bytes, "UTF-8")`. -/
def decoder : Decoder (Option Partial) where
  start := none
  step := step
  flush q := if q.isSome then [replacement] else []

section Steps

variable {b : UInt8} {n : ℕ}

/-- An octet in its range, inside a character. -/
theorem run_inner {value owed low high : ℕ} (hb : b.toNat = n + 0x80)
    (hlow : low ≤ n + 0x80) (hhigh : n + 0x80 ≤ high) (ho : owed ≠ 1) (bs : List UInt8) :
    decoder.run (some ⟨value, owed, low, high⟩) (b :: bs) =
      decoder.run (some ⟨64 * value + n, owed - 1, 0x80, 0xBF⟩) bs := by
  simp [Decoder.run_cons, decoder, step, hb, hlow, hhigh, ho]

/-- The last octet of a character. -/
theorem run_last {value low high : ℕ} (hb : b.toNat = n + 0x80)
    (hlow : low ≤ n + 0x80) (hhigh : n + 0x80 ≤ high) :
    decoder.run (some ⟨value, 1, low, high⟩) [b] = (none, [Char.ofNat (64 * value + n)]) := by
  simp [Decoder.run_cons, decoder, step, hb, hlow, hhigh]

/-- The first octet of a character of two octets and more. -/
theorem run_first {p : Partial} (hb : b.toNat = n) (hp : first n = (some p, []))
    (bs : List UInt8) : decoder.run none (b :: bs) = decoder.run (some p) bs := by
  simp [Decoder.run_cons, decoder, step, hb, hp]

end Steps

/-- The octets of one character give this character. -/
theorem run_utf8EncodeChar (c : Char) :
    decoder.run none (String.utf8EncodeChar c) = (none, [c]) := by
  have hc : c.toNat < 0xD800 ∨ (0xDFFF < c.toNat ∧ c.toNat < 0x110000) := c.valid
  have hof : ∀ n, n = c.toNat → Char.ofNat n = c := fun n hn => hn ▸ c.ofNat_toNat
  have hb : ∀ n, n < 256 → (UInt8.ofNat n).toNat = n := fun n hn => by
    simp [Nat.mod_eq_of_lt hn]
  rw [String.utf8EncodeChar]
  change decoder.run none (if c.toNat ≤ 0x7f then _ else if c.toNat ≤ 0x7ff then _ else
    if c.toNat ≤ 0xffff then _ else _) = _
  generalize hv : c.val.toNat = v
  have hcv : c.toNat = v := hv
  rw [hcv] at hc hof ⊢
  -- One case for each number of octets. The first octet says how many follow, and bounds the
  -- second one, which excludes overlong forms and surrogates.
  split_ifs with h1 h2 h3
  · simp [Decoder.run_cons, decoder, step, first, hb v (by omega), h1, hof v rfl]
  · have hfirst : first (v / 64 % 32 + 0xc0) = (some ⟨v / 64, 1, 0x80, 0xBF⟩, []) := by
      rw [first, if_neg (by omega), if_pos (by omega),
        show v / 64 % 32 + 0xc0 - 0xC0 = v / 64 by omega]
    rw [run_first (hb _ (by omega)) hfirst, run_last (hb _ (by omega)) (by omega) (by omega),
      hof _ (by omega)]
  · have hfirst : ∃ low high, first (v / 4096 % 16 + 0xe0) = (some ⟨v / 4096, 2, low, high⟩, []) ∧
        low ≤ v / 64 % 64 + 0x80 ∧ v / 64 % 64 + 0x80 ≤ high := by
      rw [first, if_neg (by omega), if_neg (by omega)]
      split_ifs with h4 h5 h6
      · exact ⟨0xA0, 0xBF, by rw [show v / 4096 = 0 by omega], by omega, by omega⟩
      · exact ⟨0x80, 0x9F, by rw [show v / 4096 = 0xD by omega], by omega, by omega⟩
      · exact ⟨0x80, 0xBF, by rw [show v / 4096 % 16 + 0xe0 - 0xE0 = v / 4096 by omega],
          by omega, by omega⟩
      all_goals omega
    obtain ⟨low, high, hfirst, hlow, hhigh⟩ := hfirst
    rw [run_first (hb _ (by omega)) hfirst, run_inner (hb _ (by omega)) hlow hhigh (by omega),
      run_last (hb _ (by omega)) (by omega) (by omega), hof _ (by omega)]
  · have hfirst : ∃ low high,
        first (v / 262144 % 8 + 0xf0) = (some ⟨v / 262144, 3, low, high⟩, []) ∧
        low ≤ v / 4096 % 64 + 0x80 ∧ v / 4096 % 64 + 0x80 ≤ high := by
      rw [first, if_neg (by omega), if_neg (by omega), if_neg (by omega), if_neg (by omega),
        if_neg (by omega)]
      split_ifs with h4 h5 h6
      · exact ⟨0x90, 0xBF, by rw [show v / 262144 = 0 by omega], by omega, by omega⟩
      · exact ⟨0x80, 0xBF, by rw [show v / 262144 % 8 + 0xf0 - 0xF0 = v / 262144 by omega],
          by omega, by omega⟩
      · exact ⟨0x80, 0x8F, by rw [show v / 262144 = 4 by omega], by omega, by omega⟩
      · omega
    obtain ⟨low, high, hfirst, hlow, hhigh⟩ := hfirst
    rw [run_first (hb _ (by omega)) hfirst, run_inner (hb _ (by omega)) hlow hhigh (by omega),
      run_inner (hb _ (by omega)) (by omega) (by omega) (by omega),
      run_last (hb _ (by omega)) (by omega) (by omega), hof _ (by omega)]

theorem run_encodeUtf8 (s : Text) : decoder.run none (encodeUtf8 s) = (none, s) := by
  induction s with
  | nil => rfl
  | cons c s ih =>
    have hs : encodeUtf8 (c :: s) = String.utf8EncodeChar c ++ encodeUtf8 s := rfl
    rw [hs, Decoder.run_append, run_utf8EncodeChar, ih]
    rfl

/-- Encoded text is decoded to itself. -/
theorem decode_encodeUtf8 (s : Text) : decoder.decode (encodeUtf8 s) = s := by
  have h := run_encodeUtf8 s
  rw [Decoder.decode, show decoder.start = none from rfl, h]
  simp [decoder]

end Utf8

end Java
