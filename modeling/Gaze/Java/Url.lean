import Gaze.Java.Utf8

/-!
# `URLEncoder` and `URLDecoder`

The percent-encoding of `java.net`, with the charset UTF-8. The encoder leaves
the letters, the digits and `.`, `-`, `*`, `_`, writes a space as `+` and every
other character as the escapes of its octets. The decoder decodes each maximal
run of escapes together, and refuses (`none`, an `IllegalArgumentException`) a
`%` that two hexadecimal digits do not follow.

* `URLDecoder.decode_encode`: encoded text is decoded to itself;
* `isUrlChar_of_mem_encode`: no separator of a text protocol occurs in it.
-/

namespace Java

/-- The characters left as they are. -/
def isUnreserved (c : Char) : Bool :=
  c.isAlphanum || c == '.' || c == '-' || c == '*' || c == '_'

/-- The characters of encoded text. -/
def isUrlChar (c : Char) : Bool := isUnreserved c || c == '+' || c == '%'

/-- The hexadecimal digits, in upper case. -/
def hexDigit (n : ℕ) : Char :=
  if n < 10 then Char.ofNat ('0'.toNat + n) else Char.ofNat ('A'.toNat + (n - 10))

/-- The escape of an octet. -/
def escape (b : UInt8) : Text := ['%', hexDigit (b.toNat / 16), hexDigit (b.toNat % 16)]

/-- The value of a hexadecimal digit, which is an ASCII character. -/
def hexValue (c : Char) : Option ℕ :=
  if '0' ≤ c ∧ c ≤ '9' then some (c.toNat - '0'.toNat)
  else if 'a' ≤ c ∧ c ≤ 'f' then some (c.toNat - 'a'.toNat + 10)
  else if 'A' ≤ c ∧ c ≤ 'F' then some (c.toNat - 'A'.toNat + 10)
  else none

/-- The octet the two characters of an escape denote. -/
def unescape (a b : Char) : Option UInt8 :=
  (hexValue a).bind fun high => (hexValue b).map fun low => UInt8.ofNat (16 * high + low)

namespace URLEncoder

/-- The encoding of a character. -/
def encodeChar (c : Char) : Text :=
  if isUnreserved c then [c]
  else if c = ' ' then ['+']
  else (String.utf8EncodeChar c).flatMap escape

/-- `URLEncoder.encode(s, "UTF-8")`. -/
def encode (s : Text) : Text := s.flatMap encodeChar

end URLEncoder

namespace URLDecoder

/-- The decoding of a text, after the octets of the escapes just before it. -/
def decodeFrom (octets : List UInt8) : Text → Option Text
  | [] => some (Utf8.decoder.decode octets)
  | '%' :: a :: b :: s => (unescape a b).bind fun o => decodeFrom (octets ++ [o]) s
  | '%' :: _ => none
  | '+' :: s => (decodeFrom [] s).map fun t => Utf8.decoder.decode octets ++ ' ' :: t
  | c :: s => (decodeFrom [] s).map fun t => Utf8.decoder.decode octets ++ c :: t

/-- `URLDecoder.decode(s, "UTF-8")`; `none` stands for an `IllegalArgumentException`. -/
def decode (s : Text) : Option Text := decodeFrom [] s

end URLDecoder

theorem hexValue_hexDigit {n : ℕ} (hn : n < 16) : hexValue (hexDigit n) = some n := by
  have h : ∀ n : Fin 16, hexValue (hexDigit n) = some n.1 := by decide
  exact h ⟨n, hn⟩

theorem isUnreserved_hexDigit {n : ℕ} (hn : n < 16) : isUnreserved (hexDigit n) := by
  have h : ∀ n : Fin 16, isUnreserved (hexDigit n) := by decide
  exact h ⟨n, hn⟩

/-- An escape is read back. -/
theorem unescape_escape (o : UInt8) :
    unescape (hexDigit (o.toNat / 16)) (hexDigit (o.toNat % 16)) = some o := by
  have ho : o.toNat < 256 := o.toNat_lt
  have hhigh : hexValue (hexDigit (o.toNat / 16)) = some (o.toNat / 16) :=
    hexValue_hexDigit (by omega)
  have hlow : hexValue (hexDigit (o.toNat % 16)) = some (o.toNat % 16) :=
    hexValue_hexDigit (by omega)
  have hvalue : 16 * (o.toNat / 16) + o.toNat % 16 = o.toNat := Nat.div_add_mod ..
  rw [unescape, hhigh, hlow, Option.bind_some, Option.map_some, hvalue, UInt8.ofNat_toNat]

/-! ## The alphabet of encoded text -/

theorem isUrlChar_of_mem_escape {o : UInt8} {c : Char} (h : c ∈ escape o) : isUrlChar c := by
  have ho : o.toNat < 256 := o.toNat_lt
  simp only [escape, List.mem_cons, List.not_mem_nil, or_false] at h
  rcases h with rfl | rfl | rfl
  · decide
  · simp [isUrlChar, isUnreserved_hexDigit (show o.toNat / 16 < 16 by omega)]
  · simp [isUrlChar, isUnreserved_hexDigit (show o.toNat % 16 < 16 by omega)]

theorem isUrlChar_of_mem_encode {s : Text} {c : Char} (h : c ∈ URLEncoder.encode s) :
    isUrlChar c := by
  obtain ⟨d, -, hc⟩ := List.mem_flatMap.1 h
  rw [URLEncoder.encodeChar] at hc
  split_ifs at hc with hd hs
  · rw [List.mem_singleton.1 hc, isUrlChar, hd]
    rfl
  · rw [List.mem_singleton.1 hc]
    decide
  · obtain ⟨o, -, ho⟩ := List.mem_flatMap.1 hc
    exact isUrlChar_of_mem_escape ho

/-! ## The round trip -/

theorem decodeFrom_escapes (octets os : List UInt8) (s : Text) :
    URLDecoder.decodeFrom octets (os.flatMap escape ++ s) =
      URLDecoder.decodeFrom (octets ++ os) s := by
  induction os generalizing octets with
  | nil => simp
  | cons o os ih =>
    have ho : (o :: os).flatMap escape ++ s = '%' :: hexDigit (o.toNat / 16) ::
        hexDigit (o.toNat % 16) :: (os.flatMap escape ++ s) := rfl
    rw [ho, URLDecoder.decodeFrom, unescape_escape, Option.bind_some, ih, List.append_assoc]
    rfl

theorem decodeFrom_plain {c : Char} (hpercent : c ≠ '%') (hplus : c ≠ '+') (octets : List UInt8)
    (s : Text) : URLDecoder.decodeFrom octets (c :: s) =
      (URLDecoder.decodeFrom [] s).map fun t => Utf8.decoder.decode octets ++ c :: t := by
  rw [URLDecoder.decodeFrom]
  · exact fun _ _ _ h _ => hpercent h
  · exact hpercent
  · exact hplus

theorem decodeFrom_unreserved {c : Char} (hc : isUnreserved c) (octets : List UInt8) (s : Text) :
    URLDecoder.decodeFrom octets (c :: s) =
      (URLDecoder.decodeFrom [] s).map fun t => Utf8.decoder.decode octets ++ c :: t := by
  have hpercent : c ≠ '%' := by rintro rfl; exact absurd hc (by decide)
  have hplus : c ≠ '+' := by rintro rfl; exact absurd hc (by decide)
  exact decodeFrom_plain hpercent hplus octets s

/-- The decoding of encoded text, after the escapes of the characters `t`, and before a text
    that is decoded to `u`. -/
theorem decodeFrom_encode_append {rest u : Text}
    (hrest : ∀ t, URLDecoder.decodeFrom (encodeUtf8 t) rest = some (t ++ u)) (t s : Text) :
    URLDecoder.decodeFrom (encodeUtf8 t) (URLEncoder.encode s ++ rest) =
      some (t ++ (s ++ u)) := by
  induction s generalizing t with
  | nil => exact hrest t
  | cons c s ih =>
    have hs : URLEncoder.encode (c :: s) ++ rest =
        URLEncoder.encodeChar c ++ (URLEncoder.encode s ++ rest) := List.append_assoc _ _ _
    have hnil : URLDecoder.decodeFrom [] (URLEncoder.encode s ++ rest) = some (s ++ u) := ih []
    rw [hs, URLEncoder.encodeChar]
    split_ifs with hc hsp
    · rw [List.singleton_append, decodeFrom_unreserved hc, hnil, Option.map_some,
        Utf8.decode_encodeUtf8, List.cons_append]
    · rw [List.singleton_append, URLDecoder.decodeFrom, hnil, Option.map_some,
        Utf8.decode_encodeUtf8, hsp, List.cons_append]
    · have ht : encodeUtf8 t ++ String.utf8EncodeChar c = encodeUtf8 (t ++ [c]) := by
        simp [encodeUtf8]
      rw [decodeFrom_escapes, ht, ih, List.append_assoc, List.singleton_append, List.cons_append]

/-- The decoding of encoded text, after the escapes of the characters `t`. -/
theorem decodeFrom_encode (t s : Text) :
    URLDecoder.decodeFrom (encodeUtf8 t) (URLEncoder.encode s) = some (t ++ s) := by
  have hnil : ∀ t, URLDecoder.decodeFrom (encodeUtf8 t) [] = some (t ++ []) := fun t => by
    rw [URLDecoder.decodeFrom, Utf8.decode_encodeUtf8, List.append_nil]
  have h := decodeFrom_encode_append hnil t s
  rwa [List.append_nil, List.append_nil] at h

/-- Encoded text is decoded to itself. -/
theorem URLDecoder.decode_encode (s : Text) : decode (URLEncoder.encode s) = some s :=
  decodeFrom_encode [] s

end Java
