import Mathlib.Tactic.Common

/-!
# Programs that read from a connection

A peer sends bytes, and closes its side of the connection. The network cuts the
bytes: `recv` returns some of those that have not been received, at least one, as
long as there are any, and then none (`Connection`).

A program that reads from a connection asks for given numbers of bytes, and goes on
with them (`Reading`).

* On the bytes that the peer sends, it gets a result, or the bytes are not enough
  (`parse`).
* On a connection, it runs a function that reads a given number of bytes, and that
  calls `recv` as many times as it needs (`exec`).

What the program returns in the second way is what it returns in the first one
(`parse_of_exec_ok`), and if the function returns as soon as there are enough bytes
(`Fills`), it returns in the second way what it does in the first one: the way the bytes
are cut does not matter (`exec_of_parse`, `eq_of_exec`). If the function never ends when
the bytes are not enough (`FillsOnly`), nor does the program (`exec_eq_none`).
-/

namespace Socket

/-- The bytes that have not been received, of those that a peer sends before it closes its
    side, and the most that the next calls of `recv` return, less one. -/
structure Connection where
  pending : List UInt8
  cuts : ℕ → ℕ

/-- `recv`: at most `length` bytes. -/
def Connection.recv (c : Connection) (length : ℕ) : List UInt8 × Connection :=
  (c.pending.take (min length (c.cuts 0 + 1)),
    ⟨c.pending.drop (min length (c.cuts 0 + 1)), fun i => c.cuts (i + 1)⟩)

/-- There is a byte, if any is asked for, and some have not been received. -/
theorem Connection.length_recv_pos {c : Connection} {length : ℕ} (hlength : 0 < length)
    (hpending : 0 < c.pending.length) : 0 < (c.recv length).1.length := by
  rw [recv, List.length_take]
  omega

theorem Connection.length_recv_le (c : Connection) (length : ℕ) :
    (c.recv length).1.length ≤ length := by
  rw [recv, List.length_take]
  omega

/-- What has been received, and then what has not. -/
theorem Connection.recv_append (c : Connection) (length : ℕ) :
    (c.recv length).1 ++ (c.recv length).2.pending = c.pending :=
  List.take_append_drop _ _

/-- A program that reads, throwing exceptions in `ε` and returning an `α`. -/
inductive Reading (ε α : Type)
  | pure (a : α)
  | throw (e : ε)
  | read (length : ℕ) (k : List UInt8 → Reading ε α)

namespace Reading

variable {ε α β : Type}

/-- Sequencing. -/
def bind : Reading ε α → (α → Reading ε β) → Reading ε β
  | pure a, f => f a
  | throw e, _ => throw e
  | read length k, f => read length fun bytes => (k bytes).bind f

instance : Monad (Reading ε) where
  pure := pure
  bind := bind

/-- What the program returns or throws on the bytes that the peer sends, and the bytes that
    it has not read; `none` when they are not enough. -/
def parse : Reading ε α → List UInt8 → Option (Except ε α × List UInt8)
  | pure a, bytes => some (.ok a, bytes)
  | throw e, bytes => some (.error e, bytes)
  | read length k, bytes =>
    if length ≤ bytes.length then (k (bytes.take length)).parse (bytes.drop length) else none

/-- What the program returns or throws on a connection, with a function that reads a number of
    bytes; `none` when this function does not end. -/
def exec (reader : ℕ → Connection → Option (Except ε (List UInt8) × Connection)) :
    Reading ε α → Connection → Option (Except ε α × Connection)
  | pure a, c => some (.ok a, c)
  | throw e, c => some (.error e, c)
  | read length k, c =>
    match reader length c with
    | none => none
    | some (.error e, c) => some (.error e, c)
    | some (.ok bytes, c) => (k bytes).exec reader c

section Parse

variable {f : α → Reading ε β} {bytes rest : List UInt8}

@[simp] theorem parse_pure (a : α) :
    (Pure.pure a : Reading ε α).parse bytes = some (.ok a, bytes) :=
  rfl

@[simp] theorem parse_throw (e : ε) :
    (throw e : Reading ε α).parse bytes = some (.error e, bytes) :=
  rfl

@[simp] theorem throw_bind (e : ε) : throw e >>= f = throw e := rfl

/-- A program that reads some bytes goes on with them. -/
theorem parse_read_append {k : List UInt8 → Reading ε α} :
    (read bytes.length k).parse (bytes ++ rest) = (k bytes).parse rest := by
  rw [parse, if_pos (by simp), List.take_left, List.drop_left]

end Parse

/-! ## The programs on a connection -/

/-- What the function, which may call `recv` a given number of times, returns is the given number
    of bytes, and it leaves the others. -/
def Reads (reader : ℕ → ℕ → Connection → Option (Except ε (List UInt8) × Connection)) : Prop :=
  ∀ fuel length c bytes c', reader fuel length c = some (.ok bytes, c') →
    bytes.length = length ∧ c.pending = bytes ++ c'.pending

/-- The function returns the given number of bytes if there are as many. -/
structure Fills (reader : ℕ → ℕ → Connection → Option (Except ε (List UInt8) × Connection)) :
    Prop where
  whole : ∀ length c, length ≤ c.pending.length → ∃ c', c'.pending = c.pending.drop length ∧
    (∀ fuel r, reader fuel length c = some r → r = (.ok (c.pending.take length), c')) ∧
    ∀ fuel, length < fuel → (reader fuel length c).isSome

/-- And otherwise, it never ends. -/
structure FillsOnly (reader : ℕ → ℕ → Connection → Option (Except ε (List UInt8) × Connection)) :
    Prop extends Fills reader where
  short : ∀ fuel length c, c.pending.length < length → reader fuel length c = none

variable {reader : ℕ → ℕ → Connection → Option (Except ε (List UInt8) × Connection)}
  {p : Reading ε α} {c : Connection} {rest : List UInt8} {r : Except ε α}

/-- What a program returns or throws, and the bytes that it leaves, do not depend on the way
    the network cuts them. -/
theorem exec_of_parse (h : Fills reader) (hp : p.parse c.pending = some (r, rest)) :
    ∃ bound c', c'.pending = rest ∧
      ∀ fuel, bound ≤ fuel → p.exec (reader fuel) c = some (r, c') := by
  induction p generalizing c with
  | pure a | throw e =>
    obtain ⟨rfl, rfl⟩ := Prod.mk.inj (Option.some.inj hp)
    exact ⟨0, c, rfl, fun _ _ => rfl⟩
  | read length k ih =>
    rw [parse] at hp
    split_ifs at hp with hlength
    obtain ⟨c₁, hpending, hread, hsome⟩ := h.whole length c hlength
    obtain ⟨bound, c', hrest, hexec⟩ := ih (c.pending.take length) (c := c₁) (hpending ▸ hp)
    refine ⟨max bound (length + 1), c', hrest, fun fuel hfuel => ?_⟩
    obtain ⟨r₁, hr₁⟩ := Option.isSome_iff_exists.1 (hsome fuel (by omega))
    rw [exec, hr₁, hread fuel r₁ hr₁]
    exact hexec fuel (by omega)

/-- When the bytes are enough, a program returns or throws nothing else. -/
theorem eq_of_exec (h : Fills reader) (hp : p.parse c.pending = some (r, rest)) {fuel : ℕ}
    {r' : Except ε α} {c' : Connection} (hexec : p.exec (reader fuel) c = some (r', c')) :
    r' = r := by
  induction p generalizing c with
  | pure a | throw e =>
    obtain ⟨rfl, -⟩ := Prod.mk.inj (Option.some.inj hp)
    exact (Prod.mk.inj (Option.some.inj hexec)).1.symm
  | read length k ih =>
    rw [parse] at hp
    split_ifs at hp with hlength
    obtain ⟨c₁, hpending, hread, -⟩ := h.whole length c hlength
    rw [exec] at hexec
    cases hreader : reader fuel length c with
    | none => exact absurd hexec (by simp [hreader])
    | some r₁ =>
      rw [hreader, hread fuel r₁ hreader] at hexec
      exact ih _ (hpending ▸ hp) hexec

/-- What a program has returned is its result on the bytes that the peer sends. -/
theorem parse_of_exec_ok (h : Reads reader) {c' : Connection} {fuel : ℕ} {a : α}
    (hexec : p.exec (reader fuel) c = some (.ok a, c')) :
    p.parse c.pending = some (.ok a, c'.pending) := by
  induction p generalizing c with
  | pure b =>
    obtain ⟨hr, rfl⟩ := Prod.mk.inj (Option.some.inj hexec)
    obtain rfl := Except.ok.inj hr
    rfl
  | throw e => exact absurd hexec (by simp [exec])
  | read length k ih =>
    rw [exec] at hexec
    split at hexec
    · exact absurd hexec (by simp)
    · exact absurd hexec (by simp)
    · next bytes c₁ hreader =>
      obtain ⟨rfl, hpending⟩ := h fuel length c bytes c₁ hreader
      rw [hpending, parse_read_append]
      exact ih bytes hexec

/-- What a program has returned or thrown is its result on the bytes that the peer sends. -/
theorem parse_of_exec (h : FillsOnly reader) {c' : Connection} {fuel : ℕ}
    (hexec : p.exec (reader fuel) c = some (r, c')) : p.parse c.pending = some (r, c'.pending) := by
  induction p generalizing c with
  | pure a | throw e =>
    obtain ⟨rfl, rfl⟩ := Prod.mk.inj (Option.some.inj hexec)
    rfl
  | read length k ih =>
    rw [exec] at hexec
    cases hreader : reader fuel length c with
    | none => exact absurd hexec (by simp [hreader])
    | some r₁ =>
      by_cases hlength : length ≤ c.pending.length
      · obtain ⟨c₁, hpending, hread, -⟩ := h.whole length c hlength
        rw [hreader, hread fuel r₁ hreader] at hexec
        rw [parse, if_pos hlength, ← hpending]
        exact ih _ hexec
      · rw [h.short fuel length c (Nat.lt_of_not_le hlength)] at hreader
        exact absurd hreader (by simp)

/-- A program does not end when the bytes are not enough. -/
theorem exec_eq_none (h : FillsOnly reader) (hp : p.parse c.pending = none) (fuel : ℕ) :
    p.exec (reader fuel) c = none := by
  cases hexec : p.exec (reader fuel) c with
  | none => rfl
  | some r =>
    rw [parse_of_exec h hexec] at hp
    exact absurd hp (by simp)

end Reading

end Socket
