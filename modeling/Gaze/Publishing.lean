import Mathlib.Data.List.Basic
import Mathlib.Tactic.Common

/-!
# Pairs published in two writes

A writer publishes pairs in two registers: the second component of a pair first, and then the
first one. Others read the first register, and then the second one; they may also clear the
first one. Nothing keeps a pair from being published between two writes or two reads, so that
what is read may be the components of two pairs. And nothing synchronizes the registers: a read
may see any value that has been written (`Register.Sees`), and not only the last one.

* `Registers.PublishedBy`: what the registers hold, after some pairs have been published, and
  maybe half of the last one. Each write keeps it.
* `Published`: a component is that of one pair, and the other one that of maybe another.
* `NoOlder`: a second component is not older than a first one: it belongs to the same pair, or to
  one that has been published later.
* `Registers.PublishedBy.noOlder`: what is read is so, if the second register is read up to date,
  because the reads are in the opposite order of the writes.
* `Published.mem_of_const`: if all the pairs have the same second component, what is read is a
  pair.
-/

namespace Publishing

variable {α β : Type*}

/-- A register without synchronization: its value, and those that it had before. -/
structure Register (β : Type*) where
  value : β
  past : List β
  deriving DecidableEq

namespace Register

/-- Nothing has been written. -/
def new (b : β) : Register β := ⟨b, []⟩

def write (r : Register β) (b : β) : Register β := ⟨b, r.value :: r.past⟩

/-- A read may see this value. -/
def Sees (r : Register β) (b : β) : Prop := b ∈ r.value :: r.past

instance [DecidableEq β] (r : Register β) (b : β) : Decidable (r.Sees b) :=
  inferInstanceAs (Decidable (b ∈ r.value :: r.past))

@[simp] theorem sees_write {r : Register β} {b b' : β} :
    (r.write b).Sees b' ↔ b' = b ∨ r.Sees b' := List.mem_cons

@[simp] theorem sees_new {b b' : β} : (new b).Sees b' ↔ b' = b := List.mem_singleton

end Register

/-- The registers, and the first component of a pair that is half published. -/
structure Registers (α β : Type*) where
  first : Register (Option α)
  second : Register β
  writing : Option α

namespace Registers

/-- The second component of a pair is written. -/
def publish (r : Registers α β) (x : α × β) : Registers α β :=
  { r with second := r.second.write x.2, writing := some x.1 }

/-- The first component is written. -/
def complete (r : Registers α β) : Registers α β := ⟨r.first.write r.writing, r.second, none⟩

/-- The first register is cleared. -/
def clear (r : Registers α β) : Registers α β := { r with first := r.first.write none }

/-- The registers are what the publication of these pairs, in order, may leave, where the second
    one was `b₀` before. -/
structure PublishedBy (b₀ : β) (r : Registers α β) (pairs : List (α × β)) : Prop where
  first : ∀ a, r.first.Sees (some a) → ∃ b, (a, b) ∈ pairs
  second : ∀ b, r.second.Sees b → b = b₀ ∨ ∃ a, (a, b) ∈ pairs
  last : ∀ x ∈ pairs.getLast?, r.second.value = x.2
  writing : ∀ a ∈ r.writing, pairs.getLast? = some (a, r.second.value)

end Registers

/-- Both components have been published, maybe in two pairs. -/
def Published (pairs : List (α × β)) (a : α) (b : β) : Prop :=
  (∃ b', (a, b') ∈ pairs) ∧ ∃ a', (a', b) ∈ pairs

/-- The second component belongs to a pair with this first component, or to a later one. -/
def NoOlder (pairs : List (α × β)) (a : α) (b : β) : Prop :=
  ∃ before b' after, pairs = before ++ (a, b') :: after ∧ ∃ x ∈ (a, b') :: after, x.2 = b

variable {r : Registers α β} {pairs : List (α × β)} {a : α} {b b₀ : β}

/-! ## What is read -/

/-- Other pairs may be published later. -/
theorem Published.append (h : Published pairs a b) (later : List (α × β)) :
    Published (pairs ++ later) a b :=
  ⟨h.1.imp fun _ ha => List.mem_append_left later ha,
    h.2.imp fun _ hb => List.mem_append_left later hb⟩

theorem NoOlder.append (h : NoOlder pairs a b) (later : List (α × β)) :
    NoOlder (pairs ++ later) a b := by
  obtain ⟨before, b', after, rfl, x, hx, rfl⟩ := h
  refine ⟨before, b', after ++ later, by simp, x, ?_, rfl⟩
  exact List.mem_append_left later hx

theorem NoOlder.published (h : NoOlder pairs a b) : Published pairs a b := by
  obtain ⟨before, b', after, rfl, x, hx, rfl⟩ := h
  exact ⟨⟨b', by simp⟩, x.1, List.mem_append_right before hx⟩

/-- Pairs with the same second component are not mixed up. -/
theorem Published.mem_of_const (h : Published pairs a b)
    (hconst : ∀ x ∈ pairs, ∀ y ∈ pairs, x.2 = y.2) : (a, b) ∈ pairs := by
  obtain ⟨⟨b', ha⟩, a', hb⟩ := h
  have heq : b' = b := hconst _ ha _ hb
  exact heq ▸ ha

/-- Pairs with the same first component are those of one publisher, one of whose second components
    is read. -/
theorem Published.mem_of_const_fst (h : Published pairs a b)
    (hconst : ∀ x ∈ pairs, ∀ y ∈ pairs, x.1 = y.1) : (a, b) ∈ pairs := by
  obtain ⟨⟨b', ha⟩, a', hb⟩ := h
  have heq : a' = a := hconst _ hb _ ha
  exact heq ▸ hb

/-! ## The writes -/

namespace Registers.PublishedBy

theorem new : PublishedBy b₀ ⟨.new none, .new b₀, none⟩ ([] : List (α × β)) where
  first _ ha := nomatch Register.sees_new.1 ha
  second _ hb := .inl (Register.sees_new.1 hb)
  last _ hx := nomatch hx
  writing _ ha := nomatch ha

theorem publish (h : r.PublishedBy b₀ pairs) (x : α × β) :
    (r.publish x).PublishedBy b₀ (pairs ++ [x]) where
  first a ha := (h.first a ha).imp fun _ hb => List.mem_append_left _ hb
  second b hb := by
    rcases Register.sees_write.1 hb with rfl | hold
    · exact .inr ⟨x.1, List.mem_append_right _ (List.mem_singleton_self x)⟩
    · exact (h.second b hold).imp_right (Exists.imp fun _ ha => List.mem_append_left _ ha)
  last y hy := by
    rw [List.getLast?_concat] at hy
    exact congrArg Prod.snd (Option.some.inj hy)
  writing a ha := by
    rw [List.getLast?_concat]
    exact congrArg (fun a => some (a, x.2)) (Option.some.inj ha)

theorem complete (h : r.PublishedBy b₀ pairs) : r.complete.PublishedBy b₀ pairs where
  first a ha := by
    rcases Register.sees_write.1 ha with hwriting | hold
    · exact ⟨r.second.value, List.mem_of_getLast? (h.writing a hwriting.symm)⟩
    · exact h.first a hold
  second := h.second
  last := h.last
  writing _ ha := nomatch ha

theorem clear (h : r.PublishedBy b₀ pairs) : r.clear.PublishedBy b₀ pairs where
  first a ha := h.first a ((Register.sees_write.1 ha).resolve_left nofun)
  second := h.second
  last := h.last
  writing := h.writing

/-- What is read has been published, unless the second register has been read as it was before. -/
theorem published (h : r.PublishedBy b₀ pairs) (ha : (a, b) ∈ pairs) {b' : β}
    (hb' : r.second.Sees b') (hne : b' ≠ b₀) : Published pairs a b' :=
  ⟨⟨b, ha⟩, (h.second b' hb').resolve_left hne⟩

/-- The second register, as it is now, is not older than what has been read in the first one, at
    any time before. -/
theorem noOlder (h : r.PublishedBy b₀ pairs) (ha : (a, b) ∈ pairs) :
    NoOlder pairs a r.second.value := by
  obtain ⟨before, after, rfl⟩ := List.append_of_mem ha
  refine ⟨before, b, after, rfl, _, List.getLast_mem (List.cons_ne_nil (a, b) after), ?_⟩
  refine (h.last _ ?_).symm
  rw [List.getLast?_append_of_ne_nil _ (List.cons_ne_nil (a, b) after)]
  exact List.getLast?_eq_some_getLast _

end Registers.PublishedBy

end Publishing
