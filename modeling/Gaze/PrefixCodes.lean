import Mathlib.Data.List.Basic
import Mathlib.Data.List.Infix
import Mathlib.Data.List.Nodup
import Mathlib.Data.List.Pairwise
import Mathlib.Tactic.Common

/-!
# Prefix codes and their trees

A code is a word of bits with a symbol. In a list of codes no word of which is the beginning of
another (`PrefixFree`), a string of bits begins with the word of at most one code (`codeOf`).

The tree of the codes has a node for each word of at least `root` bits that goes on in a code: the
shorter words have none, since the first `root` bits are looked up at once. The nodes are numbered
as they are found to be missing, code after code, and each from the shortest on (`Nodes`), so that
the tree may lie in arrays: at a word there is a node, the symbol of the code that the word begins
with, or nothing yet (`entry`).

* `PrefixFree.codeOf_eq`: a string that goes on after a code begins with this code only.
* `Nodes.enlist`, `Nodes.concat`: how a code is added, node after node.
* `nodes_nodesOf`: the nodes of the tree are the words that go on in a code.
* `entryAt_concat_node`, `entryAt_concat_code`: what is added changes one place of the array only.
-/

namespace PrefixCodes

abbrev Word := List Bool

variable {α : Type*}

/-- No word is the beginning of another one. -/
def PrefixFree (codes : List (Word × α)) : Prop :=
  codes.Pairwise fun c d => ¬ c.1 <+: d.1 ∧ ¬ d.1 <+: c.1

/-- The word goes on in a code. -/
def IsInner (codes : List (Word × α)) (w : Word) : Prop :=
  ∃ c ∈ codes, w <+: c.1 ∧ w.length < c.1.length

instance (codes : List (Word × α)) (w : Word) : Decidable (IsInner codes w) :=
  inferInstanceAs (Decidable (∃ c ∈ codes, w <+: c.1 ∧ w.length < c.1.length))

/-- The code that the string begins with. -/
def codeOf (codes : List (Word × α)) (u : Word) : Option (Word × α) :=
  codes.find? fun c => c.1.isPrefixOf u

/-- What is at a word in a tree. -/
inductive Entry (α : Type*)
  | free
  | node (k : ℕ)
  | leaf (c : Word × α)

/-- What is at the word in the tree with these nodes. -/
def entry (nodes : List Word) (codes : List (Word × α)) (w : Word) : Entry α :=
  if w ∈ nodes then .node (nodes.idxOf w) else (codeOf codes w).elim .free .leaf

/-- The place, in an array, of what is at a bit after the node of number `k`. -/
def slot (k : ℕ) (b : Bool) : ℕ := 2 * k + (!b).toNat

/-- The word whose entry has this place in the array. -/
def wordAt (nodes : List Word) (j : ℕ) : Option Word := nodes[j / 2]?.map (· ++ [j % 2 == 0])

/-- What is at a place of the array. -/
def entryAt (nodes : List Word) (codes : List (Word × α)) (j : ℕ) : Entry α :=
  (wordAt nodes j).elim .free (entry nodes codes)

/-- The node is added, if it is missing. -/
def enlist (nodes : List Word) (q : Word) : List Word :=
  if q ∈ nodes then nodes else nodes ++ [q]

/-- The beginnings of a word of `m`, `m + 1` and so on bits, in this order. -/
def enlistWay (w : Word) : ℕ → ℕ → List Word → List Word
  | 0, _, nodes => nodes
  | n + 1, m, nodes => enlistWay w n (m + 1) (enlist nodes (w.take m))

/-- The nodes of the tree, in the order in which they are found to be missing. -/
def nodesOf (root : ℕ) (codes : List (Word × α)) : List Word :=
  codes.foldl (fun nodes c => enlistWay c.1 (c.1.length - root) root nodes) []

/-- The nodes of the tree of some codes, and those on the way to a word that have less than `m`
    bits. -/
structure Nodes (root : ℕ) (codes : List (Word × α)) (w : Word) (m : ℕ) (nodes : List Word) :
    Prop where
  nodup : nodes.Nodup
  mem_iff : ∀ q, q ∈ nodes ↔ root ≤ q.length ∧ (IsInner codes q ∨ q <+: w ∧ q.length < m)

variable {codes : List (Word × α)} {nodes : List Word} {c d : Word × α} {u w q : Word}
  {root m i j k : ℕ}

/-! ## The codes -/

theorem mem_of_codeOf (h : codeOf codes u = some c) : c ∈ codes ∧ c.1 <+: u := by
  have hstarts := List.find?_some h
  exact ⟨List.mem_of_find?_eq_some h, List.isPrefixOf_iff_prefix.1 hstarts⟩

namespace PrefixFree

/-- A string begins with one code at most. -/
theorem eq_of_isPrefix (h : PrefixFree codes) (hc : c ∈ codes) (hd : d ∈ codes) (hcu : c.1 <+: u)
    (hdu : d.1 <+: u) : c = d := by
  by_contra hne
  have hsymm : Std.Symm fun c d : Word × α => ¬ c.1 <+: d.1 ∧ ¬ d.1 <+: c.1 := ⟨fun _ _ h => h.symm⟩
  obtain ⟨hcd, hdc⟩ := List.Pairwise.forall h hc hd hne
  rcases List.prefix_or_prefix_of_prefix hcu hdu with h | h
  · exact hcd h
  · exact hdc h

theorem codeOf_eq (h : PrefixFree codes) (hc : c ∈ codes) (hcu : c.1 <+: u) :
    codeOf codes u = some c := by
  cases hfind : codeOf codes u with
  | none => exact absurd (List.isPrefixOf_iff_prefix.2 hcu) (List.find?_eq_none.1 hfind c hc)
  | some d =>
    obtain ⟨hd, hdu⟩ := mem_of_codeOf hfind
    rw [h.eq_of_isPrefix hd hc hdu hcu]

/-- A string that begins with a code is not the beginning of another. -/
theorem not_isInner (h : PrefixFree codes) (hc : c ∈ codes) (hcu : c.1 <+: u) :
    ¬ IsInner codes u := by
  rintro ⟨d, hd, hud, hlt⟩
  obtain rfl := h.eq_of_isPrefix hc hd (hcu.trans hud) (List.prefix_refl d.1)
  exact absurd hcu.length_le (Nat.not_le_of_lt hlt)

theorem of_concat (h : PrefixFree (codes ++ [c])) : PrefixFree codes :=
  (List.pairwise_append.1 h).1

/-- The last code and another one. -/
theorem not_isPrefix (h : PrefixFree (codes ++ [c])) (hd : d ∈ codes) :
    ¬ d.1 <+: c.1 ∧ ¬ c.1 <+: d.1 :=
  (List.pairwise_append.1 h).2.2 d hd c (List.mem_singleton_self c)

end PrefixFree

theorem codeOf_eq_none (h : ∀ c ∈ codes, ¬ c.1 <+: u) : codeOf codes u = none :=
  List.find?_eq_none.2 fun c hc hcu => h c hc (List.isPrefixOf_iff_prefix.1 hcu)

theorem codeOf_concat_of_not_isPrefix (h : ¬ c.1 <+: u) :
    codeOf (codes ++ [c]) u = codeOf codes u := by
  have hnone : codeOf [c] u = none :=
    codeOf_eq_none fun d hd => (List.mem_singleton.1 hd).symm ▸ h
  rw [codeOf, List.find?_append, ← codeOf, ← codeOf, hnone, Option.or_none]

theorem isInner_concat :
    IsInner (codes ++ [c]) q ↔ IsInner codes q ∨ q <+: c.1 ∧ q.length < c.1.length := by
  simp only [IsInner, List.mem_append, List.mem_singleton]
  constructor
  · rintro ⟨d, hd | rfl, h⟩
    · exact Or.inl ⟨d, hd, h⟩
    · exact Or.inr h
  · rintro (⟨d, hd, h⟩ | h)
    · exact ⟨d, Or.inl hd, h⟩
    · exact ⟨c, Or.inr rfl, h⟩

theorem not_isInner_nil (q : Word) : ¬ IsInner ([] : List (Word × α)) q :=
  fun ⟨_, hc, _⟩ => absurd hc List.not_mem_nil

/-- What goes on in a code does so without its last bits. -/
theorem IsInner.of_isPrefix (h : IsInner codes w) (hq : q <+: w) : IsInner codes q :=
  h.imp fun _ ⟨hc, hw, hlt⟩ => ⟨hc, hq.trans hw, Nat.lt_of_le_of_lt hq.length_le hlt⟩

/-! ## The nodes -/

theorem enlist_of_mem (h : q ∈ nodes) : enlist nodes q = nodes := if_pos h

theorem enlist_of_not_mem (h : q ∉ nodes) : enlist nodes q = nodes ++ [q] := if_neg h

theorem mem_enlist : u ∈ enlist nodes q ↔ u ∈ nodes ∨ u = q := by
  by_cases h : q ∈ nodes
  · rw [enlist_of_mem h]
    refine ⟨Or.inl, fun hu => hu.elim id ?_⟩
    rintro rfl
    exact h
  · rw [enlist_of_not_mem h, List.mem_append, List.mem_singleton]

theorem length_le_length_enlist (nodes : List Word) (q : Word) :
    nodes.length ≤ (enlist nodes q).length := by
  rw [enlist]
  split
  · exact Nat.le_refl _
  · rw [List.length_append]
    exact Nat.le_add_right _ _

theorem nodup_enlist (h : nodes.Nodup) (q : Word) : (enlist nodes q).Nodup := by
  by_cases hq : q ∈ nodes
  · rwa [enlist_of_mem hq]
  · rw [enlist_of_not_mem hq, List.nodup_append]
    refine ⟨h, List.nodup_singleton q, fun a ha b hb => ?_⟩
    rw [List.mem_singleton.1 hb]
    exact fun heq => hq (heq ▸ ha)

theorem length_le_length_enlistWay (w : Word) (n m : ℕ) (nodes : List Word) :
    nodes.length ≤ (enlistWay w n m nodes).length := by
  induction n generalizing m nodes with
  | zero => exact Nat.le_refl _
  | succ n ih => exact (length_le_length_enlist nodes (w.take m)).trans (ih (m + 1) _)

theorem nodesOf_concat (root : ℕ) (codes : List (Word × α)) (c : Word × α) :
    nodesOf root (codes ++ [c]) =
      enlistWay c.1 (c.1.length - root) root (nodesOf root codes) := by
  rw [nodesOf, List.foldl_append, List.foldl_cons, List.foldl_nil, nodesOf]

namespace Nodes

/-- No code, no node. -/
theorem nil (root : ℕ) (w : Word) : Nodes root ([] : List (Word × α)) w root [] where
  nodup := List.nodup_nil
  mem_iff q := by
    refine ⟨fun h => absurd h List.not_mem_nil, ?_⟩
    rintro ⟨hle, h | ⟨-, hlt⟩⟩
    · exact absurd h (not_isInner_nil q)
    · exact absurd hle (Nat.not_le_of_lt hlt)

/-- Without the way to a word. -/
theorem mem_iff_isInner (h : Nodes root codes w root nodes) :
    q ∈ nodes ↔ root ≤ q.length ∧ IsInner codes q := by
  rw [h.mem_iff]
  refine and_congr_right fun hle => or_iff_left ?_
  exact fun h => absurd hle (Nat.not_le_of_lt h.2)

/-- The way to another word is the same, as long as there is no node on it. -/
theorem toward (h : Nodes root codes w root nodes) (w' : Word) :
    Nodes root codes w' root nodes where
  nodup := h.nodup
  mem_iff q := by
    rw [h.mem_iff_isInner]
    refine and_congr_right fun hle => (or_iff_left ?_).symm
    exact fun h => absurd hle (Nat.not_le_of_lt h.2)

/-- The next node on the way. -/
theorem enlist (h : Nodes root codes w m nodes) (hroot : root ≤ m) (hm : m < w.length) :
    Nodes root codes w (m + 1) (enlist nodes (w.take m)) where
  nodup := nodup_enlist h.nodup _
  mem_iff q := by
    have hlength : (w.take m).length = m := List.length_take_of_le hm.le
    have hnext : q <+: w ∧ q.length < m + 1 ↔ (q <+: w ∧ q.length < m) ∨ q = w.take m := by
      rw [Nat.lt_succ_iff_lt_or_eq, and_or_left]
      refine or_congr_right ⟨fun ⟨hq, heq⟩ => ?_, ?_⟩
      · rw [← heq]
        exact List.prefix_iff_eq_take.1 hq
      · rintro rfl
        exact ⟨List.take_prefix m w, hlength⟩
    rw [mem_enlist, h.mem_iff, hnext]
    constructor
    · rintro (⟨hle, hinner | hway⟩ | rfl)
      · exact ⟨hle, Or.inl hinner⟩
      · exact ⟨hle, Or.inr (Or.inl hway)⟩
      · exact ⟨hlength.symm ▸ hroot, Or.inr (Or.inr rfl)⟩
    · rintro ⟨hle, hinner | hway | rfl⟩
      · exact Or.inl ⟨hle, Or.inl hinner⟩
      · exact Or.inl ⟨hle, Or.inr hway⟩
      · exact Or.inr rfl

theorem enlistWay {n : ℕ} (h : Nodes root codes w m nodes) (hroot : root ≤ m)
    (hn : m + n ≤ w.length) : Nodes root codes w (m + n) (enlistWay w n m nodes) := by
  induction n generalizing m nodes with
  | zero => exact h
  | succ n ih =>
    rw [← Nat.add_assoc, Nat.add_right_comm]
    exact ih (h.enlist hroot (by omega)) (by omega) (by omega)

/-- The way to the word of a new code is complete. -/
theorem concat (h : Nodes root codes c.1 c.1.length nodes) :
    Nodes root (codes ++ [c]) c.1 root nodes where
  nodup := h.nodup
  mem_iff q := by
    rw [h.mem_iff, isInner_concat]
    refine and_congr_right fun hle => (or_iff_left ?_).symm
    exact fun h => absurd hle (Nat.not_le_of_lt h.2)

/-- A short word has no node. -/
theorem concat_short (h : Nodes root codes w root nodes) (hc : c.1.length ≤ root) :
    Nodes root (codes ++ [c]) w root nodes where
  nodup := h.nodup
  mem_iff q := by
    rw [h.mem_iff]
    refine and_congr_right fun hle => or_congr_left ?_
    rw [isInner_concat, or_iff_left]
    exact fun h => absurd (h.2.trans_le hc) (Nat.not_lt_of_le hle)

/-- The nodes of codes that go on are nodes without their last bits. -/
theorem mem_of_isPrefix (h : Nodes root codes w m nodes) (hu : u ∈ nodes) (hq : q <+: u)
    (hle : root ≤ q.length) : q ∈ nodes := by
  refine (h.mem_iff q).2 ⟨hle, ((h.mem_iff u).1 hu).2.imp (·.of_isPrefix hq) ?_⟩
  exact fun ⟨hw, hlt⟩ => ⟨hq.trans hw, Nat.lt_of_le_of_lt hq.length_le hlt⟩

end Nodes

/-- The tree has a node for each word that goes on in a code, and no other. -/
theorem nodes_nodesOf (root : ℕ) (codes : List (Word × α)) (w : Word) :
    Nodes root codes w root (nodesOf root codes) := by
  induction codes using List.reverseRecOn with
  | nil => exact Nodes.nil root w
  | append_singleton codes c ih =>
    rw [nodesOf_concat]
    rcases Nat.le_total c.1.length root with hle | hle
    · rw [Nat.sub_eq_zero_of_le hle]
      exact ih.concat_short hle
    · have hway : Nodes root codes c.1 c.1.length _ :=
        Nat.add_sub_cancel' hle ▸
          (ih.toward c.1).enlistWay (Nat.le_refl _) (Nat.add_sub_cancel' hle).le
      exact hway.concat.toward w

/-! ## The entries -/

theorem entry_of_getElem? (h : nodes.Nodup) (hk : nodes[k]? = some q)
    (codes : List (Word × α)) : entry nodes codes q = .node k := by
  obtain ⟨hlt, rfl⟩ := List.getElem?_eq_some_iff.1 hk
  rw [entry, if_pos (List.getElem_mem hlt), h.idxOf_getElem]

theorem entry_of_not_mem (h : q ∉ nodes) (codes : List (Word × α)) :
    entry nodes codes q = (codeOf codes q).elim .free .leaf := if_neg h

/-- Nothing is there yet. -/
theorem entry_eq_free (h : q ∉ nodes) (hcodes : ∀ c ∈ codes, ¬ c.1 <+: q) :
    entry nodes codes q = .free := by
  rw [entry_of_not_mem h, codeOf_eq_none hcodes]
  rfl

theorem entry_concat_node_self (h : q ∉ nodes) (codes : List (Word × α)) :
    entry (nodes ++ [q]) codes q = .node nodes.length := by
  rw [entry, if_pos (List.mem_append_right _ (List.mem_singleton_self q)),
    List.idxOf_append_of_notMem h, List.idxOf_cons_self, Nat.add_zero]

/-- A new node is at its word only. -/
theorem entry_concat_node (h : u ≠ q) (nodes : List Word) (codes : List (Word × α)) :
    entry (nodes ++ [q]) codes u = entry nodes codes u := by
  have hmem : u ∈ nodes ++ [q] ↔ u ∈ nodes := by
    rw [List.mem_append, List.mem_singleton, or_iff_left h]
  by_cases hu : u ∈ nodes
  · rw [entry, entry, if_pos (hmem.2 hu), if_pos hu, List.idxOf_append_of_mem hu]
  · rw [entry, entry, if_neg (mt hmem.1 hu), if_neg hu]

/-- A new code is at the words that begin with it. -/
theorem entry_concat_code_self (h : PrefixFree (codes ++ [c])) (hu : u ∉ nodes) (hc : c.1 <+: u) :
    entry nodes (codes ++ [c]) u = .leaf c := by
  rw [entry_of_not_mem hu, h.codeOf_eq (List.mem_append_right _ (List.mem_singleton_self c)) hc]
  rfl

theorem entry_concat_code (h : ¬ c.1 <+: u) (nodes : List Word) (codes : List (Word × α)) :
    entry nodes (codes ++ [c]) u = entry nodes codes u := by
  rw [entry, entry, codeOf_concat_of_not_isPrefix h]

/-! ## The array -/

theorem wordAt_slot (hk : nodes[k]? = some q) (b : Bool) :
    wordAt nodes (slot k b) = some (q ++ [b]) := by
  cases b with
  | false =>
    have hdiv : slot k false / 2 = k := by simp [slot]; omega
    have hmod : slot k false % 2 = 1 := by simp [slot]
    rw [wordAt, hdiv, hmod, hk]
    rfl
  | true =>
    have hdiv : slot k true / 2 = k := by simp [slot]
    have hmod : slot k true % 2 = 0 := by simp [slot]
    rw [wordAt, hdiv, hmod, hk]
    rfl

/-- The place of a word is that of its last bit after a node. -/
theorem exists_of_wordAt (h : wordAt nodes j = some u) :
    ∃ k q b, nodes[k]? = some q ∧ u = q ++ [b] ∧ j = slot k b := by
  obtain ⟨q, hq, rfl⟩ := Option.map_eq_some_iff.1 h
  refine ⟨j / 2, q, _, hq, rfl, ?_⟩
  rcases Nat.mod_two_eq_zero_or_one j with hmod | hmod
  · rw [hmod, slot]
    simp
    omega
  · rw [hmod, slot]
    simp
    omega

theorem wordAt_inj (h : nodes.Nodup) (hi : wordAt nodes i = some u) (hj : wordAt nodes j = some u) :
    i = j := by
  obtain ⟨k, q, b, hk, rfl, rfl⟩ := exists_of_wordAt hi
  obtain ⟨l, p, d, hl, heq, rfl⟩ := exists_of_wordAt hj
  obtain ⟨rfl, hbit⟩ := List.append_inj' heq rfl
  obtain ⟨hlt, -⟩ := List.getElem?_eq_some_iff.1 hk
  rw [(List.getElem?_inj hlt h).1 (hk.trans hl.symm), List.singleton_inj.1 hbit]

/-- The words of the array have more bits than those that are looked up at once. -/
theorem Nodes.length_of_wordAt (h : Nodes root codes w m nodes) (hu : wordAt nodes j = some u) :
    root < u.length := by
  obtain ⟨k, q, b, hk, rfl, -⟩ := exists_of_wordAt hu
  have hle : root ≤ q.length := ((h.mem_iff q).1 (List.mem_of_getElem? hk)).1
  rw [List.length_append, List.length_singleton]
  exact Nat.lt_succ_of_le hle

/-- Nothing is at the places of the next node, whose word is on the way to a new code. -/
theorem Nodes.entry_next_eq_free (h : Nodes root codes w m nodes) (hroot : root ≤ m)
    (hm : m < w.length) (hq : w.take m ∉ nodes) (hnew : ∀ c ∈ codes, ¬ c.1 <+: w) (b : Bool) :
    entry (nodes ++ [w.take m]) codes (w.take m ++ [b]) = .free := by
  have hlength : (w.take m).length = m := List.length_take_of_le hm.le
  have hinner : ¬ IsInner codes (w.take m) :=
    fun hinner => hq ((h.mem_iff _).2 ⟨hlength.symm ▸ hroot, Or.inl hinner⟩)
  refine entry_eq_free ?_ fun c hc hstarts => ?_
  · intro hmem
    rcases List.mem_append.1 hmem with hmem | heq
    · exact hq (h.mem_of_isPrefix hmem (List.prefix_append _ _) (hlength.symm ▸ hroot))
    · exact absurd (congrArg List.length (List.mem_singleton.1 heq)) (by simp)
  · -- A code that ends with this bit would have a node at the word already.
    rcases List.prefix_concat_iff.1 hstarts with heq | hstarts
    · refine hinner ⟨c, hc, heq ▸ List.prefix_append _ _, ?_⟩
      rw [heq, List.length_append]
      exact Nat.lt_succ_self _
    · exact hnew c hc (hstarts.trans (List.take_prefix m w))

/-- A new node on the way to a new code is written where the last bit of its word is. -/
theorem Nodes.entryAt_concat_node (h : Nodes root codes w m nodes) (hroot : root ≤ m)
    (hm : m < w.length) (hq : w.take m ∉ nodes) (hnew : ∀ c ∈ codes, ¬ c.1 <+: w) (j : ℕ) :
    entryAt (nodes ++ [w.take m]) codes j =
      if wordAt nodes j = some (w.take m) then .node nodes.length else entryAt nodes codes j := by
  rcases Nat.lt_trichotomy (j / 2) nodes.length with hlt | heq | hlt
  · have hword : wordAt (nodes ++ [w.take m]) j = wordAt nodes j := by
      rw [wordAt, List.getElem?_append_left hlt, wordAt]
    rw [entryAt, hword, entryAt]
    cases hj : wordAt nodes j with
    | none => exact absurd (Option.map_eq_none_iff.1 hj) (by simp [hlt])
    | some u =>
      by_cases hu : u = w.take m
      · rw [if_pos (congrArg some hu), hu]
        exact entry_concat_node_self hq codes
      · rw [if_neg (fun heq => hu (Option.some.inj heq))]
        exact entry_concat_node hu nodes codes
  · have hnone : wordAt nodes j = none := by
      rw [wordAt, heq, List.getElem?_eq_none (Nat.le_refl _)]
      rfl
    rw [entryAt, wordAt, heq, List.getElem?_concat_length, if_neg (by simp [hnone]), entryAt, hnone]
    exact h.entry_next_eq_free hroot hm hq hnew _
  · have hnone : wordAt nodes j = none := by
      rw [wordAt, List.getElem?_eq_none hlt.le]
      rfl
    rw [entryAt, wordAt, List.getElem?_eq_none (by simp; omega), if_neg (by simp [hnone]),
      entryAt, hnone]
    rfl

/-- There is no node at or after a new code. -/
theorem Nodes.not_mem_of_isPrefix (h : Nodes root codes c.1 m nodes)
    (hm : m ≤ max root c.1.length) (hfree : PrefixFree (codes ++ [c])) (hcu : c.1 <+: u) :
    u ∉ nodes := by
  intro hu
  obtain ⟨hle, ⟨d, hd, hud, -⟩ | ⟨-, hlt⟩⟩ := (h.mem_iff u).1 hu
  · exact (hfree.not_isPrefix hd).2 (hcu.trans hud)
  · exact absurd (hlt.trans_le hm) (Nat.not_lt_of_le (max_le hle hcu.length_le))

/-- A new code is written where the last bit of its word is. -/
theorem Nodes.entryAt_concat_code (h : Nodes root codes c.1 m nodes)
    (hm : m ≤ max root c.1.length) (hfree : PrefixFree (codes ++ [c])) (j : ℕ) :
    entryAt nodes (codes ++ [c]) j =
      if wordAt nodes j = some c.1 then .leaf c else entryAt nodes codes j := by
  rw [entryAt, entryAt]
  cases hj : wordAt nodes j with
  | none => rfl
  | some u =>
    obtain ⟨k, q, b, hk, rfl, -⟩ := exists_of_wordAt hj
    by_cases hu : q ++ [b] = c.1
    · rw [if_pos (congrArg some hu)]
      have hself : c.1 <+: q ++ [b] := hu ▸ List.prefix_refl _
      exact entry_concat_code_self hfree (h.not_mem_of_isPrefix hm hfree hself) hself
    · rw [if_neg (fun heq => hu (Option.some.inj heq))]
      refine entry_concat_code (fun hstarts => ?_) nodes codes
      rcases List.prefix_concat_iff.1 hstarts with heq | hstarts
      · exact hu heq.symm
      · exact h.not_mem_of_isPrefix hm hfree hstarts (List.mem_of_getElem? hk)

end PrefixCodes
