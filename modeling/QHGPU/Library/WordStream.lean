import Mathlib.Data.List.Basic

/-!
# Pairs in a stream of words

A writer that appends pairs of words until a limit is passed, and a reader that takes them back
with a running index.
-/

namespace WordStream

variable {α : Type}

/-- The words of a list of pairs. -/
def flat (pairs : List (α × α)) : List α := pairs.flatMap fun p ↦ [p.1, p.2]

/-- No pair, no word. -/
@[simp] theorem flat_nil : flat ([] : List (α × α)) = [] := rfl

/-- The words of the first pair come first. -/
@[simp] theorem flat_cons (p : α × α) (pairs : List (α × α)) :
    flat (p :: pairs) = p.1 :: p.2 :: flat pairs := rfl

/-- The words of two lists in a row. -/
theorem flat_append (pairs pairs' : List (α × α)) :
    flat (pairs ++ pairs') = flat pairs ++ flat pairs' := List.flatMap_append

/-- Two words for each pair. -/
@[simp] theorem length_flat (pairs : List (α × α)) : (flat pairs).length = 2 * pairs.length := by
  induction pairs with
  | nil => rfl
  | cons p pairs ih =>
    rw [flat_cons, List.length_cons, List.length_cons, ih, List.length_cons]
    omega

/-! ### The reader -/

/-- Read so many pairs from an index on: the pairs, and the index after them. -/
def readPairs (words : List α) : Nat → Nat → Option (List (α × α) × Nat)
  | 0, index => some ([], index)
  | k + 1, index =>
    words[index]?.bind fun first ↦
      words[index + 1]?.bind fun second ↦
        (readPairs words k (index + 2)).map fun r ↦ ((first, second) :: r.1, r.2)

/-- The pairs come back, wherever they stand. -/
theorem readPairs_flat (before : List α) (pairs : List (α × α)) (after : List α) :
    readPairs (before ++ flat pairs ++ after) pairs.length before.length =
      some (pairs, before.length + 2 * pairs.length) := by
  induction pairs generalizing before with
  | nil => rfl
  | cons p pairs ih =>
    have hwords : before ++ flat (p :: pairs) ++ after =
        (before ++ [p.1, p.2]) ++ flat pairs ++ after := by
      simp only [flat_cons, List.append_assoc, List.cons_append, List.nil_append]
    have hfirst : ((before ++ [p.1, p.2]) ++ flat pairs ++ after)[before.length]? = some p.1 := by
      simp
    have hsecond :
        ((before ++ [p.1, p.2]) ++ flat pairs ++ after)[before.length + 1]? = some p.2 := by
      simp
    have hrest := ih (before ++ [p.1, p.2])
    rw [List.length_append, List.length_cons, List.length_singleton] at hrest
    rw [hwords, List.length_cons, readPairs, hfirst, hsecond]
    simp only [Option.bind_some, hrest, Option.map_some, Option.some.injEq, Prod.mk.injEq,
      true_and]
    omega

/-- As many pairs as asked for. -/
theorem length_of_readPairs {words : List α} {k index : Nat} {r : List (α × α) × Nat}
    (h : readPairs words k index = some r) : r.1.length = k := by
  induction k generalizing index r with
  | zero =>
    obtain rfl := Option.some.inj h
    rfl
  | succ k ih =>
    simp only [readPairs, Option.bind_eq_some_iff, Option.map_eq_some_iff] at h
    obtain ⟨first, _, second, _, r', hrest, rfl⟩ := h
    rw [List.length_cons, ih hrest]

/-! ### The writer -/

/-- Append a pair, and give up when more than `limit` words are there; the words stored by then
are the error. -/
def push (limit : Nat) (words : List α) (p : α × α) : Except (List α) (List α) :=
  let words := words ++ [p.1, p.2]
  if limit < words.length then throw words else pure words

variable {limit : Nat} {words out : List α} {pairs : List (α × α)}

private theorem foldlM_push_cons {p : α × α} (h : words.length + 2 ≤ limit) :
    (p :: pairs).foldlM (push limit) words =
      pairs.foldlM (push limit) (words ++ [p.1, p.2]) := by
  have hlength : (words ++ [p.1, p.2]).length = words.length + 2 := List.length_append
  have hpush : push limit words p = .ok (words ++ [p.1, p.2]) := by
    rw [push, if_neg (by omega)]
    rfl
  rw [List.foldlM_cons, hpush]
  rfl

/-- The pairs that fit are all there. -/
theorem foldlM_push_of_le (h : words.length + 2 * pairs.length ≤ limit) :
    pairs.foldlM (push limit) words = .ok (words ++ flat pairs) := by
  induction pairs generalizing words with
  | nil => rw [List.foldlM_nil, flat_nil, List.append_nil]; rfl
  | cons p pairs ih =>
    rw [List.length_cons] at h
    have hlength : (words ++ [p.1, p.2]).length = words.length + 2 := List.length_append
    rw [foldlM_push_cons (by omega), ih (by omega), flat_cons, List.append_assoc]
    rfl

/-- Otherwise the first pair that passes the limit is the last one stored. -/
theorem foldlM_push_of_lt (hne : pairs ≠ []) (h : limit < words.length + 2 * pairs.length) :
    ∃ k < pairs.length, pairs.foldlM (push limit) words =
        .error (words ++ flat (pairs.take (k + 1))) ∧
      limit < words.length + 2 * (k + 1) ∧ (k = 0 ∨ words.length + 2 * k ≤ limit) := by
  induction pairs generalizing words with
  | nil => exact absurd rfl hne
  | cons p pairs ih =>
    rw [List.length_cons] at h
    have hlength : (words ++ [p.1, p.2]).length = words.length + 2 := List.length_append
    by_cases hfirst : limit < words.length + 2
    · refine ⟨0, Nat.succ_pos _, ?_, by omega, Or.inl rfl⟩
      rw [List.foldlM_cons, push, if_pos (by omega)]
      rfl
    · have hne' : pairs ≠ [] := by
        rintro rfl
        rw [List.length_nil] at h
        omega
      have hpast : limit < (words ++ [p.1, p.2]).length + 2 * pairs.length := by omega
      obtain ⟨k, hk, hfold, hlimit, hbefore⟩ := ih hne' hpast
      refine ⟨k + 1, Nat.succ_lt_succ hk, ?_, by omega, Or.inr (by omega)⟩
      rw [foldlM_push_cons (by omega), hfold, List.take_succ_cons, flat_cons, List.append_assoc]
      rfl

/-- When the writer does not give up, it is because there was nothing to store or all fits. -/
theorem foldlM_push_eq_ok_iff : pairs.foldlM (push limit) words = .ok out ↔
    (pairs = [] ∨ words.length + 2 * pairs.length ≤ limit) ∧ out = words ++ flat pairs := by
  by_cases hfits : words.length + 2 * pairs.length ≤ limit
  · rw [foldlM_push_of_le hfits]
    simp [hfits, eq_comm]
  · by_cases hne : pairs = []
    · subst hne
      rw [List.foldlM_nil]
      simp [pure, Except.pure, eq_comm]
    · obtain ⟨k, _, hfold, _⟩ := foldlM_push_of_lt hne (Nat.lt_of_not_le hfits)
      rw [hfold]
      simp [hfits, hne]

end WordStream
