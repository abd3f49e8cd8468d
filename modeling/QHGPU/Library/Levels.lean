import Mathlib.Data.Fintype.EquivFin
import Mathlib.Data.Nat.Find

/-!
# Levels of a search

The distances from a start along a relation, and what the next level is.
-/

namespace Levels

variable {α : Type}

/-- A walk of `k` steps from `s`. -/
inductive Walk (E : α → α → Prop) (s : α) : Nat → α → Prop
  | nil : Walk E s 0 s
  | snoc {k u v} (h : Walk E s k u) (huv : E u v) : Walk E s (k + 1) v

/-- The shortest walk has `k` steps. -/
structure Dist (E : α → α → Prop) (s : α) (k : Nat) (v : α) : Prop where
  walk : Walk E s k v
  least : ∀ j, Walk E s j v → k ≤ j

variable {E E' : α → α → Prop} {s u v : α} {j k : Nat}

/-- A walk in a smaller graph is one in the larger. -/
theorem Walk.mono (hE : ∀ u v, E u v → E' u v) (h : Walk E s k v) : Walk E' s k v := by
  induction h with
  | nil => exact .nil
  | snoc _ huv ih => exact .snoc ih (hE _ _ huv)

/-- A walk of length 0 goes nowhere. -/
theorem walk_zero_iff : Walk E s 0 v ↔ v = s := by
  constructor
  · intro h
    cases h
    rfl
  · rintro rfl
    exact .nil

/-- A longer walk has a last edge. -/
theorem walk_succ_iff : Walk E s (k + 1) v ↔ ∃ u, Walk E s k u ∧ E u v := by
  constructor
  · intro h
    cases h with
    | snoc h huv => exact ⟨_, h, huv⟩
  · rintro ⟨u, h, huv⟩
    exact .snoc h huv

/-- The start is at distance 0. -/
theorem dist_zero (E : α → α → Prop) (s : α) : Dist E s 0 s := ⟨.nil, fun _ _ ↦ Nat.zero_le _⟩

/-- There is one distance at most. -/
theorem Dist.unique (h : Dist E s j v) (h' : Dist E s k v) : j = k :=
  Nat.le_antisymm (h.least k h'.walk) (h'.least j h.walk)

/-- Only the start is at distance 0. -/
theorem Dist.eq_start (h : Dist E s 0 v) : v = s := walk_zero_iff.mp h.walk

/-- Where there is a walk there is a shortest one. -/
theorem Walk.exists_dist (h : Walk E s k v) : ∃ j ≤ k, Dist E s j v := by
  classical
  have hex : ∃ j, Walk E s j v := ⟨k, h⟩
  exact ⟨Nat.find hex, Nat.find_min' hex h, Nat.find_spec hex, fun _ ↦ Nat.find_min' hex⟩

/-- The last but one on a shortest walk is one step nearer. -/
theorem Dist.of_last (h : Dist E s (k + 1) v) (hu : Walk E s k u) (huv : E u v) : Dist E s k u := by
  refine ⟨hu, ?_⟩
  intro j hj
  have := h.least _ (.snoc hj huv)
  omega

/-- Before a node there is one at the distance before. -/
theorem Dist.exists_last (h : Dist E s (k + 1) v) : ∃ u, Dist E s k u ∧ E u v := by
  obtain ⟨u, hu, huv⟩ := walk_succ_iff.mp h.walk
  exact ⟨u, h.of_last hu huv, huv⟩

/-- The next level: the targets of this one that are in no level so far. -/
theorem dist_succ_iff : Dist E s (k + 1) v ↔
    (∃ u, Dist E s k u ∧ E u v) ∧ ∀ j ≤ k, ¬Dist E s j v := by
  constructor
  · intro h
    refine ⟨h.exists_last, ?_⟩
    intro j hj hdist
    have := h.unique hdist
    omega
  · rintro ⟨⟨u, hu, huv⟩, hnone⟩
    refine ⟨.snoc hu.walk huv, ?_⟩
    intro j hj
    obtain ⟨i, hi, hdist⟩ := hj.exists_dist
    by_contra hlt
    exact hnone i (by omega) hdist

/-- Nodes of different levels are different. -/
theorem lt_of_levels {A : Finset α} (h : ∀ j ≤ k, ∃ v ∈ A, Dist E s j v) : k < A.card := by
  choose node hnode hdist using h
  have hinj : Function.Injective fun j : Fin (k + 1) ↦
      (⟨node j (Nat.le_of_lt_succ j.isLt), hnode j _⟩ : A) := by
    intro i j heq
    have heq : node i _ = node j _ := congrArg Subtype.val heq
    exact Fin.ext ((hdist i _).unique (heq ▸ hdist j _))
  have := Fintype.card_le_of_injective _ hinj
  rw [Fintype.card_fin, Fintype.card_coe] at this
  omega

/-- Each level before that of a node has a node. -/
theorem Dist.exists_level (h : Dist E s k v) (hj : j ≤ k) : ∃ u, Dist E s j u := by
  induction k generalizing v with
  | zero =>
    obtain rfl : j = 0 := Nat.le_zero.mp hj
    exact ⟨v, h⟩
  | succ k ih =>
    rcases Nat.le_succ_iff.mp hj with hle | rfl
    · obtain ⟨u, hu, _⟩ := h.exists_last
      exact ih hu hle
    · exact ⟨v, h⟩

/-- Of finitely many nodes, none is in the level after some level. -/
theorem exists_level_empty {n : Nat} {A : Nat → Prop} (hA : ∀ v, A v → v < n)
    (E : Nat → Nat → Prop) (s : Nat) : ∃ k, ∀ v, A v → ¬Dist E s (k + 1) v := by
  by_contra hnone
  simp only [not_exists, not_forall, not_not] at hnone
  choose node hnode hdist using hnone
  have hinj : Function.Injective fun k ↦ (⟨node k, hA _ (hnode k)⟩ : Fin n) := by
    intro j k h
    have heq : node j = node k := congrArg Fin.val h
    exact Nat.succ.inj ((hdist j).unique (heq ▸ hdist k))
  exact not_injective_infinite_finite _ hinj

end Levels
