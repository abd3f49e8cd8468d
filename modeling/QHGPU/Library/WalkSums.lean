import Mathlib.Algebra.Order.Monoid.Canonical.Defs
import Mathlib.Data.List.Induction
import Mathlib.Order.Bounds.Basic

/-!
# Sums along walks

The least sum of weights along the walks between two nodes, by taking the nodes one after the
other for a stop on the way.
-/

namespace WalkSums

variable {α M : Type} [AddCommMonoid M]

/-- A walk from `i` to `j` along `E`, and the sum of the weights of its steps. -/
inductive Walk (E : α → α → Prop) (w : α → α → M) : α → α → M → Prop
  | nil (i : α) : Walk E w i i 0
  | cons {i v j : α} {c : M} (hiv : E i v) (h : Walk E w v j c) : Walk E w i j (w i v + c)

/-- Every step is allowed. -/
def Free (_ _ : α) : Prop := True

variable {E E' : α → α → Prop} {w d : α → α → M} {ks : List α} {i j k v : α} {c c' top : M}

/-! ### Walks -/

/-- A walk along fewer edges is one along more. -/
theorem Walk.mono (hE : ∀ i j, E i j → E' i j) (h : Walk E w i j c) : Walk E' w i j c := by
  induction h with
  | nil i => exact .nil i
  | cons hiv _ ih => exact .cons (hE _ _ hiv) ih

/-- The sum of two walks in a row. -/
theorem Walk.append (h : Walk E w i v c) (h' : Walk E w v j c') : Walk E w i j (c + c') := by
  induction h with
  | nil i =>
    rw [zero_add]
    exact h'
  | cons hiv _ ih =>
    rw [add_assoc]
    exact .cons hiv (ih h')

/-- A single edge. -/
theorem Walk.single (h : E i j) : Walk E w i j (w i j) := by
  have hwalk : Walk E w i j (w i j + 0) := .cons h (.nil j)
  rwa [add_zero] at hwalk

variable [LinearOrder M]

/-! ### Stops on the way -/

/-- With `k` for a stop on the way. -/
def pass (d : α → α → M) (k : α) (i j : α) : M := min (d i j) (d i k + d k j)

/-- With the nodes of a list for stops, one after the other. -/
def closure (w : α → α → M) (ks : List α) : α → α → M := ks.foldl pass w

/-- A pass makes no entry larger. -/
theorem pass_le : pass d k i j ≤ d i j := min_le_left _ _

private theorem pass_le_add : pass d k i j ≤ d i k + d k j := min_le_right _ _

private theorem pass_symm (h : ∀ i j, d i j = d j i) (k i j : α) : pass d k i j = pass d k j i := by
  rw [pass, pass, h i j, h i k, h k j, add_comm]

private theorem closure_append (w : α → α → M) (ks : List α) (k : α) :
    closure w (ks ++ [k]) = pass (closure w ks) k := by
  rw [closure, List.foldl_append]
  rfl

/-- Passes make no entry larger. -/
theorem closure_le (w : α → α → M) (ks : List α) (i j : α) : closure w ks i j ≤ w i j := by
  induction ks using List.reverseRecOn with
  | nil => exact le_rfl
  | append_singleton ks k ih =>
    rw [closure_append]
    exact pass_le.trans ih

/-- Passes keep a matrix symmetric. -/
theorem closure_symm (h : ∀ i j, w i j = w j i) (ks : List α) (i j : α) :
    closure w ks i j = closure w ks j i := by
  induction ks using List.reverseRecOn generalizing i j with
  | nil => exact h i j
  | append_singleton ks k ih =>
    rw [closure_append]
    exact pass_symm ih k i j

/-- The sums are those of walks. -/
theorem walk_closure (w : α → α → M) (ks : List α) (i j : α) :
    Walk Free w i j (closure w ks i j) := by
  induction ks using List.reverseRecOn generalizing i j with
  | nil => exact .single trivial
  | append_singleton ks k ih =>
    rw [closure_append, pass]
    rcases min_choice (closure w ks i j) (closure w ks i k + closure w ks k j) with h | h
    · rw [h]
      exact ih i j
    · rw [h]
      exact (ih i k).append (ih k j)

/-! ### Weights that only add up -/

variable [CanonicallyOrderedAdd M]

/-- Where a step that is none along `E` has at least the weight `top`, unless it stays in its
node for nothing, a lighter walk is one along `E`. -/
theorem Walk.of_lt (hE : ∀ i j, E i j ∨ (i = j ∧ w i j = 0) ∨ top ≤ w i j)
    (h : Walk Free w i j c) (hc : c < top) : Walk E w i j c := by
  induction h with
  | nil i => exact .nil i
  | @cons i v j c _ _ ih =>
    have hrest : Walk E w v j c := ih (le_add_self.trans_lt hc)
    rcases hE i v with hiv | ⟨rfl, hzero⟩ | htop
    · exact .cons hiv hrest
    · rwa [hzero, zero_add]
    · exact absurd (htop.trans le_self_add) (not_le.mpr hc)

/-- The way to the stop is not shorter over the stop. -/
theorem pass_stop (d : α → α → M) (k i : α) : pass d k i k = d i k := min_eq_left le_self_add

private theorem pass_stop_left (d : α → α → M) (k j : α) : pass d k k j = d k j :=
  min_eq_left le_add_self

variable [IsOrderedAddMonoid M]

/-- A node that could be a stop still can. -/
theorem pass_triangle (h : ∀ i j, d i j ≤ d i v + d v j) (k i j : α) :
    pass d k i j ≤ pass d k i v + pass d k v j := by
  rcases min_choice (d i v) (d i k + d k v) with hi | hi
  · rcases min_choice (d v j) (d v k + d k j) with hj | hj
    · calc pass d k i j ≤ d i j := pass_le
        _ ≤ d i v + d v j := h i j
        _ = pass d k i v + pass d k v j := by rw [pass, pass, hi, hj]
    · calc pass d k i j ≤ d i k + d k j := pass_le_add
        _ ≤ (d i v + d v k) + d k j := add_le_add (h i k) le_rfl
        _ = pass d k i v + pass d k v j := by rw [pass, pass, hi, hj, add_assoc]
  · rcases min_choice (d v j) (d v k + d k j) with hj | hj
    · calc pass d k i j ≤ d i k + d k j := pass_le_add
        _ ≤ d i k + (d k v + d v j) := add_le_add le_rfl (h k j)
        _ = pass d k i v + pass d k v j := by rw [pass, pass, hi, hj, add_assoc]
    · calc pass d k i j ≤ d i k + d k j := pass_le_add
        _ ≤ (d i k + d k v) + (d v k + d k j) := add_le_add le_self_add le_add_self
        _ = pass d k i v + pass d k v j := by rw [pass, pass, hi, hj]

/-- Every stop has been considered. -/
theorem closure_triangle (hv : v ∈ ks) (i j : α) :
    closure w ks i j ≤ closure w ks i v + closure w ks v j := by
  induction ks using List.reverseRecOn generalizing i j with
  | nil => cases hv
  | append_singleton ks k ih =>
    rw [closure_append]
    rcases List.mem_append.mp hv with hv | hv
    · exact pass_triangle (fun i j ↦ ih hv i j) k i j
    · obtain rfl := List.mem_singleton.mp hv
      rw [pass_stop, pass_stop_left]
      exact pass_le_add

/-- With every node for a stop, they are the least ones. -/
theorem isLeast_closure (hks : ∀ v, v ∈ ks) (hdiag : ∀ i, w i i = 0) (i j : α) :
    IsLeast {c | Walk Free w i j c} (closure w ks i j) := by
  refine ⟨walk_closure w ks i j, ?_⟩
  intro c h
  induction h with
  | nil i => exact (closure_le w ks i i).trans (hdiag i).le
  | @cons i v j c _ _ ih =>
    calc closure w ks i j ≤ closure w ks i v + closure w ks v j := closure_triangle (hks v) i j
      _ ≤ w i v + c := add_le_add (closure_le w ks i v) ih

end WalkSums
