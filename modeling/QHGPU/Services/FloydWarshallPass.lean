import Mathlib.Data.Fintype.Prod
import QHGPU.Library.Schedules
import QHGPU.Services.FloydWarshallWalks

/-!
# One pass on the device

The kernel leaves what the loops of the CPU leave for the same `k`, in every order of its loads
and stores: no item changes row `k` or column `k`, which the others read.
-/

namespace QHGPU.FloydWarshall

open WorkItems (Prog Launch Fine)

variable {n k : Nat} {buf buf' : Int → Weight}

/-- The matrix in the buffer. -/
def matrix (buf : Int → Weight) (idx : Nat) : Weight := buf idx

/-- The kernel for some `k`, one launch after the other. -/
def Passes (n : Nat) : List Nat → (Int → Weight) → (Int → Weight) → Prop
  | [], buf, buf' => buf' = buf
  | k :: ks, buf, buf' => ∃ buf₁, Launch workGroup (floydWarshallPass n k) buf buf₁ ∧
    Passes n ks buf₁ buf'

/-- Every launch comes to an end, and leaves what the loops of the CPU leave for its `k`; all of
them together leave the result of the CPU. -/
structure OrderFree (n : Nat) (buf : Int → Weight) : Prop where
  ends : ∀ k < n, ∃ buf', Launch workGroup (floydWarshallPass n k) buf buf'
  pass : ∀ k < n, ∀ buf', Launch workGroup (floydWarshallPass n k) buf buf' →
    matrix buf' = cpuPass n k (matrix buf)
  passes : ∀ buf', Passes n (List.range n) buf buf' →
    matrix buf' = kfloydWarshallCpu (matrix buf) n

/-- The buffer after a launch. -/
def passedBuffer (n k : Nat) (buf : Int → Weight) : Int → Weight
  | .ofNat idx => passed n k (matrix buf) idx
  | .negSucc d => buf (.negSucc d)

/-! ### What an item does -/

/-- Where row `a` and column `b` meet. -/
def cell (n a b : Nat) : Int := (a * n + b : Nat)

private theorem cell_inj {a b a' b' : Nat} (hb : b < n) (hb' : b' < n)
    (h : cell n a b = cell n a' b') :
    a = a' ∧ b = b' := by
  have h : a * n + b = a' * n + b' := Int.ofNat.inj h
  constructor
  · rw [← cell_div (i := a) hb, h, cell_div hb']
  · rw [← cell_mod (i := a) hb, h, cell_mod hb']

/-- The cells an item accesses. -/
def passAllowed (k : Nat) (item : Fin n × Fin n) : Set Int :=
  {l | l = cell n item.2 k ∨ l = cell n k item.1 ∨ l = cell n item.2 item.1}

/-- The cell that no other item accesses, outside row and column `k`. -/
def passMine (k : Nat) (item : Fin n × Fin n) : Set Int :=
  {l | item.2.val ≠ k ∧ item.1.val ≠ k ∧ l = cell n item.2 item.1}

/-- The cell that an item changes. -/
def passGoal (k : Nat) (buf : Int → Weight) (item : Fin n × Fin n) : Set Int :=
  {l | l = cell n item.2 item.1 ∧ passedBuffer n k buf l ≠ buf l}

/-- Outside row and column `k` each cell has one item. -/
theorem eq_of_passMine (hk : k < n) (item item' : Fin n × Fin n) (l : Int)
    (h : l ∈ passMine k item) (h' : l ∈ passAllowed k item') : item = item' := by
  obtain ⟨hrow, hcolumn, rfl⟩ := h
  rcases h' with h' | h' | h'
  · exact absurd (cell_inj item.1.isLt hk h').2 hcolumn
  · exact absurd (cell_inj item.1.isLt item'.1.isLt h').1 hrow
  · obtain ⟨hi, hj⟩ := cell_inj item.1.isLt item'.1.isLt h'
    exact Prod.ext (Fin.ext hj) (Fin.ext hi)

/-- An item works on its own cell, whatever the others have done so far. -/
theorem fine_floydWarshallPass (hsize : n * n ≤ 2 ^ 31) (hm : Bounded n (matrix buf)) (hk : k < n)
    (item : Fin n × Fin n) :
    Fine (· ∈ passAllowed k item) (passMine k item) buf (passedBuffer n k buf)
      (fun seen _ ↦ passGoal k buf item ⊆ seen) ∅ (floydWarshallPass n k item) := by
  obtain ⟨j, i⟩ := item
  have hi := i.isLt
  have hj := j.isLt
  have hindex {a b : Nat} (ha : a < n) (hb : b < n) : index n a b = cell n a b :=
    index_eq hsize ha hb
  rw [floydWarshallPass]
  simp only [hindex hi hk, hindex hk hj, hindex hi hj]
  rw [WorkItems.load_bind]
  have hik : cell n i k ∈ passAllowed k (j, i) := Or.inl rfl
  have hkj : cell n k j ∈ passAllowed k (j, i) := Or.inr (Or.inl rfl)
  have hallowed : cell n i j ∈ passAllowed k (j, i) := Or.inr (Or.inr rfl)
  apply WorkItems.fine_get_unchanged hik (passed_column hm hi hk)
  intro seen _ hseen
  apply WorkItems.fine_get_unchanged hkj (passed_row hm hj hk)
  intro seen' _ hseen'
  have hcell : passedBuffer n k buf (cell n i j) =
      if buf (cell n i k) + buf (cell n k j) < buf (cell n i j) then
        buf (cell n i k) + buf (cell n k j)
      else buf (cell n i j) := passed_cell hi hj
  have hgoal (hsame : passedBuffer n k buf (cell n i j) = buf (cell n i j)) (seen : Set Int) :
      passGoal k buf (j, i) ⊆ seen := by
    rintro l ⟨rfl, hne⟩
    exact absurd hsame hne
  by_cases hmine : i.val ≠ k ∧ j.val ≠ k
  · have hnot : cell n i j ∉ seen' := by
      intro hin
      rcases hseen' hin with h | h
      · exact hmine.1 (cell_inj hj hj h).1
      · rcases hseen h with h | h
        · exact hmine.2 (cell_inj hj hk h).2
        · exact h
    have hown : cell n i j ∈ passMine k (j, i) := ⟨hmine.1, hmine.2, rfl⟩
    apply WorkItems.fine_get_mine hallowed hown hnot
    rw [Prog.bind]
    split
    · next hlt =>
      refine ⟨hallowed, ?_, ?_⟩
      · rw [hcell, if_pos hlt]
      · rintro l ⟨rfl, _⟩
        exact Set.mem_insert _ _
    · next hnlt =>
      apply hgoal _ seen'
      rw [hcell, if_neg hnlt]
  · have hsame : passedBuffer n k buf (cell n i j) = buf (cell n i j) := by
      by_cases hrow : i.val = k
      · subst hrow
        exact passed_row hm hj hi
      · have hcolumn : j.val = k := not_not.mp fun h ↦ hmine ⟨hrow, h⟩
        subst hcolumn
        exact passed_column hm hi hj
    apply WorkItems.fine_get_same hallowed hsame
    intro seen'' _
    rw [Prog.bind, if_neg]
    · exact hgoal hsame seen''
    · intro hlt
      rw [hcell, if_pos hlt] at hsame
      exact BitVec.lt_irrefl _ (hsame ▸ hlt)

private theorem exists_passGoal (n k : Nat) (buf : Int → Weight) (l : Int) :
    buf l = passedBuffer n k buf l ∨ ∃ item : Fin n × Fin n, l ∈ passGoal k buf item := by
  by_cases hsame : passedBuffer n k buf l = buf l
  · exact Or.inl hsame.symm
  · cases l with
    | negSucc d => exact absurd rfl hsame
    | ofNat idx =>
      have hlt : idx < n * n := by
        by_contra hge
        apply hsame
        rw [passedBuffer, passed, if_neg fun h ↦ hge h.1]
        rfl
      have hn : 0 < n := Nat.pos_of_ne_zero (by rintro rfl; omega)
      refine Or.inr ⟨(⟨idx % n, Nat.mod_lt idx hn⟩, ⟨idx / n, Nat.div_lt_of_lt_mul hlt⟩), ?_, hsame⟩
      exact congrArg Int.ofNat (Nat.div_add_mod' idx n).symm

/-! ### Launches -/

/-- Every launch leaves `passedBuffer`. -/
theorem launch_floydWarshallPass (hsize : n * n ≤ 2 ^ 31) (hm : Bounded n (matrix buf)) (hk : k < n)
    (h : Launch workGroup (floydWarshallPass n k) buf buf') : buf' = passedBuffer n k buf :=
  WorkItems.launch_oneShot (eq_of_passMine hk) (fine_floydWarshallPass hsize hm hk)
    (exists_passGoal n k buf) h

private theorem matrix_of_launch (hsize : n * n ≤ 2 ^ 31) (hm : Bounded n (matrix buf)) (hk : k < n)
    (h : Launch workGroup (floydWarshallPass n k) buf buf') :
    matrix buf' = cpuPass n k (matrix buf) := by
  rw [launch_floydWarshallPass hsize hm hk h, cpuPass_eq (by omega) hm hk]
  rfl

private theorem matrix_of_passes (hsize : n * n ≤ 2 ^ 31) {ks : List Nat} (hks : ∀ k ∈ ks, k < n)
    (hm : Bounded n (matrix buf)) (h : Passes n ks buf buf') :
    matrix buf' = ks.foldl (fun m k ↦ cpuPass n k m) (matrix buf) := by
  induction ks generalizing buf with
  | nil =>
    obtain rfl : buf' = buf := h
    rfl
  | cons k ks ih =>
    obtain ⟨buf₁, hlaunch, hrest⟩ := h
    obtain ⟨hk, hks⟩ := List.forall_mem_cons.mp hks
    have hpass := matrix_of_launch hsize hm hk hlaunch
    have hm₁ : Bounded n (matrix buf₁) := by
      rw [hpass, cpuPass_eq (by omega) hm hk]
      exact bounded_passed hm ⟨k, hk⟩
    rw [ih hks hm₁ hrest, List.foldl_cons, hpass]

/-- For every matrix whose indices the kernel can compute in `int`. -/
theorem orderFree (hsize : n * n ≤ 2 ^ 31) (hm : Bounded n (matrix buf)) : OrderFree n buf := by
  constructor
  · exact fun k _ ↦ WorkItems.exists_launch workGroup (free_pass k) buf
  · exact fun k hk buf' h ↦ matrix_of_launch hsize hm hk h
  · exact fun buf' h ↦ matrix_of_passes hsize (fun k hk ↦ List.mem_range.mp hk) hm h

/-- Two nodes with an edge of weight 5. -/
theorem orderFree_two : OrderFree 2 fun l ↦ if l = 1 then 5 else 3 :=
  orderFree (by decide) (by unfold Bounded; decide)

/-- No index of the kernel is as large as `2 ^ 31`. -/
theorem avoids_floydWarshallPass (k : Nat) (item : Fin n × Fin n) :
    (floydWarshallPass n k item).Avoids (2 ^ 31) := by
  intro ik kj ij
  show (if ik + kj < ij then WorkItems.store _ _ else pure ()).Avoids _
  split
  · exact ⟨(BitVec.toInt_lt (w := 32)).ne, trivial⟩
  · trivial

/-- A matrix of 46341 rows has more than `2 ^ 31` cells: the kernel never changes the one at
index `2 ^ 31`, and the CPU lowers it. -/
theorem not_orderFree_negative : ¬∀ (n : Nat) (buf : Int → Weight), Bounded n (matrix buf) →
    OrderFree n buf := by
  intro hall
  let buf (l : Int) : Weight := if l = 2 ^ 31 then 1 else 0
  have hread (idx : Nat) : matrix buf idx = if (idx : Int) = 2 ^ 31 then 1 else 0 := rfl
  have hm : Bounded 46341 (matrix buf) := by
    intro i j
    rw [weight, hread]
    split <;> decide
  have hrun : StepRun.run (WorkItems.step workGroup) ⟨buf, floydWarshallPass 46341 0⟩ [] =
      some ⟨buf, floydWarshallPass 46341 0⟩ := rfl
  obtain ⟨buf', hlaunch, hkeep⟩ := WorkItems.exists_launch_of_run (free_pass 0) hrun
    (avoids_floydWarshallPass 0)
  have hcell := congrFun ((hall 46341 buf hm).pass 0 (by decide) buf' hlaunch) (2 ^ 31)
  rw [cpuPass_eq (by decide) hm (by decide)] at hcell
  have hone : matrix buf (2 ^ 31) = 1 := by rw [hread, if_pos (by decide)]
  have hrow : matrix buf (2 ^ 31 / 46341 * 46341 + 0) = 0 := by rw [hread, if_neg (by decide)]
  have hcolumn : matrix buf (0 * 46341 + 2 ^ 31 % 46341) = 0 := by rw [hread, if_neg (by decide)]
  have hlowered : passed 46341 0 (matrix buf) (2 ^ 31) = 0 := by
    rw [passed, hone, hrow, hcolumn]
    rfl
  rw [hlowered] at hcell
  have hkept : matrix buf' (2 ^ 31) = 1 := hkeep
  rw [hkept] at hcell
  exact absurd hcell (by decide)

end QHGPU.FloydWarshall
