import Mathlib.Algebra.Order.Group.Nat
import QHGPU.Library.WalkSums
import QHGPU.Services.FloydWarshall

/-!
# Shortest walks

The loop on the CPU leaves the least sums along walks, when the entries are small enough for
sums of two.
-/

namespace QHGPU.FloydWarshall

open WalkSums (Walk Free closure)

variable {n i j k : Nat} {m s : Nat → Weight} {idx : Nat}

/-- `__INT_MAX`, `src/test_module/floyd_warshall/floyd_warshall_module.c:19`, for no edge. -/
def intMax : Nat := 9999999

/-- The matrix, as numbers. -/
def weight (m : Nat → Weight) (n : Nat) (i j : Fin n) : Nat := (m (i * n + j)).toNat

/-- The loops of `kfloyd_warshall_cpu` for one `k`,
`src/test_module/floyd_warshall/floyd_warshall_module.c:82–87`. -/
def cpuPass (n k : Nat) (m : Nat → Weight) : Nat → Weight :=
  (List.range n).foldl (fun m i ↦ (List.range n).foldl (relax n k i) m) m

/-- The turns of the three loops, in order. -/
def turns (n : Nat) : List (Nat × Nat × Nat) :=
  (List.range n).flatMap fun k ↦ (List.range n).flatMap fun i ↦ (List.range n).map fun j ↦ (k, i, j)

/-- One turn. -/
def turn (n : Nat) (m : Nat → Weight) (t : Nat × Nat × Nat) : Option (Nat → Weight) :=
  some (relax n t.1 t.2.1 m t.2.2)

/-- The sum of the turn does not wrap. -/
def Exact (n : Nat) (m : Nat → Weight) (t : Nat × Nat × Nat) : Prop :=
  (m (cpuIndex n t.2.1 t.1)).toNat + (m (cpuIndex n t.1 t.2.2)).toNat < 2 ^ 32

/-- `kfloyd_warshall_cpu` leaves the least sums along the walks, no sum on the way wraps, and a
symmetric matrix stays so. -/
structure Shortest (n : Nat) (m : Nat → Weight) : Prop where
  least : ∀ i j : Fin n, IsLeast {c | Walk Free (weight m n) i j c}
    (weight (kfloydWarshallCpu m n) n i j)
  exact : StepRun.Meets (turn n) (Exact n) m (turns n)
  symmetric : (∀ i j, weight m n i j = weight m n j i) →
    ∀ i j, weight (kfloydWarshallCpu m n) n i j = weight (kfloydWarshallCpu m n) n j i

/-- No entry of the matrix is above the one for no edge. -/
def Bounded (n : Nat) (m : Nat → Weight) : Prop := ∀ i j : Fin n, weight m n i j ≤ intMax

private theorem run_turns (n : Nat) (m : Nat → Weight) :
    StepRun.run (turn n) m (turns n) = some (kfloydWarshallCpu m n) := by
  have hrun (ts : List (Nat × Nat × Nat)) (m : Nat → Weight) : StepRun.run (turn n) m ts =
      some (ts.foldl (fun m t ↦ relax n t.1 t.2.1 m t.2.2) m) := by
    induction ts generalizing m with
    | nil => rfl
    | cons t ts ih => exact ih _
  rw [hrun, turns, kfloydWarshallCpu]
  simp only [List.foldl_flatMap, List.foldl_map]

/-! ### Indices and sums -/

/-- Up to 2^32 words the index does not wrap. -/
theorem cpuIndex_of_size (hsize : n * n ≤ 2 ^ 32) (hi : i < n) (hj : j < n) :
    cpuIndex n i j = i * n + j := by
  have := cell_lt hi hj
  exact Nat.mod_eq_of_lt (by omega)

/-- The row of a cell. -/
theorem cell_div (hj : j < n) : (i * n + j) / n = i := by
  rw [Nat.mul_comm, Nat.mul_add_div (Nat.zero_lt_of_lt hj), Nat.div_eq_of_lt hj, Nat.add_zero]

/-- The column of a cell. -/
theorem cell_mod (hj : j < n) : (i * n + j) % n = j := by
  rw [Nat.mul_comm, Nat.mul_add_mod, Nat.mod_eq_of_lt hj]

/-- The bound for a cell. -/
theorem Bounded.le (hm : Bounded n m) (hi : i < n) (hj : j < n) :
    (m (i * n + j)).toNat ≤ intMax := hm ⟨i, hi⟩ ⟨j, hj⟩

private theorem Bounded.of_lower {m' : Nat → Weight} (hm : Bounded n m) (h : Lower m' m) :
    Bounded n m' :=
  fun i j ↦ (h _).trans (hm i j)

/-- Two entries up to `__INT_MAX` have a sum in 32 bits. -/
theorem toNat_add {a b : Weight} (ha : a.toNat ≤ intMax) (hb : b.toNat ≤ intMax) :
    (a + b).toNat = a.toNat + b.toNat := by
  rw [intMax] at ha hb
  exact BitVec.toNat_add_of_lt (by omega)

/-! ### One pass -/

/-- What one pass makes of the matrix: the smaller of the entry and the sum over `k`. -/
def passed (n k : Nat) (m : Nat → Weight) (idx : Nat) : Weight :=
  let tempWeight := m (idx / n * n + k) + m (k * n + idx % n)
  if idx < n * n ∧ tempWeight < m idx then tempWeight else m idx

/-- A pass, cell by cell. -/
theorem passed_cell (hi : i < n) (hj : j < n) : passed n k m (i * n + j) =
    if m (i * n + k) + m (k * n + j) < m (i * n + j) then m (i * n + k) + m (k * n + j)
    else m (i * n + j) := by
  rw [passed, cell_div hj, cell_mod hj]
  exact if_congr (and_iff_right (cell_lt hi hj)) rfl rfl

/-- Column `k` stays as it is. -/
theorem passed_column (hm : Bounded n m) (hi : i < n) (hk : k < n) :
    passed n k m (i * n + k) = m (i * n + k) := by
  rw [passed_cell hi hk, if_neg]
  rw [BitVec.lt_def, toNat_add (hm.le hi hk) (hm.le hk hk)]
  omega

/-- So does row `k`. -/
theorem passed_row (hm : Bounded n m) (hj : j < n) (hk : k < n) :
    passed n k m (k * n + j) = m (k * n + j) := by
  rw [passed_cell hk hj, if_neg]
  rw [BitVec.lt_def, toNat_add (hm.le hk hk) (hm.le hk hj)]
  omega

/-- Wherever the loops are, every entry is as it was before the pass or as it is after it, and a
turn makes it the latter. -/
theorem relax_eq (hsize : n * n ≤ 2 ^ 32) (hm : Bounded n m) (hk : k < n) (hi : i < n) (hj : j < n)
    (hs : ∀ idx, s idx = m idx ∨ s idx = passed n k m idx) :
    relax n k i s j = Function.update s (i * n + j) (passed n k m (i * n + j)) := by
  have hik : s (i * n + k) = m (i * n + k) := by
    rcases hs (i * n + k) with h | h
    · exact h
    · exact h.trans (passed_column hm hi hk)
  have hkj : s (k * n + j) = m (k * n + j) := by
    rcases hs (k * n + j) with h | h
    · exact h
    · exact h.trans (passed_row hm hj hk)
  rw [relax, cpuIndex_of_size hsize hi hk, cpuIndex_of_size hsize hk hj,
    cpuIndex_of_size hsize hi hj, hik, hkj]
  have hcell := passed_cell (m := m) (k := k) hi hj
  rcases hs (i * n + j) with hold | hnew
  · rw [hold, hcell]
    split
    · rfl
    · rw [← hold, Function.update_eq_self]
  · rw [hnew, if_neg]
    · rw [← hnew, Function.update_eq_self]
    · rw [hcell]
      split
      · exact BitVec.lt_irrefl _
      · next hnot => exact hnot

private theorem foldl_relax (hsize : n * n ≤ 2 ^ 32) (hm : Bounded n m) (hk : k < n)
    {cells : List (Nat × Nat)} (hcells : ∀ c ∈ cells, c.1 < n ∧ c.2 < n)
    (hs : ∀ idx, s idx = m idx ∨ s idx = passed n k m idx) :
    cells.foldl (fun m c ↦ relax n k c.1 m c.2) s idx =
      if ∃ c ∈ cells, c.1 * n + c.2 = idx then passed n k m idx else s idx := by
  induction cells generalizing s with
  | nil => simp
  | cons c cells ih =>
    obtain ⟨⟨hi, hj⟩, hrest⟩ := List.forall_mem_cons.mp hcells
    rw [List.foldl_cons, relax_eq hsize hm hk hi hj hs, ih hrest]
    · simp only [List.mem_cons, exists_eq_or_imp]
      by_cases hidx : c.1 * n + c.2 = idx
      · subst hidx
        simp
      · rw [Function.update_of_ne (Ne.symm hidx)]
        exact if_congr (or_iff_right hidx).symm rfl rfl
    · intro idx'
      by_cases hidx : idx' = c.1 * n + c.2
      · subst hidx
        exact Or.inr (Function.update_self ..)
      · rw [Function.update_of_ne hidx]
        exact hs idx'

/-- The loops update the matrix while they read it, and leave what a pass over a copy would. -/
theorem cpuPass_eq (hsize : n * n ≤ 2 ^ 32) (hm : Bounded n m) (hk : k < n) :
    cpuPass n k m = passed n k m := by
  have hloops : cpuPass n k m = ((List.range n).flatMap fun i ↦ (List.range n).map (i, ·)).foldl
      (fun m c ↦ relax n k c.1 m c.2) m := by
    rw [cpuPass]
    simp only [List.foldl_flatMap, List.foldl_map]
  ext1 idx
  rw [hloops, foldl_relax hsize hm hk ?_ fun _ ↦ Or.inl rfl]
  · split
    · rfl
    · next hnone =>
      rw [passed, if_neg]
      rintro ⟨hlt, _⟩
      have hn : 0 < n := Nat.pos_of_ne_zero (by rintro rfl; omega)
      apply hnone
      refine ⟨(idx / n, idx % n), ?_, Nat.div_add_mod' idx n⟩
      simp only [List.mem_flatMap, List.mem_map, List.mem_range, Prod.mk.injEq]
      exact ⟨_, Nat.div_lt_of_lt_mul hlt, _, Nat.mod_lt idx hn, rfl, rfl⟩
  · intro c hc
    simp only [List.mem_flatMap, List.mem_map, List.mem_range] at hc
    obtain ⟨i, hi, j, hj, rfl⟩ := hc
    exact ⟨hi, hj⟩

/-! ### All passes -/

/-- As numbers, a pass puts `k` for a stop on the way. -/
theorem weight_passed (hm : Bounded n m) (k : Fin n) :
    weight (passed n k m) n = WalkSums.pass (weight m n) k := by
  ext i j
  have hsum := toNat_add (hm i k) (hm k j)
  rw [weight, passed_cell i.isLt j.isLt, WalkSums.pass]
  simp only [weight]
  split
  · next hlt =>
    rw [BitVec.lt_def, hsum] at hlt
    rw [hsum, min_eq_right hlt.le]
  · next hnot =>
    rw [BitVec.lt_def, hsum] at hnot
    rw [min_eq_left (Nat.le_of_not_lt hnot)]

/-- A pass keeps the bound. -/
theorem bounded_passed (hm : Bounded n m) (k : Fin n) : Bounded n (passed n k m) := by
  intro i j
  rw [weight_passed hm]
  exact WalkSums.pass_le.trans (hm i j)

/-- The passes of some `k`, one after the other. -/
theorem weight_foldl_cpuPass (hsize : n * n ≤ 2 ^ 32) (hm : Bounded n m) (ks : List (Fin n)) :
    weight (ks.foldl (fun m (k : Fin n) ↦ cpuPass n k m) m) n = closure (weight m n) ks := by
  induction ks generalizing m with
  | nil => rfl
  | cons k ks ih =>
    rw [List.foldl_cons, cpuPass_eq hsize hm k.isLt, ih (bounded_passed hm k), weight_passed hm]
    rfl

private theorem kfloydWarshallCpu_eq_foldl (m : Nat → Weight) (n : Nat) : kfloydWarshallCpu m n =
    (List.finRange n).foldl (fun m (k : Fin n) ↦ cpuPass n k m) m := by
  rw [← List.foldl_map (f := Fin.val) (g := fun m k ↦ cpuPass n k m),
    List.map_coe_finRange_eq_range]
  rfl

/-- The loops of the module compute the closure. -/
theorem weight_kfloydWarshallCpu (hsize : n * n ≤ 2 ^ 32) (hm : Bounded n m) :
    weight (kfloydWarshallCpu m n) n = closure (weight m n) (List.finRange n) := by
  rw [kfloydWarshallCpu_eq_foldl, weight_foldl_cpuPass hsize hm]

private theorem exact_turns (hsize : n * n ≤ 2 ^ 32) (hm : Bounded n m) :
    StepRun.Meets (turn n) (Exact n) m (turns n) := by
  apply StepRun.meets_of_invariant (I := Bounded n) _ _ hm
  · intro m t m' hm hturn
    obtain rfl := Option.some.inj hturn
    exact hm.of_lower (lower_relax m)
  · intro m t ht hm
    simp only [turns, List.mem_flatMap, List.mem_map, List.mem_range] at ht
    obtain ⟨k, hk, i, hi, j, hj, rfl⟩ := ht
    have hik := hm.le hi hk
    have hkj := hm.le hk hj
    rw [intMax] at hik hkj
    rw [Exact, cpuIndex_of_size hsize hi hk, cpuIndex_of_size hsize hk hj]
    omega

/-- The loop on the CPU computes shortest walks, for every matrix whose indices are
`unsigned int`. -/
theorem kfloydWarshallCpu_shortest (hsize : n * n ≤ 2 ^ 32) (hm : Bounded n m)
    (hdiag : ∀ i, weight m n i i = 0) : Shortest n m := by
  constructor
  · intro i j
    rw [weight_kfloydWarshallCpu hsize hm]
    exact WalkSums.isLeast_closure List.mem_finRange hdiag i j
  · exact exact_turns hsize hm
  · intro hsymm i j
    rw [weight_kfloydWarshallCpu hsize hm]
    exact WalkSums.closure_symm hsymm _ i j

/-- Three nodes, and the way over the third is the shorter one. -/
theorem kfloydWarshallCpu_shortest_three :
    Shortest 3 fun idx ↦ [0, 7, 1, 7, 0, 2, 1, 2, 0].getD idx 0 :=
  kfloydWarshallCpu_shortest (by decide) (by unfold Bounded; decide) (by decide)

/-- Of 65537 rows, the cell in row 65535 and column 1 is past `unsigned int`: it is never
lowered, although the way over node 0 costs nothing. -/
theorem not_shortest_wrapped : ¬∀ (n : Nat) (m : Nat → Weight), Bounded n m →
    (∀ i, weight m n i i = 0) → Shortest n m := by
  intro hall
  let m (idx : Nat) : Weight := if idx = 2 ^ 32 then 1 else 0
  have hbounded : Bounded 65537 m := by
    intro i j
    simp only [weight, m]
    split <;> decide
  have hdiag (i : Fin 65537) : weight m 65537 i i = 0 := by
    simp only [weight, m]
    rw [if_neg (by omega)]
    rfl
  obtain ⟨i, hi⟩ : ∃ i : Fin 65537, i.val = 65535 := ⟨⟨65535, by omega⟩, rfl⟩
  obtain ⟨v, hv⟩ : ∃ v : Fin 65537, v.val = 0 := ⟨⟨0, by omega⟩, rfl⟩
  obtain ⟨j, hj⟩ : ∃ j : Fin 65537, j.val = 1 := ⟨⟨1, by omega⟩, rfl⟩
  have hwalk : Walk Free (weight m 65537) i j (weight m 65537 i v + (weight m 65537 v j + 0)) :=
    .cons trivial (.cons trivial (.nil j))
  have hle := ((hall 65537 m hbounded hdiag).least i j).2 hwalk
  have hkeep : kfloydWarshallCpu m 65537 (i * 65537 + j) = m (i * 65537 + j) := by
    apply kfloydWarshallCpu_of_ne
    intro i' _ j' _
    have : cpuIndex 65537 i' j' < 2 ^ 32 := Nat.mod_lt _ (Nat.two_pow_pos 32)
    omega
  have hone : m (65535 * 65537 + 1) = 1 := if_pos (by decide)
  have hzero : m (65535 * 65537 + 0) = 0 := if_neg (by decide)
  have hzero' : m (0 * 65537 + 1) = 0 := if_neg (by decide)
  rw [weight, hkeep, weight, weight, hi, hv, hj, hone, hzero, hzero'] at hle
  exact absurd hle (by decide)

end QHGPU.FloydWarshall
