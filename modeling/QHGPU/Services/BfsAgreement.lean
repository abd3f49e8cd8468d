import QHGPU.Services.BfsLevels

/-!
# The two searches

When the search on the device gives the costs of the search on the CPU.
-/

namespace QHGPU.Bfs

open Levels (Walk Dist)

variable {g : Graph} {S j k u v : Nat}

/-- Both loops end, so that only the costs matter. -/
theorem agree_iff_cost {k k' : Nat} (hlast : LastTurn g globalWorkSize 0 k)
    (hlast' : LastTurn g g.noOfNodes 0 k') : Agree g ↔ ∀ v < g.noOfNodes,
      costAt g globalWorkSize 0 (k + 1) v = costAt g g.noOfNodes 0 (k' + 1) v := by
  have hgpu {v : Nat} (hv : v < g.noOfNodes) :=
    (atTurn_memoryAt (g := g) (S := globalWorkSize) (s := 0) (by decide) (k + 1)).cost v hv
  have hcpu {v : Nat} (hv : v < g.noOfNodes) :=
    (atTurn_memoryAt (g := g) (s := 0) g.pos (k' + 1)).cost v hv
  constructor
  · rintro ⟨fuel, m, hrun, hsearch⟩ v hv
    rw [start, hlast'.runBfsCpu_eq g.pos, Option.ite_none_right_eq_some] at hrun
    obtain ⟨_, hm⟩ := hrun
    obtain rfl := Option.some.inj hm
    rw [← hgpu hv, ← hcpu hv]
    exact (hlast.runBfsGpu_iff (by decide)).mp hsearch v hv
  · intro hcost
    refine ⟨k' + 1, memoryAt g g.noOfNodes 0 (k' + 1), ?_, (hlast.runBfsGpu_iff (by decide)).mpr ?_⟩
    · rw [start, hlast'.runBfsCpu_eq g.pos, if_pos (Nat.lt_succ_self k')]
    · intro v hv
      rw [hgpu hv, hcpu hv]
      exact hcost v hv

/-! ### Where they agree -/

/-- Every node at distance `k + 1` is the target of a node at distance `k` that has a work-item,
and one that has no work-item itself is the target of no nodes with a work-item at other
distances. -/
def Graph.Covered (g : Graph) : Prop :=
  ∀ k v, Dist g.Edge 0 (k + 1) v →
    (∃ u < globalWorkSize, Dist g.Edge 0 k u ∧ g.Edge u v) ∧
    (globalWorkSize ≤ v → ∀ u < globalWorkSize, ∀ j, Dist g.Edge 0 j u → g.Edge u v → j = k)

/-- Walks from nodes with a work-item are walks. -/
theorem walk_of_below (h : Walk (g.EdgeBelow S) 0 k v) : Walk g.Edge 0 k v :=
  h.mono fun _ _ hedge ↦ hedge.2

private theorem dist_of_below (h : Walk (g.EdgeBelow S) 0 k v) (hdist : Dist g.Edge 0 k v) :
    Dist (g.EdgeBelow S) 0 k v :=
  ⟨h, fun _ hj ↦ hdist.least _ (walk_of_below hj)⟩

/-- Shortest walks lead through nodes with a work-item. -/
theorem Graph.Covered.dist (hg : g.Covered) (h : Dist g.Edge 0 k v) :
    Dist (g.EdgeBelow globalWorkSize) 0 k v := by
  induction k generalizing v with
  | zero =>
    obtain rfl := h.eq_start
    exact Levels.dist_zero _ _
  | succ k ih =>
    obtain ⟨u, hu, hdist, hedge⟩ := (hg k v h).1
    exact dist_of_below (.snoc (ih hdist).walk ⟨hu, hedge⟩) h

private theorem Graph.Covered.dist_iff (hg : g.Covered) :
    Dist (g.EdgeBelow globalWorkSize) 0 k v ↔ Dist g.Edge 0 k v := by
  constructor
  · intro h
    obtain ⟨j, _, hdist⟩ := (walk_of_below h.walk).exists_dist
    rwa [h.unique (hg.dist hdist)]
  · exact hg.dist

private theorem agree_of_covered (hg : g.Covered) : Agree g := by
  obtain ⟨k, hlast⟩ := exists_lastTurn g globalWorkSize 0
  obtain ⟨k', hlast'⟩ := exists_lastTurn g g.noOfNodes 0
  rw [agree_iff_cost hlast hlast']
  intro v hv
  by_cases hex : ∃ j, Dist g.Edge 0 j v
  · obtain ⟨j, hdist⟩ := hex
    rw [hlast'.cost_of_dist hv (by rwa [edgeBelow_noOfNodes])]
    by_cases hS : v < globalWorkSize
    · exact hlast.cost_of_dist hS (hg.dist hdist)
    · have hle : globalWorkSize ≤ v := Nat.le_of_not_lt hS
      cases j with
      | zero => exact absurd (hdist.eq_start ▸ (by decide : 0 < globalWorkSize)) hS
      | succ j =>
        obtain ⟨⟨u, hu, hudist, hedge⟩, honly⟩ := hg j v hdist
        rcases hlast.cost_cases v with ⟨i, hstored, _, hcost⟩ | ⟨hnone, _⟩
        · obtain ⟨u', hu', hdist', hedge'⟩ := hstored.exists_dist
          rw [hcost, honly hle u' hu' i (hg.dist_iff.mp hdist') hedge']
          rfl
        · exact absurd ((stored_iff_of_le hle).mpr ⟨u, hg.dist hudist, hu, hedge⟩) (hnone j)
  · rw [not_exists] at hex
    rw [hlast.cost_of_not_dist fun j ↦ by rw [hg.dist_iff]; exact hex j,
      hlast'.cost_of_not_dist fun j ↦ by rw [edgeBelow_noOfNodes]; exact hex j]

private theorem covered_of_agree (h : Agree g) : g.Covered := by
  obtain ⟨k, hlast⟩ := exists_lastTurn g globalWorkSize 0
  obtain ⟨k', hlast'⟩ := exists_lastTurn g g.noOfNodes 0
  rw [agree_iff_cost hlast hlast'] at h
  have hcpu {j v : Nat} (hv : v < g.noOfNodes) (hdist : Dist g.Edge 0 j v) :
      costAt g globalWorkSize 0 (k + 1) v = j := by
    rw [h v hv]
    exact hlast'.cost_of_dist hv (by rwa [edgeBelow_noOfNodes])
  -- a node with a cost was stored to in the turn before
  have hstored {j v : Nat} (hv : v < g.noOfNodes) (hdist : Dist g.Edge 0 (j + 1) v) :
      g.Stored globalWorkSize 0 j v ∧ ∀ i, g.Stored globalWorkSize 0 i v → i ≤ j := by
    have hcost := hcpu hv hdist
    rcases hlast.cost_cases v with ⟨i, hstored, hmax, hcost'⟩ | ⟨_, hcost'⟩
    · obtain rfl : i = j := by
        rw [hcost', Nat.cast_succ] at hcost
        omega
      exact ⟨hstored, hmax⟩
    · rw [hcost', Nat.cast_succ] at hcost
      split at hcost <;> omega
  intro j v hdist
  obtain ⟨_, _, hedge⟩ := hdist.exists_last
  obtain ⟨hstore, hmax⟩ := hstored hedge.target_lt hdist
  constructor
  · obtain ⟨u, hu, hudist, hedge⟩ := hstore.exists_dist
    exact ⟨u, hu, hdist.of_last (walk_of_below hudist.walk) hedge, hedge⟩
  · intro hle u hu i hudist hedge
    have hbelow : Dist (g.EdgeBelow globalWorkSize) 0 i u := by
      cases i with
      | zero =>
        obtain rfl := hudist.eq_start
        exact Levels.dist_zero _ _
      | succ i => exact (stored_iff_of_lt hu).mp (hstored hedge.1 hudist).1
    have hupper := hmax i ((stored_iff_of_le hle).mpr ⟨u, hbelow, hu, hedge⟩)
    have hlower := hdist.least _ (.snoc hudist.walk hedge)
    omega

/-- Exactly where the work-items cover the shortest walks. -/
theorem agree_iff_covered (g : Graph) : Agree g ↔ g.Covered := ⟨covered_of_agree, agree_of_covered⟩

/-- In particular when every node has a work-item. -/
theorem covered_of_le (h : g.noOfNodes ≤ globalWorkSize) : g.Covered := by
  intro k v hdist
  obtain ⟨u, hu, hedge⟩ := hdist.exists_last
  refine ⟨⟨u, hedge.1.trans_le h, hu, hedge⟩, ?_⟩
  intro hle
  have := hedge.target_lt
  omega

/-- The edges 0 → 1024 → 1. -/
def detour : Graph where
  noOfNodes := 1025
  nodes v := if v = 0 then ⟨0, 1⟩ else if v = 1024 then ⟨1, 1⟩ else ⟨0, 0⟩
  edgeListSize := 2
  edges i := if i = 0 then 1024 else 1
  pos := by decide
  range v _ := by
    split
    · decide
    · split <;> decide
  target i _ := by
    split <;> decide

private theorem edge_detour_iff : detour.Edge u v ↔ u = 0 ∧ v = 1024 ∨ u = 1024 ∧ v = 1 := by
  simp only [Graph.Edge, detour]
  split
  · next hu => simp [hu, eq_comm]
  · next hu =>
    split
    · next hu' => simp [hu', eq_comm]
    · next hu' => simp [hu, hu']

/-- Node 1 is never reached on the device. -/
theorem not_agree_detour : ¬Agree detour := by
  intro h
  have hdist : Dist detour.Edge 0 2 1 := by
    refine ⟨.snoc (.snoc .nil (edge_detour_iff.mpr (Or.inl ⟨rfl, rfl⟩)))
      (edge_detour_iff.mpr (Or.inr ⟨rfl, rfl⟩)), ?_⟩
    intro j hj
    by_contra hlt
    obtain rfl | rfl : j = 0 ∨ j = 1 := by omega
    · exact absurd (Levels.walk_zero_iff.mp hj) (by decide)
    · obtain ⟨u, hu, hedge⟩ := Levels.walk_succ_iff.mp hj
      obtain rfl := Levels.walk_zero_iff.mp hu
      simp [edge_detour_iff] at hedge
  obtain ⟨u, hu, _, hedge⟩ := (covered_of_agree h 1 1 hdist).1
  rw [edge_detour_iff] at hedge
  simp only [globalWorkSize] at hu
  omega

end QHGPU.Bfs
