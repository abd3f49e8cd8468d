import QHGPU.Services.BfsLevels

/-!
# Distances of the search

`run_bfs_cpu` from any source: it ends, with the distances for costs.
-/

namespace QHGPU.Bfs

open Levels (Walk Dist)
open Classical

variable {g : Graph} {S s k v : Nat} {m : Memory}

/-- The search from `s` is over: the costs are the distances, and -1 where there is no walk; the
nodes with a walk are visited, and the masks are empty. -/
structure Searched (g : Graph) (s : Nat) (m : Memory) : Prop where
  cost : ∀ v < g.noOfNodes, ∀ k, Dist g.Edge s k v → m (.cost v) = k
  unreachable : ∀ v < g.noOfNodes, (∀ k, ¬Walk g.Edge s k v) → m (.cost v) = -1
  visited : ∀ v < g.noOfNodes, m (.visited v) = if ∃ k, Walk g.Edge s k v then 1 else 0
  mask : ∀ v < g.noOfNodes, m (.mask v) = 0
  updating : ∀ v < g.noOfNodes, m (.updating v) = 0

/-- Each level up to the last one has a node of its own. -/
theorem LastTurn.lt (hlast : LastTurn g S s k) (hs : s < S) : k < S := by
  have hlevels (j : Nat) (hj : j ≤ k) : ∃ v ∈ Finset.range S, Dist (g.EdgeBelow S) s j v := by
    cases j with
    | zero => exact ⟨s, Finset.mem_range.mpr hs, Levels.dist_zero _ _⟩
    | succ j =>
      obtain ⟨v, hv, hdist⟩ := hlast.before j hj
      exact ⟨v, Finset.mem_range.mpr hv, hdist⟩
  have hlt := Levels.lt_of_levels hlevels
  rwa [Finset.card_range] at hlt

/-- What the last turn leaves, when every node has a work-item. -/
theorem LastTurn.searched (hlast : LastTurn g g.noOfNodes s k) (hs : s < g.noOfNodes) :
    Searched g s (memoryAt g g.noOfNodes s (k + 1)) := by
  have hat := atTurn_memoryAt (g := g) hs (k + 1)
  constructor
  · intro v hv j hdist
    rw [hat.cost v hv]
    exact hlast.cost_of_dist hv (by rwa [edgeBelow_noOfNodes])
  · intro v hv hnone
    rw [hat.cost v hv]
    apply hlast.cost_of_not_dist
    intro j hdist
    rw [edgeBelow_noOfNodes] at hdist
    exact hnone j hdist.walk
  · intro v hv
    rw [hat.visited v hv, edgeBelow_noOfNodes]
    apply if_congr _ rfl rfl
    constructor
    · rintro ⟨_, j, _, hdist⟩
      exact ⟨j, hdist.walk⟩
    · rintro ⟨j, hwalk⟩
      obtain ⟨i, _, hdist⟩ := hwalk.exists_dist
      have hlt : i < k + 1 := hlast.lt_of_dist hv (by rwa [edgeBelow_noOfNodes])
      exact ⟨hv, i, hlt.le, hdist⟩
  · intro v hv
    rw [hat.mask v hv, if_neg]
    exact fun h ↦ hlast.last v hv h.2
  · intro v hv
    rw [hat.updating v hv, if_neg]
    exact fun h ↦ absurd hv (Nat.not_lt.mpr h.1)

/-- The loop of the CPU ends within as many turns as there are nodes, and one more, with the
distances from the source. -/
theorem runBfsCpu_searched (g : Graph) (hs : s < g.noOfNodes) :
    ∃ m, runBfsCpu g (g.noOfNodes + 1) (startFrom s) = some m ∧ Searched g s m := by
  obtain ⟨k, hlast⟩ := exists_lastTurn g g.noOfNodes s
  refine ⟨memoryAt g g.noOfNodes s (k + 1), ?_, hlast.searched hs⟩
  rw [hlast.runBfsCpu_eq hs, if_pos]
  have := hlast.lt hs
  omega

/-- From node 0 of the diamond all but node 4 are reached. -/
theorem runBfsCpu_diamond :
    ∃ m, runBfsCpu diamond 6 (startFrom 0) = some m ∧ Searched diamond 0 m :=
  runBfsCpu_searched diamond (by decide)

end QHGPU.Bfs
