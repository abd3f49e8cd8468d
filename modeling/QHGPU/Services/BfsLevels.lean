import QHGPU.Library.Levels
import QHGPU.Services.BfsTurns

/-!
# Costs of the search

The memory after every turn, from the distances along the edges of the nodes that have a
work-item, and when these give the costs of the CPU.
-/

namespace QHGPU.Bfs

open Levels (Walk Dist dist_succ_iff)
open Classical

variable {g : Graph} {S s r j k v : Nat} {m m' : Memory}

/-- The edges whose source has a work-item. -/
def Graph.EdgeBelow (g : Graph) (S u v : Nat) : Prop := u < S ∧ g.Edge u v

/-- The node gets cost `j + 1` in turn `j`: it is the target of a node at distance `j`, and not
visited, which only nodes with a work-item ever are. -/
def Graph.Stored (g : Graph) (S s j v : Nat) : Prop :=
  (∃ u, Dist (g.EdgeBelow S) s j u ∧ g.EdgeBelow S u v) ∧
    (v < S → ∀ i ≤ j, ¬Dist (g.EdgeBelow S) s i v)

/-- The cost after `r` turns. -/
noncomputable def costAt (g : Graph) (S s : Nat) : Nat → Nat → Int
  | 0, v => if v = s then 0 else -1
  | r + 1, v => if g.Stored S s r v then r + 1 else costAt g S s r v

/-- The memory before turn `r`. -/
structure AtTurn (g : Graph) (S s r : Nat) (m : Memory) : Prop where
  mask : ∀ v < g.noOfNodes, m (.mask v) =
    if v < S ∧ Dist (g.EdgeBelow S) s r v then 1 else 0
  visited : ∀ v < g.noOfNodes, m (.visited v) =
    if v < S ∧ ∃ j ≤ r, Dist (g.EdgeBelow S) s j v then 1 else 0
  updating : ∀ v < g.noOfNodes, m (.updating v) = if S ≤ v ∧ ∃ j < r, g.Stored S s j v then 1 else 0
  cost : ∀ v < g.noOfNodes, m (.cost v) = costAt g S s r v

/-- Nodes with a work-item get their cost once. -/
theorem stored_iff_of_lt (hv : v < S) : g.Stored S s r v ↔ Dist (g.EdgeBelow S) s (r + 1) v := by
  rw [Graph.Stored, dist_succ_iff]
  exact and_congr_right fun _ ↦ ⟨fun h ↦ h hv, fun h _ ↦ h⟩

/-- A node without one gets a cost whenever a neighbour is looked at. -/
theorem stored_iff_of_le (hv : S ≤ v) : g.Stored S s r v ↔
    ∃ u, Dist (g.EdgeBelow S) s r u ∧ g.EdgeBelow S u v :=
  and_iff_left fun h ↦ absurd h (Nat.not_lt.mpr hv)

private theorem atTurn_start (hS : s < S) : AtTurn g S s 0 (startFrom s) := by
  have hdist (v : Nat) : Dist (g.EdgeBelow S) s 0 v ↔ v = s := by
    constructor
    · exact Dist.eq_start
    · rintro rfl
      exact Levels.dist_zero _ _
  refine ⟨?_, ?_, ?_, ?_⟩
  · intro v _
    refine if_congr ?_ rfl rfl
    rw [hdist]
    exact ⟨fun h ↦ ⟨h ▸ hS, h⟩, fun h ↦ h.2⟩
  · intro v _
    refine if_congr ?_ rfl rfl
    simp only [Nat.le_zero, exists_eq_left, hdist]
    exact ⟨fun h ↦ ⟨h ▸ hS, h⟩, fun h ↦ h.2⟩
  · intro v _
    exact (if_neg fun h ↦ h.2.elim fun j hj ↦ Nat.not_lt_zero j hj.1).symm
  · exact fun v _ ↦ rfl

variable (h : AtTurn g S s r m)

include h

private theorem AtTurn.mask_ne_zero_iff (hv : v < g.noOfNodes) :
    m (.mask v) ≠ 0 ↔ v < S ∧ Dist (g.EdgeBelow S) s r v := by
  rw [h.mask v hv]
  split
  · next hmask => exact ⟨fun _ ↦ hmask, fun _ ↦ by decide⟩
  · next hmask => exact ⟨fun hne ↦ absurd rfl hne, fun h ↦ absurd h hmask⟩

private theorem AtTurn.visited_eq_zero_iff (hv : v < g.noOfNodes) :
    m (.visited v) = 0 ↔ (v < S → ∀ j ≤ r, ¬Dist (g.EdgeBelow S) s j v) := by
  rw [h.visited v hv]
  split
  · next hvisited =>
    obtain ⟨hS, j, hj, hdist⟩ := hvisited
    exact ⟨fun h ↦ absurd h (by decide), fun h ↦ absurd hdist (h hS j hj)⟩
  · next hvisited =>
    exact ⟨fun _ hS j hj hdist ↦ hvisited ⟨hS, j, hj, hdist⟩, fun _ ↦ rfl⟩

/-- What the items of a turn rely on. -/
theorem AtTurn.ready : Ready g S r (Function.update m .gOver 0) := by
  refine ⟨?_, ?_⟩
  · intro u hu hn hmask
    rw [Function.update_of_ne (by simp)] at hmask ⊢
    rw [ne_eq, h.visited_eq_zero_iff hn]
    have hdist := ((h.mask_ne_zero_iff hn).mp hmask).2
    exact fun hnone ↦ hnone hu r (Nat.le_refl r) hdist
  · intro u hu hn hmask
    rw [Function.update_of_ne (by simp)] at hmask ⊢
    have hdist := ((h.mask_ne_zero_iff hn).mp hmask).2
    rw [h.cost u hn]
    cases r with
    | zero => exact if_pos hdist.eq_start
    | succ r =>
      rw [costAt, if_pos ((stored_iff_of_lt hu).mpr hdist)]
      rfl

private theorem AtTurn.touched_iff (hv : v < g.noOfNodes) :
    Touched g S (Function.update m .gOver 0) v ↔ g.Stored S s r v := by
  constructor
  · rintro ⟨u, hu, hmask, hedge, hzero⟩
    rw [Function.update_of_ne (by simp)] at hmask hzero
    exact ⟨⟨u, ((h.mask_ne_zero_iff hedge.1).mp hmask).2, hu, hedge⟩,
      (h.visited_eq_zero_iff hv).mp hzero⟩
  · rintro ⟨⟨u, hdist, hu, hedge⟩, hnone⟩
    refine ⟨u, hu, ?_, hedge, ?_⟩
    · rw [Function.update_of_ne (by simp)]
      exact (h.mask_ne_zero_iff hedge.1).mpr ⟨hu, hdist⟩
    · rw [Function.update_of_ne (by simp)]
      exact (h.visited_eq_zero_iff hv).mpr hnone

private theorem AtTurn.updating_expanded (hv : v < g.noOfNodes) :
    expanded g S r (Function.update m .gOver 0) (.updating v) =
      if g.Stored S s r v ∨ S ≤ v ∧ ∃ j < r, g.Stored S s j v then 1 else 0 := by
  rw [expanded, h.touched_iff hv, Function.update_of_ne (by simp), h.updating v hv]
  by_cases hstored : g.Stored S s r v
  · rw [if_pos hstored, if_pos (Or.inl hstored)]
  · rw [if_neg hstored]
    exact if_congr (or_iff_right hstored).symm rfl rfl

private theorem AtTurn.marked_iff (hv : v < g.noOfNodes) :
    Marked g S (expanded g S r (Function.update m .gOver 0)) v ↔
      v < S ∧ Dist (g.EdgeBelow S) s (r + 1) v := by
  rw [Marked, h.updating_expanded hv]
  constructor
  · rintro ⟨hS, _, hupdating⟩
    refine ⟨hS, (stored_iff_of_lt hS).mp ?_⟩
    by_contra hnot
    refine hupdating (if_neg ?_)
    rintro (hstored | ⟨hle, _⟩)
    · exact hnot hstored
    · omega
  · rintro ⟨hS, hdist⟩
    refine ⟨hS, hv, ?_⟩
    rw [if_pos (Or.inl ((stored_iff_of_lt hS).mpr hdist))]
    decide

/-- The next turn. -/
theorem AtTurn.turned : AtTurn g S s (r + 1) (turned g S r m) := by
  refine ⟨?_, ?_, ?_, ?_⟩
  · intro v hv
    rw [Bfs.turned, marked, h.marked_iff hv]
    by_cases hmark : v < S ∧ Dist (g.EdgeBelow S) s (r + 1) v
    · rw [if_pos hmark, if_pos hmark]
    · rw [if_neg hmark, if_neg hmark, expanded]
      by_cases hS : v < S
      · rw [if_pos ⟨hS, hv⟩]
      · rw [if_neg fun h ↦ hS h.1, Function.update_of_ne (by simp), h.mask v hv,
          if_neg fun h ↦ hS h.1]
  · intro v hv
    rw [Bfs.turned, marked, h.marked_iff hv]
    by_cases hmark : v < S ∧ Dist (g.EdgeBelow S) s (r + 1) v
    · rw [if_pos hmark, if_pos ⟨hmark.1, r + 1, Nat.le_refl _, hmark.2⟩]
    · rw [if_neg hmark, expanded, Function.update_of_ne (by simp), h.visited v hv]
      refine if_congr (and_congr_right fun hS ↦ ⟨?_, ?_⟩) rfl rfl
      · rintro ⟨j, hj, hdist⟩
        exact ⟨j, Nat.le_succ_of_le hj, hdist⟩
      · rintro ⟨j, hj, hdist⟩
        rcases Nat.le_succ_iff.mp hj with hle | rfl
        · exact ⟨j, hle, hdist⟩
        · exact absurd ⟨hS, hdist⟩ hmark
  · intro v hv
    rw [Bfs.turned, marked, h.marked_iff hv, h.updating_expanded hv]
    by_cases hS : v < S
    · have hle : ¬S ≤ v := Nat.not_le.mpr hS
      rw [← stored_iff_of_lt hS]
      simp only [hS, hle, true_and, false_and, or_false, if_false]
      split
      · rfl
      · rfl
    · have hle : S ≤ v := Nat.le_of_not_lt hS
      rw [if_neg fun h ↦ hS h.1]
      refine if_congr ⟨?_, ?_⟩ rfl rfl
      · rintro (hstored | ⟨_, j, hj, hstored⟩)
        · exact ⟨hle, r, Nat.lt_succ_self r, hstored⟩
        · exact ⟨hle, j, Nat.lt_succ_of_lt hj, hstored⟩
      · rintro ⟨_, j, hj, hstored⟩
        rcases Nat.lt_succ_iff_lt_or_eq.mp hj with hlt | rfl
        · exact Or.inr ⟨hle, j, hlt, hstored⟩
        · exact Or.inl hstored
  · intro v hv
    rw [Bfs.turned, marked, expanded, costAt, Function.update_of_ne (by simp), h.cost v hv]
    exact if_congr (h.touched_iff hv) rfl rfl

/-- The flag tells whether the next level has a node with a work-item. -/
theorem AtTurn.over_turned : Bfs.turned g S r m .gOver ≠ 0 ↔
    ∃ v < S, Dist (g.EdgeBelow S) s (r + 1) v := by
  have hmark : (∃ v, Marked g S (expanded g S r (Function.update m .gOver 0)) v) ↔
      ∃ v < S, Dist (g.EdgeBelow S) s (r + 1) v := by
    constructor
    · rintro ⟨v, hmarked⟩
      exact ⟨v, (h.marked_iff hmarked.2.1).mp hmarked⟩
    · rintro ⟨v, hS, hdist⟩
      obtain ⟨u, _, _, hedge⟩ := hdist.exists_last
      exact ⟨v, (h.marked_iff hedge.target_lt).mpr ⟨hS, hdist⟩⟩
  rw [Bfs.turned, marked, hmark, expanded, Function.update_self]
  split
  · next hex => exact ⟨fun _ ↦ hex, fun _ ↦ by decide⟩
  · next hnone => exact ⟨fun h ↦ absurd rfl h, fun h ↦ absurd h hnone⟩

omit h

/-! ### Whole searches -/

/-- The memory after some turns. -/
noncomputable def memoryAt (g : Graph) (S s : Nat) : Nat → Memory
  | 0 => startFrom s
  | r + 1 => turned g S r (memoryAt g S s r)

/-- `memoryAt` describes the memory before each turn. -/
theorem atTurn_memoryAt (hS : s < S) (r : Nat) : AtTurn g S s r (memoryAt g S s r) := by
  induction r with
  | zero => exact atTurn_start hS
  | succ r ih => exact ih.turned

/-- No node with a work-item is in the level after `k`, and some is in each level before. -/
structure LastTurn (g : Graph) (S s k : Nat) : Prop where
  last : ∀ v < S, ¬Dist (g.EdgeBelow S) s (k + 1) v
  before : ∀ r < k, ∃ v < S, Dist (g.EdgeBelow S) s (r + 1) v

/-- There is a last turn. -/
theorem exists_lastTurn (g : Graph) (S s : Nat) : ∃ k, LastTurn g S s k := by
  have hex := Levels.exists_level_empty (A := fun v ↦ v < S) (fun v hv ↦ hv) (g.EdgeBelow S) s
  refine ⟨Nat.find hex, Nat.find_spec hex, ?_⟩
  intro r hr
  have hnot := Nat.find_min hex hr
  push Not at hnot
  exact hnot

private theorem LastTurn.over_eq_zero (hlast : LastTurn g S s k) (hS : s < S) :
    memoryAt g S s (k + 1) .gOver = 0 := by
  by_contra hne
  obtain ⟨v, hv, hdist⟩ := (atTurn_memoryAt hS k).over_turned.mp hne
  exact hlast.last v hv hdist

private theorem LastTurn.over_ne_zero (hlast : LastTurn g S s k) (hS : s < S) (hr : r < k) :
    memoryAt g S s (r + 1) .gOver ≠ 0 :=
  (atTurn_memoryAt hS r).over_turned.mpr (hlast.before r hr)

/-- The loop of the host ends with the memory after the last turn. -/
theorem LastTurn.runBfsGpu_iff {post : Memory → Prop} (hlast : LastTurn g globalWorkSize s k)
    (hS : s < globalWorkSize) :
    RunBfsGpu g post (startFrom s) ↔ post (memoryAt g globalWorkSize s (k + 1)) := by
  have hturn (r : Nat) (m' : Memory) : Turn g globalWorkSize (memoryAt g globalWorkSize s r) m' ↔
      m' = memoryAt g globalWorkSize s (r + 1) := turn_iff (atTurn_memoryAt hS r).ready
  -- from turn `r` on, with `d` turns before the last one
  have loop (d r : Nat) (hd : r + d = k) : RunBfsGpu g post (memoryAt g globalWorkSize s r) ↔
      post (memoryAt g globalWorkSize s (k + 1)) := by
    induction d generalizing r with
    | zero =>
      obtain rfl : r = k := hd
      have hover := hlast.over_eq_zero hS
      constructor
      · rintro ⟨_, hstop, _⟩
        exact hstop _ ((hturn r _).mpr rfl) hover
      · intro hpost
        refine .turn (turnRuns (atTurn_memoryAt hS r).ready) ?_ ?_
        · intro m' hm' _
          rw [(hturn r m').mp hm']
          exact hpost
        · intro m' hm' hne
          rw [(hturn r m').mp hm'] at hne
          exact absurd hover hne
    | succ d ih =>
      have hover := hlast.over_ne_zero hS (r := r) (by omega)
      rw [← ih (r + 1) (by omega)]
      constructor
      · rintro ⟨_, _, hnext⟩
        exact hnext _ ((hturn r _).mpr rfl) hover
      · intro hrest
        refine .turn (turnRuns (atTurn_memoryAt hS r).ready) ?_ ?_
        · intro m' hm' hzero
          rw [(hturn r m').mp hm'] at hzero
          exact absurd hzero hover
        · intro m' hm' _
          rw [(hturn r m').mp hm']
          exact hrest
  exact loop k 0 (Nat.zero_add k)

/-- So does the loop of the CPU, given enough turns. -/
theorem LastTurn.runBfsCpu_eq (hlast : LastTurn g g.noOfNodes s k) (hS : s < g.noOfNodes)
    {fuel : Nat} : runBfsCpu g fuel (startFrom s) =
      if k < fuel then some (memoryAt g g.noOfNodes s (k + 1)) else none := by
  have hturn (r : Nat) :
      cpuTurn g (memoryAt g g.noOfNodes s r) = memoryAt g g.noOfNodes s (r + 1) :=
    (turn_iff (atTurn_memoryAt hS r).ready).mp (turn_cpuTurn g _)
  have loop (fuel r : Nat) (hr : r ≤ k) : runBfsCpu g fuel (memoryAt g g.noOfNodes s r) =
      if k < r + fuel then some (memoryAt g g.noOfNodes s (k + 1)) else none := by
    induction fuel generalizing r with
    | zero => exact (if_neg (Nat.not_lt.mpr hr)).symm
    | succ fuel ih =>
      rw [runBfsCpu, hturn r]
      rcases Nat.lt_or_eq_of_le hr with hlt | rfl
      · rw [if_pos (hlast.over_ne_zero hS hlt), ih (r + 1) hlt]
        exact if_congr (by omega) rfl rfl
      · rw [if_neg (not_not.mpr (hlast.over_eq_zero hS)), if_pos (by omega)]
  rw [show startFrom s = memoryAt g g.noOfNodes s 0 from rfl, loop fuel 0 (Nat.zero_le k),
    Nat.zero_add]

/-! ### Final costs -/

/-- A cost comes from a node at the distance before. -/
theorem Graph.Stored.exists_dist (h : g.Stored S s j v) :
    ∃ u < S, Dist (g.EdgeBelow S) s j u ∧ g.Edge u v := by
  obtain ⟨⟨u, hdist, hu, hedge⟩, _⟩ := h
  exact ⟨u, hu, hdist, hedge⟩

private theorem costAt_cases (g : Graph) (S s r v : Nat) :
    (∃ j < r, g.Stored S s j v ∧ (∀ i < r, g.Stored S s i v → i ≤ j) ∧ costAt g S s r v = j + 1) ∨
    (∀ j < r, ¬g.Stored S s j v) ∧ costAt g S s r v = if v = s then 0 else -1 := by
  induction r with
  | zero => exact Or.inr ⟨fun j hj ↦ absurd hj (Nat.not_lt_zero j), rfl⟩
  | succ r ih =>
    rw [costAt]
    by_cases hr : g.Stored S s r v
    · refine Or.inl ⟨r, Nat.lt_succ_self r, hr, ?_, if_pos hr⟩
      exact fun i hi _ ↦ Nat.le_of_lt_succ hi
    · rw [if_neg hr]
      rcases ih with ⟨j, hj, hstored, hlast, hcost⟩ | ⟨hnone, hcost⟩
      · refine Or.inl ⟨j, Nat.lt_succ_of_lt hj, hstored, ?_, hcost⟩
        intro i hi hstored'
        rcases Nat.lt_succ_iff_lt_or_eq.mp hi with hlt | rfl
        · exact hlast i hlt hstored'
        · exact absurd hstored' hr
      · refine Or.inr ⟨?_, hcost⟩
        intro j hj
        rcases Nat.lt_succ_iff_lt_or_eq.mp hj with hlt | rfl
        · exact hnone j hlt
        · exact hr

/-- No level after the last one has a node with a work-item. -/
theorem LastTurn.lt_of_dist (hlast : LastTurn g S s k) (hu : u < S)
    (h : Dist (g.EdgeBelow S) s j u) : j < k + 1 := by
  by_contra hge
  obtain ⟨d, rfl⟩ : ∃ d, j = k + 1 + d := ⟨j - (k + 1), by omega⟩
  clear hge
  induction d generalizing u with
  | zero => exact hlast.last u hu h
  | succ d ih =>
    obtain ⟨u', hdist, hu', _⟩ := h.exists_last
    exact ih hu' hdist

/-- The cost of a node is that of the last turn that stores to it. -/
theorem LastTurn.cost_cases (hlast : LastTurn g S s k) (v : Nat) :
    (∃ j, g.Stored S s j v ∧ (∀ i, g.Stored S s i v → i ≤ j) ∧ costAt g S s (k + 1) v = j + 1) ∨
    (∀ j, ¬g.Stored S s j v) ∧ costAt g S s (k + 1) v = if v = s then 0 else -1 := by
  have hlt {i : Nat} (hi : g.Stored S s i v) : i < k + 1 := by
    obtain ⟨u, hu, hdist, _⟩ := hi.exists_dist
    exact hlast.lt_of_dist hu hdist
  rcases costAt_cases g S s (k + 1) v with ⟨j, _, hstored, hmax, hcost⟩ | ⟨hnone, hcost⟩
  · exact Or.inl ⟨j, hstored, fun i hi ↦ hmax i (hlt hi) hi, hcost⟩
  · exact Or.inr ⟨fun j hj ↦ hnone j (hlt hj) hj, hcost⟩

/-- The cost of a node with a work-item is its distance. -/
theorem LastTurn.cost_of_dist (hlast : LastTurn g S s k) (hv : v < S)
    (h : Dist (g.EdgeBelow S) s j v) : costAt g S s (k + 1) v = j := by
  rcases hlast.cost_cases v with ⟨i, hstored, _, hcost⟩ | ⟨hnone, hcost⟩
  · rw [hcost, h.unique ((stored_iff_of_lt hv).mp hstored)]
    rfl
  · cases j with
    | zero => rw [hcost, if_pos h.eq_start]; rfl
    | succ j => exact absurd ((stored_iff_of_lt hv).mpr h) (hnone j)

/-- A node that is not reached keeps -1. -/
theorem LastTurn.cost_of_not_dist (hlast : LastTurn g S s k)
    (h : ∀ j, ¬Dist (g.EdgeBelow S) s j v) : costAt g S s (k + 1) v = -1 := by
  rcases hlast.cost_cases v with ⟨i, hstored, _⟩ | ⟨_, hcost⟩
  · obtain ⟨u, hu, hdist, hedge⟩ := hstored.exists_dist
    obtain ⟨j, _, hj⟩ := (Walk.snoc hdist.walk ⟨hu, hedge⟩).exists_dist
    exact absurd hj (h j)
  · rw [hcost, if_neg]
    rintro rfl
    exact h 0 (Levels.dist_zero _ _)

/-- With an item for each node all edges are followed. -/
theorem edgeBelow_noOfNodes (g : Graph) : g.EdgeBelow g.noOfNodes = g.Edge := by
  funext u v
  exact propext ⟨fun h ↦ h.2, fun h ↦ ⟨h.1, h⟩⟩

end QHGPU.Bfs
