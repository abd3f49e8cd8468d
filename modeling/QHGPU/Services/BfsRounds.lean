import QHGPU.Library.AtomicSteps
import QHGPU.Services.BfsLevels

/-!
# Rounds of the kernels

On a grid with a work-item for every node, a turn leaves what one turn of the CPU leaves, in
every order of the steps and however large these are.
-/

namespace QHGPU.Bfs

open WorkItems (Prog Runs load store)
open Classical

variable {g : Graph} {S s r tid : Nat} {m m' : Memory}

/-! ### Reachable memories -/

/-- The memories that complete turns lead to, on grids with an item for every node. -/
inductive Reachable (g : Graph) : Memory → Prop
  | start {s : Nat} (hs : s < g.noOfNodes) : Reachable g (startFrom s)
  | turn {S : Nat} {m m' : Memory} (hS : g.noOfNodes ≤ S) (h : Reachable g m)
      (hturn : Turn g S m m') : Reachable g m'

private theorem touched_iff_of_le (hS : g.noOfNodes ≤ S) (v : Nat) :
    Touched g S m v ↔ Touched g g.noOfNodes m v := by
  constructor
  · rintro ⟨u, _, hmask, hedge, hzero⟩
    exact ⟨u, hedge.1, hmask, hedge, hzero⟩
  · rintro ⟨u, hu, hmask, hedge, hzero⟩
    exact ⟨u, hu.trans_le hS, hmask, hedge, hzero⟩

private theorem marked_iff_of_le (hS : g.noOfNodes ≤ S) (v : Nat) :
    Marked g S m v ↔ Marked g g.noOfNodes m v := by
  constructor
  · rintro ⟨_, hv, hupdating⟩
    exact ⟨hv, hv, hupdating⟩
  · rintro ⟨_, hv, hupdating⟩
    exact ⟨hv.trans_le hS, hv, hupdating⟩

/-- Items that have no node change nothing. -/
theorem turned_of_le (hS : g.noOfNodes ≤ S) : turned g S r m = turned g g.noOfNodes r m := by
  have hexpanded (m : Memory) : expanded g S r m = expanded g g.noOfNodes r m := by
    ext l
    cases l with
    | mask v =>
      apply if_congr _ rfl rfl
      exact and_congr_left fun hv ↦ iff_of_true (hv.trans_le hS) hv
    | updating v | cost v => exact if_congr (touched_iff_of_le hS v) rfl rfl
    | _ => rfl
  rw [turned, turned, hexpanded]
  ext l
  cases l with
  | mask v | visited v | updating v => exact if_congr (marked_iff_of_le hS v) rfl rfl
  | gOver => exact if_congr (exists_congr (marked_iff_of_le hS)) rfl rfl
  | cost v => rfl

private theorem Ready.of_le (hready : Ready g g.noOfNodes r m) : Ready g S r m :=
  ⟨fun u _ hn ↦ hready.visited u hn hn, fun u _ hn ↦ hready.cost u hn hn⟩

/-- The frontier is visited, and all of it has the same cost. -/
theorem Reachable.exists_ready (h : Reachable g m) :
    ∃ s < g.noOfNodes, ∃ r, m = memoryAt g g.noOfNodes s r := by
  induction h with
  | @start s hs => exact ⟨s, hs, 0, rfl⟩
  | @turn S m m' hS _ hturn ih =>
    obtain ⟨s, hs, r, rfl⟩ := ih
    refine ⟨s, hs, r + 1, ?_⟩
    rw [(turn_iff (atTurn_memoryAt hs r).ready.of_le).mp hturn, turned_of_le hS]
    rfl

/-- A turn leaves what the loops of the CPU leave. -/
theorem Reachable.turn_iff (h : Reachable g m) (hS : g.noOfNodes ≤ S) :
    Turn g S m m' ↔ m' = cpuTurn g m := by
  obtain ⟨s, hs, r, rfl⟩ := h.exists_ready
  have hready := (atTurn_memoryAt (g := g) hs r).ready
  rw [Bfs.turn_iff hready.of_le, turned_of_le hS]
  rw [(Bfs.turn_iff hready).mp (turn_cpuTurn g _)]

/-! ### Steps of the size of an edge -/

/-- What is left of an item of the first kernel: all of it, or some edges of its node. -/
inductive Left where
  | entry
  | edges (is : List Nat)

/-- The next step of an item of the first kernel: its own entry of the mask, or one edge. -/
def bfs1Step (g : Graph) (tid : Nat) (m : Memory) : Left → Option (Memory × Left)
  | .entry =>
    if tid < g.noOfNodes ∧ m (.mask tid) ≠ 0 then
      some (Function.update m (.mask tid) 0,
        .edges (List.range' (g.nodes tid).starting (g.nodes tid).noOfEdges))
    else some (m, .edges [])
  | .edges [] => none
  | .edges (i :: is) => some (visitEdge g tid m i, .edges is)

/-- The one step of an item of the second kernel; `true` when it is over. -/
def bfs2Step (g : Graph) (tid : Nat) (m : Memory) : Bool → Option (Memory × Bool)
  | false => some (if tid < g.noOfNodes then markNode m tid else m, true)
  | true => none

/-- A turn in steps of this size: all of the first kernel, in any order, and then all of the
second. -/
def AtomicTurn (g : Graph) (S : Nat) (m m' : Memory) : Prop :=
  ∃ m₁, AtomicSteps.Launch (fun tid : Fin S ↦ bfs1Step g tid) (fun _ ↦ .entry)
      (Function.update m .gOver 0) m₁ ∧
    AtomicSteps.Launch (fun tid : Fin S ↦ bfs2Step g tid) (fun _ ↦ false) m₁ m'

/-- One edge, in loads and stores. -/
def followEdge (g : Graph) (tid i : Nat) : Prog Place Int Unit := do
  let id := g.edges i
  let seen ← load (.visited id)
  if seen = 0 then
    let cost ← load (.cost tid)
    store (.cost id) (cost + 1)
    store (.updating id) 1

private theorem runs_followEdge (g : Graph) (tid i : Nat) (m : Memory) :
    Runs m (followEdge g tid i) (visitEdge g tid m i) (.ret ()) := by
  rw [followEdge, WorkItems.load_bind]
  apply Runs.get
  rw [visitEdge]
  split
  · exact .get (.put (.put .refl))
  · exact .refl

/-- What is left of the item, in loads and stores. -/
def bfs1Prog (g : Graph) (tid : Nat) : Left → Prog Place Int Unit
  | .entry => bfs1 g tid
  | .edges is => is.forM (followEdge g tid)

/-- What a step of the first kernel does: the node is expanded or not, or an edge is followed. -/
inductive Bfs1Trans (g : Graph) (tid : Nat) (m : Memory) : Left → Memory → Left → Prop
  | expand (hn : tid < g.noOfNodes) (hmask : m (.mask tid) ≠ 0) :
    Bfs1Trans g tid m .entry (Function.update m (.mask tid) 0)
      (.edges (List.range' (g.nodes tid).starting (g.nodes tid).noOfEdges))
  | skip (hout : ¬(tid < g.noOfNodes ∧ m (.mask tid) ≠ 0)) :
    Bfs1Trans g tid m .entry m (.edges [])
  | follow (i : Nat) (is : List Nat) :
    Bfs1Trans g tid m (.edges (i :: is)) (visitEdge g tid m i) (.edges is)

private theorem bfs1Trans_of_step {l l' : Left} (h : bfs1Step g tid m l = some (m', l')) :
    Bfs1Trans g tid m l m' l' := by
  cases l with
  | entry =>
    rw [bfs1Step] at h
    split at h
    · next hin =>
      cases h
      exact .expand hin.1 hin.2
    · next hout =>
      cases h
      exact .skip hout
  | edges is =>
    cases is with
    | nil => cases h
    | cons i is =>
      cases h
      exact .follow i is

private theorem runs_bfs1Step {l l' : Left} (h : bfs1Step g tid m l = some (m', l')) :
    Runs m (bfs1Prog g tid l) m' (bfs1Prog g tid l') := by
  cases bfs1Trans_of_step h with
  | expand hn hmask =>
    rw [bfs1Prog, bfs1, if_pos hn, Bfs.expand, WorkItems.load_bind]
    apply Runs.get
    rw [if_pos hmask]
    exact .put .refl
  | skip hout =>
    rw [bfs1Prog, bfs1]
    split
    · next hn =>
      rw [Bfs.expand, WorkItems.load_bind]
      apply Runs.get
      rw [if_neg fun hmask ↦ hout ⟨hn, hmask⟩]
      exact .refl
    · exact .refl
  | follow i is => exact (runs_followEdge g tid i m).bind fun _ ↦ is.forM (followEdge g tid)

/-- What is left of an item of the second kernel. -/
def bfs2Prog (g : Graph) (tid : Nat) : Bool → Prog Place Int Unit
  | false => bfs2 g tid
  | true => .ret ()

private theorem runs_bfs2Step {b b' : Bool} (h : bfs2Step g tid m b = some (m', b')) :
    Runs m (bfs2Prog g tid b) m' (bfs2Prog g tid b') := by
  cases b with
  | true => cases h
  | false =>
    obtain ⟨rfl, rfl⟩ := Prod.mk.inj (Option.some.inj h)
    split
    · next hn => exact runs_markNode hn m
    · next hout =>
      rw [bfs2Prog, bfs2, if_neg hout]
      exact .refl

/-- The large steps are small ones in a row. -/
theorem AtomicTurn.turn (h : AtomicTurn g S m m') : Turn g S m m' := by
  obtain ⟨m₁, h₁, h₂⟩ := h
  refine ⟨m₁, ?_, ?_⟩
  · apply h₁.of_runs (fun tid : Fin S ↦ bfs1Prog g tid)
    · exact fun _ _ _ _ _ ↦ runs_bfs1Step
    · intro tid m l hend
      cases l with
      | entry =>
        rw [bfs1Step] at hend
        split at hend
        · cases hend
        · cases hend
      | edges is =>
        cases is with
        | nil => rfl
        | cons i is => cases hend
  · apply h₂.of_runs (fun tid : Fin S ↦ bfs2Prog g tid)
    · exact fun _ _ _ _ _ ↦ runs_bfs2Step
    · intro tid m b hend
      cases b with
      | true => rfl
      | false => cases hend

/-- What an item has left: each edge is a step, and so is its entry. -/
def Left.weight (g : Graph) (tid : Nat) : Left → Nat
  | .entry => (g.nodes tid).noOfEdges + 1
  | .edges is => is.length

private theorem weight_bfs1Step {l l' : Left} (h : bfs1Step g tid m l = some (m', l')) :
    l'.weight g tid < l.weight g tid := by
  cases bfs1Trans_of_step h with
  | expand _ _ => simp [Left.weight]
  | skip _ => simp [Left.weight]
  | follow i is => simp [Left.weight]

private theorem exists_atomicTurn (g : Graph) (S : Nat) (m : Memory) :
    ∃ m', AtomicTurn g S m m' := by
  have hless (tid : Fin S) (m : Memory) (l : Left) (m' : Memory) (l' : Left)
      (h : bfs1Step g tid m l = some (m', l')) : l'.weight g tid < l.weight g tid :=
    weight_bfs1Step h
  have hless' (tid : Fin S) (m : Memory) (b : Bool) (m' : Memory) (b' : Bool)
      (h : bfs2Step g tid m b = some (m', b')) : (!b').toNat < (!b).toNat := by
    cases b with
    | true => cases h
    | false =>
      obtain ⟨_, rfl⟩ := Prod.mk.inj (Option.some.inj h)
      decide
  obtain ⟨m₁, h₁⟩ := AtomicSteps.exists_launch _ hless (fun _ ↦ .entry)
    (Function.update m .gOver 0)
  obtain ⟨m₂, h₂⟩ := AtomicSteps.exists_launch _ hless' (fun _ ↦ false) m₁
  exact ⟨m₂, m₁, h₁, h₂⟩

/-- From every reachable memory and on every grid with an item for every node, the kernels leave
one memory, which is what one turn of the CPU leaves: in every order of single loads and stores,
and so in every order of the larger steps. -/
theorem rounds_eq_cpuTurn (hS : g.noOfNodes ≤ S) (h : Reachable g m) (m' : Memory) :
    (Turn g S m m' ↔ m' = cpuTurn g m) ∧ (AtomicTurn g S m m' ↔ m' = cpuTurn g m) := by
  refine ⟨h.turn_iff hS, ?_, ?_⟩
  · exact fun hturn ↦ (h.turn_iff hS).mp hturn.turn
  · rintro rfl
    obtain ⟨m', hturn⟩ := exists_atomicTurn g S m
    rwa [← (h.turn_iff hS).mp hturn.turn]

/-- After the first turn on the diamond the nodes 1 and 2 are in the mask, which share the
neighbour 3; there is an item too many. -/
theorem rounds_diamond :
    Turn diamond 6 (cpuTurn diamond start) (cpuTurn diamond (cpuTurn diamond start)) ∧
      AtomicTurn diamond 6 (cpuTurn diamond start)
        (cpuTurn diamond (cpuTurn diamond start)) := by
  have hstart : Reachable diamond start := .start diamond.pos
  have hnodes : diamond.noOfNodes ≤ 6 := by decide
  have hturn : Reachable diamond (cpuTurn diamond start) :=
    hstart.turn hnodes ((hstart.turn_iff hnodes).mpr rfl)
  have h := rounds_eq_cpuTurn hnodes hturn (cpuTurn diamond (cpuTurn diamond start))
  exact ⟨h.1.mpr rfl, h.2.mpr rfl⟩

end QHGPU.Bfs
