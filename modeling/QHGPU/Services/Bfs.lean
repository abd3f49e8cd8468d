import QHGPU.Base.OpenCL
import QHGPU.Library.WorkItems

/-!
# Breadth-first search

The kernels `src/kernel/bfs_kernels.cl`, the host code of the service,
`src/test_module/bfs/lib/`, and `run_bfs_cpu` of `src/test_module/bfs/bfs_module.c`.
-/

namespace QHGPU.Bfs

open WorkItems (Prog Launch Stays load store)

/-! ### Graphs -/

/-- `Node`, `src/test_module/bfs/lib/libsrv_bfs.c:26–29`. -/
structure Node where
  starting : Nat
  noOfEdges : Nat
  deriving DecidableEq, Repr

/-- A graph in compressed rows: the edges of every node are in the list, and their targets are
nodes. -/
structure Graph where
  noOfNodes : Nat
  nodes : Nat → Node
  edgeListSize : Nat
  edges : Nat → Nat
  pos : 0 < noOfNodes
  range : ∀ v < noOfNodes, (nodes v).starting + (nodes v).noOfEdges ≤ edgeListSize
  target : ∀ i < edgeListSize, edges i < noOfNodes

/-- An entry of the arrays, or the flag: `stop` of the host, `*g_over` of the device. -/
inductive Place where
  | mask (v : Nat)
  | updating (v : Nat)
  | visited (v : Nat)
  | cost (v : Nat)
  | gOver
  deriving DecidableEq, Repr

/-- The arrays; `false` is 0 and `true` is 1. -/
abbrev Memory := Place → Int

/-- Only the source is in the mask and visited. A `bool` of the host takes four bytes and one of
the device a single byte, which is the same array when only entry 0 is set. -/
def startFrom (source : Nat) : Memory
  | .mask v | .visited v => if v = source then 1 else 0
  | .cost v => if v = source then 0 else -1
  | .updating _ | .gOver => 0

/-- What `bfs_launch` and the module start from, `src/test_module/bfs/lib/libsrv_bfs.c:189–220`:
the source of the request is replaced by 0. -/
def start : Memory := startFrom 0

/-- The targets of a node. -/
def Graph.Edge (g : Graph) (u v : Nat) : Prop :=
  u < g.noOfNodes ∧ ∃ i ∈ List.range' (g.nodes u).starting (g.nodes u).noOfEdges, g.edges i = v

/-- The edges 0 → 1 → 3 and 0 → 2 → 3, and a node 4 that only has an edge to 0. -/
def diamond : Graph where
  noOfNodes := 5
  nodes v := [⟨0, 2⟩, ⟨2, 1⟩, ⟨3, 1⟩, ⟨4, 0⟩, ⟨4, 1⟩].getD v ⟨5, 0⟩
  edgeListSize := 5
  edges i := [1, 2, 3, 3, 0].getD i 0
  pos := by decide
  range := by decide
  target := by decide

variable (g : Graph)

/-! ### Kernels -/

/-- The body of `BFS_1` for a node, `src/kernel/bfs_kernels.cl:16–25`, and of the first loop of
`run_bfs_cpu`, `src/test_module/bfs/bfs_module.c:154–164`. -/
def expand (tid : Nat) : Prog Place Int Unit := do
  let inMask ← load (.mask tid)
  if inMask ≠ 0 then
    store (.mask tid) 0
    (List.range' (g.nodes tid).starting (g.nodes tid).noOfEdges).forM fun i ↦ do
      let id := g.edges i
      let seen ← load (.visited id)
      if seen = 0 then
        let cost ← load (.cost tid)
        store (.cost id) (cost + 1)
        store (.updating id) 1

/-- The body of `BFS_2`, `src/kernel/bfs_kernels.cl:33–39`, and of the second loop,
`src/test_module/bfs/bfs_module.c:168–173`. -/
def mark (tid : Nat) : Prog Place Int Unit := do
  let updating ← load (.updating tid)
  if updating ≠ 0 then
    store (.mask tid) 1
    store (.visited tid) 1
    store .gOver 1
    store (.updating tid) 0

/-- `BFS_1`, `src/kernel/bfs_kernels.cl:14–27`. -/
def bfs1 (tid : Nat) : Prog Place Int Unit := if tid < g.noOfNodes then expand g tid else pure ()

/-- `BFS_2`, `src/kernel/bfs_kernels.cl:30–40`. -/
def bfs2 (tid : Nat) : Prog Place Int Unit := if tid < g.noOfNodes then mark tid else pure ()

/-! ### The device -/

/-- `global_work_size` and `local_work_size` of `_clInvokeKernel`,
`src/test_module/bfs/lib/cl_bfs.c:275–292`, which does not use `work_items`. -/
def globalWorkSize : Nat := 1024

def localWorkSize : Nat := 128

/-- The groups. -/
def workGroup {S : Nat} (tid : Fin S) : Nat := tid / localWorkSize

/-- The entries of the buffers. -/
def InBuffers : Place → Prop
  | .mask v | .updating v | .visited v | .cost v => v < g.noOfNodes
  | .gOver => True

/-- One turn of the loop of `run_bfs_gpu`, `src/test_module/bfs/lib/libsrv_bfs.c:84–115`: it
clears the flag and runs the two kernels. -/
def Turn (S : Nat) (m m' : Memory) : Prop :=
  ∃ m₁, Launch workGroup (fun tid : Fin S ↦ bfs1 g tid) (Function.update m .gOver 0) m₁ ∧
    Launch workGroup (fun tid : Fin S ↦ bfs2 g tid) m₁ m'

/-- The kernels of a turn are launched, stay in the buffers and end. -/
structure TurnRuns (S : Nat) (m : Memory) : Prop where
  accepted : rangeAccepted S localWorkSize = true
  stays : Stays workGroup (fun tid : Fin S ↦ bfs1 g tid) (Function.update m .gOver 0) (InBuffers g)
  stays' : ∀ m₁, Launch workGroup (fun tid : Fin S ↦ bfs1 g tid) (Function.update m .gOver 0) m₁ →
    Stays workGroup (fun tid : Fin S ↦ bfs2 g tid) m₁ (InBuffers g)
  ends : ∃ m', Turn g S m m'

/-- `run_bfs_gpu`, `src/test_module/bfs/lib/libsrv_bfs.c:31–122`, from the memory `m`: the loop
ends, in every order of the steps of the kernels, and `post` holds of what it leaves. -/
inductive RunBfsGpu (post : Memory → Prop) : Memory → Prop
  | turn {m} (runs : TurnRuns g globalWorkSize m)
      (stop : ∀ m', Turn g globalWorkSize m m' → m' .gOver = 0 → post m')
      (next : ∀ m', Turn g globalWorkSize m m' → m' .gOver ≠ 0 → RunBfsGpu post m') :
      RunBfsGpu post m

/-! ### The CPU -/

/-- The edges of a node in `run_bfs_cpu`, `src/test_module/bfs/bfs_module.c:156–163`. -/
def visitEdge (tid : Nat) (m : Memory) (i : Nat) : Memory :=
  let id := g.edges i
  if m (.visited id) = 0 then
    Function.update (Function.update m (.cost id) (m (.cost tid) + 1)) (.updating id) 1
  else m

/-- The first loop, for one node, `src/test_module/bfs/bfs_module.c:153–165`. -/
def visitNode (m : Memory) (tid : Nat) : Memory :=
  if m (.mask tid) ≠ 0 then
    (List.range' (g.nodes tid).starting (g.nodes tid).noOfEdges).foldl (visitEdge g tid)
      (Function.update m (.mask tid) 0)
  else m

/-- The second loop, for one node, `src/test_module/bfs/bfs_module.c:167–174`. -/
def markNode (m : Memory) (tid : Nat) : Memory :=
  if m (.updating tid) ≠ 0 then
    Function.update (Function.update (Function.update (Function.update m (.mask tid) 1)
      (.visited tid) 1) .gOver 1) (.updating tid) 0
  else m

/-- One turn of the loop of `run_bfs_cpu`, `src/test_module/bfs/bfs_module.c:152–175`. -/
def cpuTurn (m : Memory) : Memory :=
  let m := Function.update m .gOver 0
  let m := (List.range g.noOfNodes).foldl (visitNode g) m
  (List.range g.noOfNodes).foldl markNode m

/-- `run_bfs_cpu`, `src/test_module/bfs/bfs_module.c:146–177`, for so many turns at most. -/
def runBfsCpu : Nat → Memory → Option Memory
  | 0, _ => none
  | fuel + 1, m =>
    let m := cpuTurn g m
    if m .gOver ≠ 0 then runBfsCpu fuel m else some m

/-- Both searches end, with the same costs. -/
def Agree : Prop :=
  ∃ fuel m, runBfsCpu g fuel start = some m ∧
    RunBfsGpu g (fun m' ↦ ∀ v < g.noOfNodes, m' (.cost v) = m (.cost v)) start

end QHGPU.Bfs
