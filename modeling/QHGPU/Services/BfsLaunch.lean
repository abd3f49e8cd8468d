import QHGPU.Services.BfsEncoding

/-!
# A request of the search

`bfs_launch`, `src/test_module/bfs/lib/libsrv_bfs.c:136–247`: the arrays it allocates, and the
copy of the costs into the data of the request.
-/

namespace QHGPU.Bfs

open WordStream (flat readPairs)

/-! ### Checked accesses -/

/-- A store to an array; `none` behind its end. -/
def storeAt {α : Type} (a : List α) (i : Nat) (v : α) : Option (List α) :=
  if i < a.length then some (a.set i v) else none

/-- `memcpy` of so many words; `none` when it reads or writes behind the end of an array. -/
def memcpy {α : Type} (dst src : List α) (size : Nat) : Option (List α) :=
  if size ≤ src.length ∧ size ≤ dst.length then some (src.take size ++ dst.drop size) else none

/-! ### The launch -/

/-- The arrays that `run_bfs_gpu` gets, `src/test_module/bfs/lib/libsrv_bfs.c:222`. -/
structure Host where
  nodes : List (Int × Int)
  edges : List Int
  mask : List Bool
  updatingMask : List Bool
  visited : List Bool
  cost : List Int

/-- The arrays of `bfs_launch` before the search, each as long as its `malloc`,
`src/test_module/bfs/lib/libsrv_bfs.c:169–220`: `no_of_nodes` nodes, mask entries and costs, and
`edge_list_size` edges. The source is 0. -/
def hostArrays (p : Parsed) : Option Host := do
  let noOfNodes := p.nodes.length
  let mask ← storeAt (List.replicate noOfNodes false) 0 true
  let visited ← storeAt (List.replicate noOfNodes false) 0 true
  let cost ← storeAt (List.replicate noOfNodes (-1)) 0 0
  return {
    nodes := p.nodes
    edges := p.edges
    mask := mask
    updatingMask := List.replicate noOfNodes false
    visited := visited
    cost := cost }

/-- `bfs_launch`, `src/test_module/bfs/lib/libsrv_bfs.c:129–247`: the costs, and the data of the
request on return. `runBfsGpu` is what the search stores into each entry of `h_cost`. -/
def bfsLaunch (runBfsGpu : Host → Nat → Int) (mmapData : List Word) (mmapSize : Nat) :
    Option (List Int × List Word) := do
  let p ← parse mmapData
  let h ← hostArrays p
  let cost := (List.range h.cost.length).map (runBfsGpu h)
  let mmapData ← memcpy mmapData (cost.map (BitVec.ofInt 32)) mmapSize
  return (cost, mmapData)

/-- All accesses are inside the arrays, and on return the data begin with the costs of the
search. -/
def ReturnsCosts (runBfsGpu : Host → Nat → Int) (mmapData : List Word) (mmapSize : Nat) : Prop :=
  ∃ cost mmapData', bfsLaunch runBfsGpu mmapData mmapSize = some (cost, mmapData') ∧
    mmapData'.take cost.length = cost.map (BitVec.ofInt 32)

variable {mat : Nat → Word} {n : Nat} {words : List Word} {runBfsGpu : Host → Nat → Int}

/-! ### Up to the copy -/

private theorem length_storeAt {α : Type} {a a' : List α} {i : Nat} {v : α}
    (h : storeAt a i v = some a') : a'.length = a.length := by
  rw [storeAt, Option.ite_none_right_eq_some] at h
  obtain ⟨_, h⟩ := h
  obtain rfl := Option.some.inj h
  exact List.length_set

private theorem storeAt_replicate {α : Type} (hn : 0 < n) (a v : α) :
    storeAt (List.replicate n a) 0 v = some ((List.replicate n a).set 0 v) := by
  rw [storeAt, if_pos]
  rwa [List.length_replicate]

private theorem length_cost {p : Parsed} {h : Host} (hhost : hostArrays p = some h) :
    h.cost.length = p.nodes.length := by
  simp only [hostArrays, Option.bind_eq_bind, Option.bind_eq_some_iff, Option.pure_def] at hhost
  obtain ⟨mask, _, visited, _, cost, hcost, hh⟩ := hhost
  obtain rfl := Option.some.inj hh
  rw [length_storeAt hcost, List.length_replicate]

private theorem exists_hostArrays {p : Parsed} (hpos : 0 < p.nodes.length) :
    ∃ h, hostArrays p = some h := by
  simp only [hostArrays, storeAt_replicate hpos, Option.bind_eq_bind, Option.bind_some]
  exact ⟨_, rfl⟩

/-- Everything up to the copy is in range, for a graph that has a node. -/
theorem bfsLaunch_eq_memcpy (hpos : 0 < n) (h : convertToExd mat n = .ok words)
    (hint : words.length < 2 ^ 31) (rest : List Word) (mmapSize : Nat) :
    ∃ cost : List Int, cost.length = n ∧ bfsLaunch runBfsGpu (words ++ rest) mmapSize =
      (memcpy (words ++ rest) (cost.map (BitVec.ofInt 32)) mmapSize).map fun w ↦ (cost, w) := by
  obtain ⟨_, rfl⟩ := convertToExd_eq_ok_iff.mp h
  rw [List.length_append, length_header, WordStream.length_flat, length_edges] at hint
  have hparse := parse_eq mat (n := n) (by omega) (by omega) rest
  generalize hp : Parsed.mk _ _ _ _ _ = p at hparse
  have hnodes : p.nodes.length = n := by
    rw [← hp, List.length_map, List.length_map, List.length_range]
  obtain ⟨host, hhost⟩ := exists_hostArrays (p := p) (by omega)
  refine ⟨(List.range host.cost.length).map (runBfsGpu host), ?_, ?_⟩
  · rw [List.length_map, List.length_range, length_cost hhost, hnodes]
  · rw [bfsLaunch, hparse]
    simp only [Option.bind_eq_bind, Option.bind_some, hhost]
    exact Option.map_eq_bind.symm

/-! ### The copy -/

/-- The reader finds no more nodes than the first word says. -/
theorem length_nodes {p : Parsed} (hp : parse words = some p) :
    p.nodes.length = p.noOfNodes.toNat ∧ ∃ word, words[0]? = some word ∧
      p.noOfNodes = word.toInt := by
  simp only [parse, Option.bind_eq_bind, Option.bind_eq_some_iff, Option.pure_def] at hp
  obtain ⟨word, hword, nodes, hnodes, _, _, _, _, _, _, hp⟩ := hp
  obtain rfl := Option.some.inj hp
  exact ⟨(List.length_map _).trans (WordStream.length_of_readPairs hnodes), word, hword, rfl⟩

/-- The copy takes as many words of `h_cost` as the request has, and these are more than there are
nodes: no request that was encoded is handled inside its arrays. -/
theorem not_returnsCosts (h : convertToExd mat n = .ok words) (rest : List Word)
    (runBfsGpu : Host → Nat → Int) : ¬ReturnsCosts runBfsGpu (words ++ rest) words.length := by
  rintro ⟨cost, mmapData, hlaunch, _⟩
  obtain ⟨_, rfl⟩ := convertToExd_eq_ok_iff.mp h
  simp only [bfsLaunch, Option.bind_eq_bind, Option.bind_eq_some_iff, Option.pure_def] at hlaunch
  obtain ⟨p, hp, host, hhost, words, hcopy, _⟩ := hlaunch
  rw [memcpy, Option.ite_none_right_eq_some] at hcopy
  obtain ⟨⟨hsize, _⟩, _⟩ := hcopy
  obtain ⟨hlength, word, hword, hnodes⟩ := length_nodes hp
  obtain rfl : BitVec.ofNat 32 n = word := Option.some.inj hword
  have hle : (BitVec.ofNat 32 n).toInt ≤ n := by
    rw [BitVec.toInt_eq_toNat_cond, BitVec.toNat_ofNat]
    have := Nat.mod_le n (2 ^ 32)
    split <;> omega
  rw [List.length_append, length_header, List.length_map, List.length_map, List.length_range,
    length_cost hhost, hlength, hnodes] at hsize
  omega

/-- The matrix of four nodes with the edge 0 → 1 of cost 5. -/
def oneEdge (idx : Nat) : Word := if idx = 1 then 5 else 0

/-- The request that the module makes of `oneEdge`. -/
def oneEdgeWords : List Word := [4, 0, 1, 1, 0, 1, 0, 1, 0, 0, 1, 1, 5]

/-- The costs of the search in `oneEdge`. -/
def oneEdgeCost (_ : Host) (v : Nat) : Int := [0, 1].getD v (-1)

/-- Four nodes and one edge: thirteen words are copied from an array of four. -/
theorem not_returnsCosts_edge : ¬∀ (runBfsGpu : Host → Nat → Int) (mat : Nat → Word) (n : Nat)
    (words rest : List Word), convertToExd mat n = .ok words →
      ReturnsCosts runBfsGpu (words ++ rest) words.length := by
  intro hall
  obtain ⟨_, _, hlaunch, _⟩ := hall oneEdgeCost oneEdge 4 oneEdgeWords [7, 7, 7] rfl
  have hnone : bfsLaunch oneEdgeCost (oneEdgeWords ++ [7, 7, 7]) 13 = none := by decide
  cases hnone.symm.trans hlaunch

/-- The same request, with three words behind it. -/
theorem not_returnsCosts_oneEdge :
    ¬ReturnsCosts oneEdgeCost (oneEdgeWords ++ [7, 7, 7]) oneEdgeWords.length := by
  have h : convertToExd oneEdge 4 = .ok oneEdgeWords := rfl
  exact not_returnsCosts h [7, 7, 7] oneEdgeCost

end QHGPU.Bfs
