import Mathlib.Algebra.Order.BigOperators.Group.Finset
import QHGPU.Library.WordStream

/-!
# The encoded graph

`convert_to_exd`, `src/test_module/bfs/bfs_module.c:74–124`, which writes an adjacency matrix as
a graph into the data of the request, and how `bfs_launch`,
`src/test_module/bfs/lib/libsrv_bfs.c:150–198`, reads it.
-/

namespace QHGPU.Bfs

open WordStream (flat readPairs push)

/-- `unsigned int`. -/
abbrev Word := BitVec 32

/-! ### The writer -/

/-- The index `i * mat_size + j`, computed in `unsigned int`,
`src/test_module/bfs/bfs_module.c:88`. -/
def matIndex (matSize i j : Nat) : Nat := (i * matSize + j) % 2 ^ 32

/-- `count`, after the first inner loop, `src/test_module/bfs/bfs_module.c:86–91`. -/
def countRow (mat : Nat → Word) (matSize i : Nat) : Nat :=
  (List.range matSize).foldl
    (fun count j ↦ if mat (matIndex matSize i j) ≠ 0 then count + 1 else count) 0

/-- One turn of the first loop, on the words stored so far and `sum`,
`src/test_module/bfs/bfs_module.c:85–99`. Every store is at `data_index`, which is the number of
these words. -/
def writeNode (mat : Nat → Word) (matSize : Nat) (s : List Word × Nat) (i : Nat) :
    List Word × Nat :=
  let count := countRow mat matSize i
  (s.1 ++ [BitVec.ofNat 32 s.2, BitVec.ofNat 32 count], s.2 + count)

/-- `mat_size * mat_size - 1`, computed in `unsigned int`, `src/test_module/bfs/bfs_module.c:115`.
-/
def sizeLimit (matSize : Nat) : Nat := (matSize * matSize + (2 ^ 32 - 1)) % 2 ^ 32

/-- One turn of the last inner loop, `src/test_module/bfs/bfs_module.c:108–119`. -/
def writeEdge (mat : Nat → Word) (matSize i : Nat) (words : List Word) (j : Nat) :
    Except (List Word) (List Word) :=
  if mat (matIndex matSize i j) ≠ 0 then
    push (sizeLimit matSize) words (BitVec.ofNat 32 j, mat (matIndex matSize i j))
  else pure words

/-- `convert_to_exd`, `src/test_module/bfs/bfs_module.c:74–124`: the words it has stored when it
returns their number, or, as an error, when it returns -1. -/
def convertToExd (mat : Nat → Word) (matSize : Nat) : Except (List Word) (List Word) :=
  let s := (List.range matSize).foldl (writeNode mat matSize) ([BitVec.ofNat 32 matSize], 0)
  let words := s.1 ++ [0, BitVec.ofNat 32 s.2]
  (List.range matSize).foldlM
    (fun words i ↦ (List.range matSize).foldlM (writeEdge mat matSize i) words) words

/-! ### The reader -/

/-- What `bfs_launch` reads: `starting` and `no_of_edges` of each node, the targets of the edges,
and `data_index` after the last word. -/
structure Parsed where
  noOfNodes : Int
  nodes : List (Int × Int)
  edgeListSize : Int
  edges : List Int
  index : Nat

/-- What `bfs_launch` reads from its data, `src/test_module/bfs/lib/libsrv_bfs.c:150–209`, without
the arrays that do not come from the words. The source and the costs of the edges are read and not
used. -/
def parse (words : List Word) : Option Parsed := do
  let noOfNodes ← words[0]?
  let nodes ← readPairs words noOfNodes.toInt.toNat 1
  let _source ← words[nodes.2]?
  let edgeListSize ← words[nodes.2 + 1]?
  let edges ← readPairs words edgeListSize.toInt.toNat (nodes.2 + 2)
  return {
    noOfNodes := noOfNodes.toInt
    nodes := nodes.1.map fun p ↦ (p.1.toInt, p.2.toInt)
    edgeListSize := edgeListSize.toInt
    edges := edges.1.map fun p ↦ p.1.toInt
    index := edges.2 }

/-! ### What is written -/

variable {mat : Nat → Word} {n i j k : Nat} {words : List Word}

/-- The columns with an entry, as the code indexes the matrix. -/
def readColumns (mat : Nat → Word) (n i : Nat) : List Nat :=
  (List.range n).filter fun j ↦ mat (matIndex n i j) ≠ 0

/-- The entries that the code finds in the rows below `i`. -/
def readBelow (mat : Nat → Word) (n i : Nat) : Nat :=
  ∑ r ∈ Finset.range i, (readColumns mat n r).length

/-- The words of a node. -/
def nodePair (mat : Nat → Word) (n i : Nat) : Word × Word :=
  (BitVec.ofNat 32 (readBelow mat n i), BitVec.ofNat 32 (readColumns mat n i).length)

/-- The words of the edges of a node. -/
def edgePairs (mat : Nat → Word) (n i : Nat) : List (Word × Word) :=
  (readColumns mat n i).map fun j ↦ (BitVec.ofNat 32 j, mat (matIndex n i j))

/-- The words up to the edges. -/
def header (mat : Nat → Word) (n : Nat) : List Word :=
  [BitVec.ofNat 32 n] ++ flat ((List.range n).map (nodePair mat n)) ++
    [0, BitVec.ofNat 32 (readBelow mat n n)]

private theorem foldl_count (p : Nat → Prop) [DecidablePred p] (xs : List Nat) (c : Nat) :
    xs.foldl (fun count j ↦ if p j then count + 1 else count) c =
      c + (xs.filter fun j ↦ p j).length := by
  induction xs generalizing c with
  | nil => rfl
  | cons x xs ih =>
    rw [List.foldl_cons, ih, List.filter_cons]
    by_cases hx : p x
    · simp only [hx, if_true, decide_true, List.length_cons]
      omega
    · simp [hx]

private theorem countRow_eq (mat : Nat → Word) (n i : Nat) :
    countRow mat n i = (readColumns mat n i).length := by
  rw [countRow, foldl_count, Nat.zero_add]
  rfl

private theorem foldl_writeNode (mat : Nat → Word) (n k : Nat) (words : List Word) :
    (List.range k).foldl (writeNode mat n) (words, 0) =
      (words ++ flat ((List.range k).map (nodePair mat n)), readBelow mat n k) := by
  induction k with
  | zero => simp [readBelow]
  | succ k ih =>
    rw [List.range_succ, List.foldl_append, ih, List.foldl_cons, List.foldl_nil, writeNode,
      countRow_eq, List.map_append, WordStream.flat_append, readBelow, readBelow,
      Finset.sum_range_succ, List.append_assoc]
    rfl

private theorem foldlM_writeEdge (mat : Nat → Word) (n i : Nat) (words : List Word) :
    (List.range n).foldlM (writeEdge mat n i) words =
      (edgePairs mat n i).foldlM (push (sizeLimit n)) words := by
  rw [edgePairs, List.foldlM_map, readColumns, List.foldlM_filter]
  simp only [decide_eq_true_eq]
  rfl

private theorem foldlM_flatMap {f : Nat → List (Word × Word)}
    {g : List Word → Word × Word → Except (List Word) (List Word)} (xs : List Nat)
    (words : List Word) :
    xs.foldlM (fun words x ↦ (f x).foldlM g words) words = (xs.flatMap f).foldlM g words := by
  induction xs generalizing words with
  | nil => rfl
  | cons x xs ih => simp only [List.foldlM_cons, List.flatMap_cons, List.foldlM_append, ih]

/-- The words up to the edges are always stored, and then the pairs of the edges, as long as
they fit. -/
theorem convertToExd_eq (mat : Nat → Word) (n : Nat) : convertToExd mat n =
    ((List.range n).flatMap (edgePairs mat n)).foldlM (push (sizeLimit n)) (header mat n) := by
  rw [convertToExd, foldl_writeNode]
  simp only [foldlM_writeEdge, foldlM_flatMap]
  rfl

/-- A word for the number of nodes, two for each node, and two more. -/
theorem length_header (mat : Nat → Word) (n : Nat) : (header mat n).length = 2 * n + 3 := by
  simp only [header, List.length_append, List.length_cons, List.length_nil,
    WordStream.length_flat, List.length_map, List.length_range]
  omega

private theorem length_flatMap_range {α : Type} (f : Nat → List α) (n : Nat) :
    ((List.range n).flatMap f).length = ∑ i ∈ Finset.range n, (f i).length := by
  induction n with
  | zero => rfl
  | succ n ih =>
    rw [List.range_succ, List.flatMap_append, List.length_append, ih, Finset.sum_range_succ,
      List.flatMap_singleton]

/-- A pair for each entry in the first `k` rows. -/
theorem length_edges (mat : Nat → Word) (n k : Nat) :
    ((List.range k).flatMap (edgePairs mat n)).length = readBelow mat n k := by
  rw [length_flatMap_range, readBelow]
  simp only [edgePairs, List.length_map]

/-- What is returned: the words, when there are no edges or all pairs fit. -/
theorem convertToExd_eq_ok_iff : convertToExd mat n = .ok words ↔
    (readBelow mat n n = 0 ∨ 2 * n + 3 + 2 * readBelow mat n n ≤ sizeLimit n) ∧
      words = header mat n ++ flat ((List.range n).flatMap (edgePairs mat n)) := by
  rw [convertToExd_eq, WordStream.foldlM_push_eq_ok_iff, ← List.length_eq_zero_iff, length_edges,
    length_header]

/-! ### What is read -/

/-- The columns with an entry, in ascending order. -/
def columns (mat : Nat → Word) (n i : Nat) : List Nat :=
  (List.range n).filter fun j ↦ mat (i * n + j) ≠ 0

/-- The number of entries in the rows below `i`. -/
def entriesBelow (mat : Nat → Word) (n i : Nat) : Nat :=
  ∑ r ∈ Finset.range i, (columns mat n r).length

private theorem matIndex_eq (hn : n * n ≤ 2 ^ 32) (hi : i < n) (hj : j < n) :
    matIndex n i j = i * n + j := by
  have hrow : (i + 1) * n ≤ n * n := Nat.mul_le_mul_right n hi
  rw [Nat.add_mul] at hrow
  exact Nat.mod_eq_of_lt (by omega)

private theorem readColumns_eq (hn : n * n ≤ 2 ^ 32) (hi : i < n) :
    readColumns mat n i = columns mat n i := by
  apply List.filter_congr
  intro j hj
  rw [matIndex_eq hn hi (List.mem_range.mp hj)]

private theorem readBelow_eq (hn : n * n ≤ 2 ^ 32) (hi : i ≤ n) :
    readBelow mat n i = entriesBelow mat n i := by
  apply Finset.sum_congr rfl
  intro r hr
  rw [readColumns_eq hn ((Finset.mem_range.mp hr).trans_le hi)]

/-- Reading from the words brings back `n`, for each node the number of the entries before its
own and the number of its own, and its columns in its part of the edges. -/
structure Recovers (mat : Nat → Word) (n : Nat) (p : Parsed) : Prop where
  noOfNodes : p.noOfNodes = n
  length_nodes : p.nodes.length = n
  node : ∀ i < n, p.nodes[i]? =
    some ((entriesBelow mat n i : Int), ((columns mat n i).length : Int))
  edgeListSize : p.edgeListSize = entriesBelow mat n n
  length_edges : p.edges.length = entriesBelow mat n n
  slice : ∀ i < n, (p.edges.drop (entriesBelow mat n i)).take (columns mat n i).length =
    (columns mat n i).map Nat.cast

private theorem toInt_ofNat (h : k < 2 ^ 31) : (BitVec.ofNat 32 k).toInt = k := by
  rw [BitVec.toInt_eq_toNat_cond, BitVec.toNat_ofNat, Nat.mod_eq_of_lt (by omega),
    if_pos (by omega)]

/-- A part of some lists in a row. -/
theorem take_drop_flatMap {α : Type} (f : Nat → List α) (hi : i < n) :
    (((List.range n).flatMap f).drop (∑ r ∈ Finset.range i, (f r).length)).take (f i).length =
      f i := by
  obtain ⟨d, rfl⟩ : ∃ d, n = i + (1 + d) := ⟨n - (i + 1), by omega⟩
  rw [List.range_add, List.flatMap_append, ← length_flatMap_range, List.drop_left, Nat.add_comm 1 d,
    List.range_succ_eq_map, List.map_cons, List.flatMap_cons, Nat.add_zero, List.take_left]

/-- The parts of the words that `convert_to_exd` has stored, read by `bfs_launch`. -/
theorem parse_eq (mat : Nat → Word) (hn : n < 2 ^ 31) (hedges : readBelow mat n n < 2 ^ 31)
    (rest : List Word) :
    parse (header mat n ++ flat ((List.range n).flatMap (edgePairs mat n)) ++ rest) = some {
      noOfNodes := n
      nodes := ((List.range n).map (nodePair mat n)).map fun p ↦ (p.1.toInt, p.2.toInt)
      edgeListSize := readBelow mat n n
      edges := ((List.range n).flatMap (edgePairs mat n)).map fun p ↦ p.1.toInt
      index := 2 * n + 3 + 2 * readBelow mat n n } := by
  generalize hpairs : (List.range n).flatMap (edgePairs mat n) = pairs
  have hlength : pairs.length = readBelow mat n n := hpairs ▸ length_edges mat n n
  generalize hnodes : (List.range n).map (nodePair mat n) = nodes
  have hlength' : nodes.length = n := by rw [← hnodes, List.length_map, List.length_range]
  generalize htotal : BitVec.ofNat 32 (readBelow mat n n) = total
  generalize hfirst : BitVec.ofNat 32 n = first
  have hfirst' : first.toInt = n := by rw [← hfirst, toInt_ofNat hn]
  have htotal' : total.toInt = readBelow mat n n := by rw [← htotal, toInt_ofNat hedges]
  -- the words as the reader meets them
  have hwords : header mat n ++ flat pairs ++ rest =
      [first] ++ flat nodes ++ ([0, total] ++ flat pairs ++ rest) := by
    simp only [header, hnodes, hfirst, htotal, List.append_assoc]
  have hwords' : header mat n ++ flat pairs ++ rest =
      ([first] ++ flat nodes ++ [0, total]) ++ flat pairs ++ rest := by
    simp only [header, hnodes, hfirst, htotal]
  have hread : readPairs (header mat n ++ flat pairs ++ rest) n 1 = some (nodes, 1 + 2 * n) := by
    rw [hwords]
    have := WordStream.readPairs_flat [first] nodes ([0, total] ++ flat pairs ++ rest)
    rwa [hlength'] at this
  have hread' : readPairs (header mat n ++ flat pairs ++ rest) (readBelow mat n n)
      (1 + 2 * n + 2) = some (pairs, 2 * n + 3 + 2 * readBelow mat n n) := by
    rw [hwords']
    have := WordStream.readPairs_flat ([first] ++ flat nodes ++ [0, total]) pairs rest
    rw [hlength] at this
    have hlen : ([first] ++ flat nodes ++ [0, total]).length = 2 * n + 3 := by
      simp only [List.length_append, WordStream.length_flat, hlength', List.length_cons,
        List.length_nil]
      omega
    rw [hlen] at this
    rwa [show 1 + 2 * n + 2 = 2 * n + 3 by omega]
  have hget : (header mat n ++ flat pairs ++ rest)[0]? = some first := by
    rw [hwords]
    rfl
  have hget' (d : Nat) : (header mat n ++ flat pairs ++ rest)[1 + 2 * n + d]? =
      ([0, total] ++ flat pairs ++ rest)[d]? := by
    have hlen : ([first] ++ flat nodes).length = 1 + 2 * n := by
      rw [List.length_append, WordStream.length_flat, hlength', List.length_singleton]
    rw [hwords, ← hlen, List.getElem?_append_right (Nat.le_add_right _ _), Nat.add_sub_cancel_left]
  rw [parse, hget]
  simp only [Option.bind_eq_bind, Option.bind_some, hfirst', Int.toNat_natCast, hread]
  rw [hget' 1, show (1 + 2 * n) = 1 + 2 * n + 0 from rfl, hget' 0]
  simp only [List.cons_append, List.getElem?_cons_zero, List.getElem?_cons_succ,
    Option.bind_some, htotal', Int.toNat_natCast, Nat.add_zero, hread']
  rfl

/-- Round trip: reading the words that were stored, whatever follows them in the data, brings the
graph of the matrix back, and takes as many words as there are. Indices of the matrix are
`unsigned int`, and the number of words is an `int`. -/
theorem parse_convertToExd (hn : n * n ≤ 2 ^ 32) (h : convertToExd mat n = .ok words)
    (hint : words.length < 2 ^ 31) (rest : List Word) :
    ∃ p, parse (words ++ rest) = some p ∧ Recovers mat n p ∧ p.index = words.length := by
  obtain ⟨_, rfl⟩ := convertToExd_eq_ok_iff.mp h
  have hlength : (header mat n ++ flat ((List.range n).flatMap (edgePairs mat n))).length =
      2 * n + 3 + 2 * readBelow mat n n := by
    rw [List.length_append, length_header, WordStream.length_flat, length_edges]
  have hbelow (i : Nat) (hi : i ≤ n) : readBelow mat n i ≤ readBelow mat n n :=
    Finset.sum_le_sum_of_subset (Finset.range_subset_range.mpr hi)
  have hcolumns (i : Nat) : (columns mat n i).length ≤ n :=
    (List.length_filter_le _ _).trans List.length_range.le
  rw [hlength] at hint
  refine ⟨_, parse_eq mat (by omega) (by omega) rest, ?_, hlength.symm⟩
  constructor
  · rfl
  · rw [List.length_map, List.length_map, List.length_range]
  · intro i hi
    have := hbelow i hi.le
    have := hcolumns i
    rw [List.map_map, List.getElem?_map, List.getElem?_range hi, Option.map_some,
      Function.comp_apply, nodePair, readColumns_eq hn hi, toInt_ofNat (by omega),
      toInt_ofNat (by omega), readBelow_eq hn hi.le]
  · exact congrArg Nat.cast (readBelow_eq hn (Nat.le_refl n))
  · rw [List.length_map, length_edges, readBelow_eq hn (Nat.le_refl n)]
  · intro i hi
    have hrow (r : Nat) (hr : r < n) : (edgePairs mat n r).length = (columns mat n r).length := by
      rw [edgePairs, List.length_map, readColumns_eq hn hr]
    have hstart : entriesBelow mat n i = ∑ r ∈ Finset.range i, (edgePairs mat n r).length :=
      Finset.sum_congr rfl fun r hr ↦ (hrow r ((Finset.mem_range.mp hr).trans hi)).symm
    rw [← List.map_drop, ← List.map_take, hstart, ← hrow i hi, take_drop_flatMap _ hi, edgePairs,
      readColumns_eq hn hi, List.map_map]
    apply List.map_congr_left
    intro j hj
    have hj : j < n := List.mem_range.mp (List.mem_filter.mp hj).1
    exact toInt_ofNat (by omega)

/-- Row 65535 of a matrix of 65537 rows: its second index is past `unsigned int`, and the entry
is taken for the first one of the matrix. -/
theorem not_parse_convertToExd_wrapped :
    ¬∀ (mat : Nat → Word) (n : Nat) (words rest : List Word), convertToExd mat n = .ok words →
      ∃ p, parse (words ++ rest) = some p ∧ Recovers mat n p ∧ p.index = words.length := by
  intro hall
  let mat (idx : Nat) : Word := if idx = 2 ^ 32 then 1 else 0
  have hnone (i : Nat) : readColumns mat 65537 i = [] := by
    apply List.filter_eq_nil_iff.mpr
    intro j _
    have hentry : mat (matIndex 65537 i j) = 0 := if_neg (Nat.mod_lt _ (Nat.two_pow_pos 32)).ne
    simp [hentry]
  have hzero : readBelow mat 65537 65537 = 0 := by
    simp only [readBelow, hnone, List.length_nil, Finset.sum_const_zero]
  have hone : 1 ∈ columns mat 65537 65535 :=
    List.mem_filter.mpr ⟨List.mem_range.mpr (by omega), by simp [mat]⟩
  have hok := convertToExd_eq_ok_iff.mpr ⟨Or.inl hzero, rfl⟩
  obtain ⟨p, hp, hrecovers, _⟩ := hall mat 65537 _ [] hok
  rw [parse_eq mat (by omega) (by omega) []] at hp
  have hedges := hrecovers.edgeListSize
  rw [← Option.some.inj hp, hzero] at hedges
  have hsum : entriesBelow mat 65537 65537 = 0 := by
    dsimp only at hedges
    omega
  have hrow := Finset.sum_eq_zero_iff.mp hsum 65535 (Finset.mem_range.mpr (by omega))
  rw [List.length_eq_zero_iff.mp hrow] at hone
  cases hone

/-- Four nodes and one edge, with its weight; other data follow. -/
theorem parse_convertToExd_edge :
    ∃ p, parse ([4, 0, 1, 1, 0, 1, 0, 1, 0, 0, 1, 1, 5] ++ [7, 7, 7]) = some p ∧
      Recovers (fun idx ↦ if idx = 1 then 5 else 0) 4 p ∧ p.index = 13 :=
  parse_convertToExd (by decide) rfl (by decide) [7, 7, 7]

/-! ### Capacity -/

/-- The words that are stored, the first one at index 0. -/
def stored : Except (List Word) (List Word) → List Word
  | .ok words | .error words => words

/-- With a buffer of `n * n` words: no store is behind it, -1 is returned when the words are too
many for it, and otherwise their number. -/
structure RespectsCapacity (mat : Nat → Word) (n : Nat) : Prop where
  inside : (stored (convertToExd mat n)).length ≤ n * n
  error_iff : (∃ words, convertToExd mat n = .error words) ↔
    n * n < 2 * n + 3 + 2 * entriesBelow mat n n
  length : ∀ words, convertToExd mat n = .ok words →
    words.length = 2 * n + 3 + 2 * entriesBelow mat n n

private theorem sizeLimit_eq (hn : 0 < n) (hsize : n * n < 2 ^ 31) : sizeLimit n + 1 = n * n := by
  have hpos : 0 < n * n := Nat.mul_pos hn hn
  rw [sizeLimit]
  omega

/-- When the words reach the capacity, -1 is returned after the first pair that does. -/
theorem convertToExd_eq_error (mat : Nat → Word) (hn : 0 < n) (hsize : n * n < 2 ^ 31)
    (hne : 0 < readBelow mat n n) (h : n * n ≤ 2 * n + 3 + 2 * readBelow mat n n) :
    ∃ k words, convertToExd mat n = .error words ∧ words.length = 2 * n + 3 + 2 * (k + 1) ∧
      n * n ≤ words.length ∧ (k = 0 ∨ 2 * n + 3 + 2 * k < n * n) := by
  have hlimit := sizeLimit_eq hn hsize
  have hpairs := length_edges mat n n
  have hpairs_ne : (List.range n).flatMap (edgePairs mat n) ≠ [] := by
    intro hnil
    rw [hnil, List.length_nil] at hpairs
    omega
  have hpast : sizeLimit n <
      (header mat n).length + 2 * ((List.range n).flatMap (edgePairs mat n)).length := by
    rw [hpairs, length_header]
    omega
  obtain ⟨k, hk, hfold, hpassed, hbefore⟩ := WordStream.foldlM_push_of_lt hpairs_ne hpast
  rw [length_header] at hpassed hbefore
  have hlength : (header mat n ++
      flat (((List.range n).flatMap (edgePairs mat n)).take (k + 1))).length =
      2 * n + 3 + 2 * (k + 1) := by
    rw [List.length_append, length_header, WordStream.length_flat, List.length_take,
      Nat.min_eq_left hk]
  exact ⟨k, _, (convertToExd_eq mat n).trans hfold, hlength, by omega, by omega⟩

/-- Exactly when the words are fewer than the capacity, or none is left of a matrix of three rows
without entries, or the size is odd, at least 5, and the words are more than the capacity: the
last pair that is stored then ends with the buffer. -/
theorem respectsCapacity_iff (mat : Nat → Word) (hn : 3 ≤ n) (hsize : n * n < 2 ^ 31) :
    RespectsCapacity mat n ↔ 2 * n + 3 + 2 * entriesBelow mat n n < n * n ∨
      (n = 3 ∧ entriesBelow mat n n = 0) ∨
      (n % 2 = 1 ∧ 5 ≤ n ∧ n * n < 2 * n + 3 + 2 * entriesBelow mat n n) := by
  have hlimit := sizeLimit_eq (by omega) hsize
  have hread : readBelow mat n n = entriesBelow mat n n :=
    readBelow_eq (by omega) (Nat.le_refl n)
  -- what is needed of `n * n`: its parity, and how it compares with the header
  have hparity : n * n % 2 = n % 2 := by
    rw [Nat.mul_mod]
    rcases Nat.mod_two_eq_zero_or_one n with h | h
    · rw [h]
    · rw [h]
  have hrows : n = 3 ∧ n * n = 9 ∨ n = 4 ∧ n * n = 16 ∨ 5 ≤ n ∧ 5 * n ≤ n * n := by
    rcases (by omega : n = 3 ∨ n = 4 ∨ 5 ≤ n) with rfl | rfl | h
    · exact Or.inl ⟨rfl, rfl⟩
    · exact Or.inr (Or.inl ⟨rfl, rfl⟩)
    · exact Or.inr (Or.inr ⟨h, Nat.mul_le_mul_right n h⟩)
  by_cases hfits : entriesBelow mat n n = 0 ∨ 2 * n + 3 + 2 * entriesBelow mat n n ≤ sizeLimit n
  · obtain ⟨words, hok⟩ : ∃ words, convertToExd mat n = .ok words :=
      ⟨_, convertToExd_eq_ok_iff.mpr ⟨by rwa [hread], rfl⟩⟩
    have hlength : words.length = 2 * n + 3 + 2 * entriesBelow mat n n := by
      obtain ⟨_, rfl⟩ := convertToExd_eq_ok_iff.mp hok
      rw [List.length_append, length_header, WordStream.length_flat, length_edges, hread]
    have hfew : 2 * n + 3 + 2 * entriesBelow mat n n < n * n ∨
        n = 3 ∧ entriesBelow mat n n = 0 := by
      rcases hfits with hzero | hle
      · omega
      · omega
    have hle : 2 * n + 3 + 2 * entriesBelow mat n n ≤ n * n := by omega
    apply iff_of_true _ (hfew.imp_right Or.inl)
    constructor
    · rw [hok, stored]
      exact hlength.trans_le hle
    · rw [hok]
      apply iff_of_false _ hle.not_gt
      rintro ⟨_, h⟩
      cases h
    · intro words' h
      obtain rfl := Except.ok.inj (hok.symm.trans h)
      exact hlength
  · obtain ⟨k, words, herror, hlength, hpassed, hbefore⟩ :=
      convertToExd_eq_error mat (n := n) (by omega) (by omega) (by omega) (by omega)
    obtain ⟨hne, _⟩ := not_or.mp hfits
    have hpast : n * n ≤ 2 * n + 3 + 2 * entriesBelow mat n n := by omega
    constructor
    · rintro ⟨hinside, hiff, _⟩
      rw [herror, stored] at hinside
      have hfull : 2 * n + 3 + 2 * (k + 1) = n * n := by omega
      have hodd : n % 2 = 1 := by
        rw [← hparity, ← hfull]
        omega
      have hfive : 5 ≤ n := by
        rcases hrows with ⟨hthree, _⟩ | ⟨hfour, _⟩ | ⟨h, _⟩
        · rw [hthree] at hfull
          omega
        · rw [hfour] at hodd
          cases hodd
        · exact h
      exact Or.inr (Or.inr ⟨hodd, hfive, hiff.mp ⟨words, herror⟩⟩)
    · intro h
      obtain ⟨hodd, hfive, hmany⟩ := (h.resolve_left hpast.not_gt).resolve_left fun h ↦ hne h.2
      constructor
      · rw [herror, stored]
        rcases hbefore with hzero | hbefore
        · omega
        · omega
      · exact iff_of_true ⟨words, herror⟩ hmany
      · intro words' hok
        rw [herror] at hok
        cases hok

/-- Four nodes with all edges between them: a word is stored behind the buffer. -/
theorem not_respectsCapacity_four : ¬∀ (mat : Nat → Word) (n : Nat), 3 ≤ n → n * n < 2 ^ 31 →
    RespectsCapacity mat n := by
  intro hall
  let mat (idx : Nat) : Word := if idx % 5 = 0 then 0 else 1
  have hentries : readBelow mat 4 4 = 12 := by decide
  obtain ⟨k, words, herror, hlength, hpassed, _⟩ :=
    convertToExd_eq_error mat (n := 4) (by decide) (by decide) (by omega) (by omega)
  have hinside := (hall mat 4 (by decide) (by decide)).inside
  rw [herror, stored] at hinside
  omega

/-- The largest size of the module, without edges. -/
theorem respectsCapacity_module : RespectsCapacity (fun _ ↦ 0) 1024 ↔
    2 * 1024 + 3 + 2 * entriesBelow (fun _ ↦ 0) 1024 1024 < 1024 * 1024 ∨
      (1024 = 3 ∧ entriesBelow (fun _ ↦ 0) 1024 1024 = 0) ∨
      (1024 % 2 = 1 ∧ 5 ≤ 1024 ∧
        1024 * 1024 < 2 * 1024 + 3 + 2 * entriesBelow (fun _ ↦ 0) 1024 1024) :=
  respectsCapacity_iff (fun _ ↦ 0) (by decide) (by decide)

end QHGPU.Bfs
