import Mathlib.Data.Nat.Sqrt
import QHGPU.Base.OpenCL
import QHGPU.Library.OneShot

/-!
# Floyd–Warshall

The kernel `src/kernel/FloydWarshall_Kernels.cl`, the host code of the service,
`src/test_module/floyd_warshall/lib/`, and the loop of the module that runs on the CPU,
`src/test_module/floyd_warshall/floyd_warshall_module.c:78–91`.
-/

namespace QHGPU.FloydWarshall

open WorkItems (Prog load store)

/-- `unsigned int`. -/
abbrev Weight := BitVec 32

/-! ### The kernel -/

/-- The index `i * MAT_SIZE + k` of the kernel, computed in `int`,
`src/kernel/FloydWarshall_Kernels.cl:5–8`. -/
def index (matSize i k : Nat) : Int := (BitVec.ofNat 32 (i * matSize + k)).toInt

/-- `floydWarshallPass`, `src/kernel/FloydWarshall_Kernels.cl:1–9`. Sums and comparisons are
unsigned. -/
def floydWarshallPass (matSize k : Nat) (item : Fin matSize × Fin matSize) :
    Prog Int Weight Unit := do
  let j := item.1.val
  let i := item.2.val
  let ik ← load (index matSize i k)
  let kj ← load (index matSize k j)
  let tempWeight := ik + kj
  let ij ← load (index matSize i j)
  if tempWeight < ij then store (index matSize i j) tempWeight

/-- The work-groups of the launch, `localThreads = {16, 8}`,
`src/test_module/floyd_warshall/lib/cl_floyd_warshall.c:80`. -/
def workGroup {matSize : Nat} (item : Fin matSize × Fin matSize) : Nat × Nat :=
  (item.1 / 16, item.2 / 8)

/-- An access inside the buffer of `mat_size * mat_size` words. -/
def InBuffer (matSize : Nat) (idx : Int) : Prop := 0 ≤ idx ∧ idx < matSize * matSize

/-! ### The host -/

/-- The commands that `run_floyd_warshall_gpu` enqueues. -/
inductive Command where
  | write
  | pass (k : Nat)
  | read
  deriving DecidableEq, Repr

/-- `mat_size = sqrt(mmap_size)` in `floyd_warshall_launch`,
`src/test_module/floyd_warshall/lib/libsrv_floyd_warshall.c:57–58`. -/
def matSize (mmapSize : BitVec 32) : Nat := mmapSize.toNat.sqrt

/-- `run_floyd_warshall_gpu` returns `CL_SUCCESS`: the buffer has a positive size, and the
work-groups tile the range. -/
def launchAccepts (matSize : Nat) : Bool :=
  decide (0 < matSize * matSize * 4) && rangeAccepted matSize 16 && rangeAccepted matSize 8

/-- `run_floyd_warshall_gpu`, `src/test_module/floyd_warshall/lib/cl_floyd_warshall.c:72–102`, in
the order of its calls. None has a wait list. -/
def runFloydWarshallGpu (matSize : Nat) : List Command :=
  .write :: (List.range matSize).map .pass ++ [.read]

/-- The queue that `init_floyd_warshall_gpu` creates,
`src/test_module/floyd_warshall/lib/cl_floyd_warshall.c:63`. -/
def commandQueue : QueueMode := .outOfOrder

/-- The data of the request and the buffer of the device. -/
structure Transfer where
  data : Nat → Weight
  buffer : Int → Weight

/-- `clEnqueueWriteBuffer`, `src/test_module/floyd_warshall/lib/cl_floyd_warshall.c:89`, of the
whole matrix. -/
def Transfer.write (matSize : Nat) (s : Transfer) : Transfer :=
  { s with buffer := fun idx ↦
    if 0 ≤ idx ∧ idx < matSize * matSize then s.data idx.toNat else s.buffer idx }

/-- `clEnqueueReadBuffer`, `src/test_module/floyd_warshall/lib/cl_floyd_warshall.c:99`, of the
whole matrix. -/
def Transfer.read (matSize : Nat) (s : Transfer) : Transfer :=
  { s with data := fun idx ↦ if idx < matSize * matSize then s.buffer idx else s.data idx }

/-! ### The CPU -/

/-- The index `i * MAT_SIZE + j` of the module, computed in `unsigned int`,
`src/test_module/floyd_warshall/floyd_warshall_module.c:84–85`. -/
def cpuIndex (matSize i j : Nat) : Nat := (i * matSize + j) % 2 ^ 32

/-- The body of the three loops, `src/test_module/floyd_warshall/floyd_warshall_module.c:84–85`. -/
def relax (matSize k i : Nat) (adjMat : Nat → Weight) (j : Nat) : Nat → Weight :=
  let tempWeight := adjMat (cpuIndex matSize i k) + adjMat (cpuIndex matSize k j)
  if tempWeight < adjMat (cpuIndex matSize i j) then
    Function.update adjMat (cpuIndex matSize i j) tempWeight
  else adjMat

/-- `kfloyd_warshall_cpu`, `src/test_module/floyd_warshall/floyd_warshall_module.c:78–91`. -/
def kfloydWarshallCpu (adjMat : Nat → Weight) (matSize : Nat) : Nat → Weight :=
  (List.range matSize).foldl (fun adjMat k ↦
    (List.range matSize).foldl (fun adjMat i ↦
      (List.range matSize).foldl (relax matSize k i) adjMat) adjMat) adjMat

/-! ### Indices -/

variable {n i j k : Nat}

/-- The square root of 32 bits has 16. -/
theorem matSize_lt (mmapSize : BitVec 32) : matSize mmapSize < 2 ^ 16 := by
  rw [matSize, Nat.sqrt_lt]
  have := mmapSize.isLt
  omega

/-- Row and column are inside the matrix. -/
theorem cell_lt (hi : i < n) (hj : j < n) : i * n + j < n * n := by
  have : (i + 1) * n ≤ n * n := Nat.mul_le_mul_right n hi
  rw [Nat.add_mul] at this
  omega

/-- Below 2^16 the index of the module does not wrap. -/
theorem cpuIndex_eq (hn : n < 2 ^ 16) (hi : i < n) (hj : j < n) : cpuIndex n i j = i * n + j := by
  have hcell := cell_lt hi hj
  have hsq : n * n ≤ 2 ^ 16 * 2 ^ 16 := Nat.mul_le_mul hn.le hn.le
  exact Nat.mod_eq_of_lt (by omega)

/-- Up to 2^31 words the index of the kernel does not overflow. -/
theorem index_eq (hsize : n * n ≤ 2 ^ 31) (hi : i < n) (hj : j < n) :
    index n i j = (i * n + j : Nat) := by
  have hcell := cell_lt hi hj
  rw [index, BitVec.toInt_eq_toNat_cond, BitVec.toNat_ofNat, Nat.mod_eq_of_lt (by omega),
    if_pos (by omega)]

/-- Past `2 ^ 31` words an index of the kernel is negative. -/
theorem index_neg (hn : n < 2 ^ 16) (hi : i < n) (hj : j < n) (hbig : 2 ^ 31 ≤ i * n + j) :
    index n i j < 0 := by
  have hcell := cell_lt hi hj
  have hsq : n * n ≤ 2 ^ 16 * 2 ^ 16 := Nat.mul_le_mul hn.le hn.le
  rw [index, BitVec.toInt_eq_toNat_cond, BitVec.toNat_ofNat, Nat.mod_eq_of_lt (by omega),
    if_neg (by omega)]
  omega

/-- The kernel has no barrier. -/
theorem free_pass (k : Nat) (item : Fin n × Fin n) : (floydWarshallPass n k item).Free := by
  intro ik kj ij
  change (if ik + kj < ij then _ else _ : Prog Int Weight Unit).Free
  split
  · trivial
  · trivial

/-! ### The loop on the CPU lowers entries -/

/-- No entry is larger. -/
def Lower (m m' : Nat → Weight) : Prop := ∀ idx, (m idx).toNat ≤ (m' idx).toNat

private theorem Lower.antisymm {m m' : Nat → Weight} (h : Lower m m') (h' : Lower m' m) :
    m = m' := by
  funext idx
  exact BitVec.eq_of_toNat_eq (Nat.le_antisymm (h idx) (h' idx))

/-- One turn of the loops makes no entry larger. -/
theorem lower_relax (m : Nat → Weight) : Lower (relax n k i m j) m := by
  intro idx
  rw [relax]
  split
  · next hlt =>
    by_cases hidx : idx = cpuIndex n i j
    · subst hidx
      rw [Function.update_self]
      exact (BitVec.lt_def.mp hlt).le
    · rw [Function.update_of_ne hidx]
  · exact Nat.le_refl _

variable {ι : Type} {f : (Nat → Weight) → ι → Nat → Weight}

private theorem lower_foldl (hf : ∀ m x, Lower (f m x) m) (xs : List ι) (m : Nat → Weight) :
    Lower (xs.foldl f m) m := by
  induction xs generalizing m with
  | nil => exact fun _ ↦ Nat.le_refl _
  | cons x xs ih => exact fun idx ↦ (ih (f m x) idx).trans (hf m x idx)

/-- A loop of updates that lower entries changes nothing only when none of them does. -/
theorem foldl_eq_self_iff (hf : ∀ m x, Lower (f m x) m) {xs : List ι} {m : Nat → Weight} :
    xs.foldl f m = m ↔ ∀ x ∈ xs, f m x = m := by
  induction xs generalizing m with
  | nil => simp
  | cons x xs ih =>
    rw [List.foldl_cons, List.forall_mem_cons]
    constructor
    · intro h
      have hx : f m x = m := by
        refine (hf m x).antisymm ?_
        have hlower := lower_foldl hf xs (f m x)
        rwa [h] at hlower
      refine ⟨hx, ih.mp ?_⟩
      rwa [hx] at h
    · rintro ⟨hx, hxs⟩
      rw [hx]
      exact ih.mpr hxs

private theorem relax_eq_self_iff {m : Nat → Weight} : relax n k i m j = m ↔
    ¬m (cpuIndex n i k) + m (cpuIndex n k j) < m (cpuIndex n i j) := by
  rw [relax]
  constructor
  · intro h hlt
    rw [if_pos hlt] at h
    have hcell := congrFun h (cpuIndex n i j)
    rw [Function.update_self] at hcell
    rw [hcell] at hlt
    exact absurd (BitVec.lt_def.mp hlt) (Nat.lt_irrefl _)
  · intro h
    rw [if_neg h]

/-- `kfloyd_warshall_cpu` leaves a matrix alone only when no entry exceeds a sum through a third
node. -/
theorem kfloydWarshallCpu_eq_self_iff {m : Nat → Weight} : kfloydWarshallCpu m n = m ↔
    ∀ k < n, ∀ i < n, ∀ j < n,
      ¬m (cpuIndex n i k) + m (cpuIndex n k j) < m (cpuIndex n i j) := by
  have hrow (k : Nat) (m : Nat → Weight) (i : Nat) :
      Lower ((List.range n).foldl (relax n k i) m) m :=
    lower_foldl (fun m _ ↦ lower_relax m) _ m
  have hpass (m : Nat → Weight) (k : Nat) : Lower ((List.range n).foldl (fun m i ↦
      (List.range n).foldl (relax n k i) m) m) m := lower_foldl (hrow k) _ m
  simp only [kfloydWarshallCpu, foldl_eq_self_iff hpass, foldl_eq_self_iff (hrow _),
    foldl_eq_self_iff (fun m _ ↦ lower_relax m), relax_eq_self_iff, List.mem_range]

/-- The cells that no index of the loops leads to stay as they are. -/
theorem kfloydWarshallCpu_of_ne (m : Nat → Weight) {idx : Nat}
    (hidx : ∀ i < n, ∀ j < n, idx ≠ cpuIndex n i j) : kfloydWarshallCpu m n idx = m idx := by
  have hrelax (k i j : Nat) (m' : Nat → Weight) (hi : i < n) (hj : j < n) :
      relax n k i m' j idx = m' idx := by
    rw [relax]
    split
    · exact Function.update_of_ne (hidx i hi j hj) _ _
    · rfl
  have loop (f : (Nat → Weight) → Nat → Nat → Weight)
      (hf : ∀ m' x, x < n → f m' x idx = m' idx) (m' : Nat → Weight) :
      (List.range n).foldl f m' idx = m' idx :=
    List.foldlRecOn (List.range n) f (motive := fun m'' ↦ m'' idx = m' idx) rfl
      fun m'' h x hx ↦ (hf m'' x (List.mem_range.mp hx)).trans h
  rw [kfloydWarshallCpu]
  exact loop _ (fun m' k _ ↦ loop _ (fun m'' i hi ↦ loop _ (fun m''' j hj ↦
    hrelax k i j m''' hi hj) m'') m') m

/-- The cells past the matrix stay as they are. -/
theorem kfloydWarshallCpu_apply (hn : n < 2 ^ 16) (m : Nat → Weight) {idx : Nat}
    (hidx : n * n ≤ idx) : kfloydWarshallCpu m n idx = m idx := by
  apply kfloydWarshallCpu_of_ne
  intro i hi j hj
  rw [cpuIndex_eq hn hi hj]
  have := cell_lt hi hj
  omega

end QHGPU.FloydWarshall
