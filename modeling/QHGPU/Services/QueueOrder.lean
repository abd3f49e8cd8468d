import Mathlib.Data.Fintype.Prod
import QHGPU.Services.FloydWarshall

/-!
# Floyd–Warshall on its command queue

`run_floyd_warshall_gpu` relies on the write, the passes and the read being executed in the
order in which they are enqueued, on a queue that promises no order.
-/

namespace QHGPU.FloydWarshall

open WorkItems (Prog Launch Stays Fine)

/-- Every execution of the commands in this order stays in the buffer and ends with `target` in
the data. -/
def Computes (n : Nat) (target : Nat → Weight) : List Command → Transfer → Prop
  | [], s => ∀ idx < n * n, s.data idx = target idx
  | .write :: cs, s => Computes n target cs (s.write n)
  | .read :: cs, s => Computes n target cs (s.read n)
  | .pass k :: cs, s =>
    Stays workGroup (floydWarshallPass n k) s.buffer (InBuffer n) ∧
      ∀ buffer', Launch workGroup (floydWarshallPass n k) s.buffer buffer' →
        Computes n target cs { s with buffer := buffer' }

/-- In every order that the queue allows, the data read back is the matrix of the CPU. -/
def EveryOrder (n : Nat) (m : Nat → Weight) (buffer : Int → Weight) : Prop :=
  ∀ order, commandQueue.Allows (runFloydWarshallGpu n) order →
    Computes n (kfloydWarshallCpu m n) order ⟨m, buffer⟩

/-- No entry exceeds the sum of two entries through a third node. -/
def Triangle (n : Nat) (m : Nat → Weight) : Prop :=
  ∀ k < n, ∀ i < n, ∀ j < n,
    (m (i * n + j)).toNat ≤ (m (i * n + k)).toNat + (m (k * n + j)).toNat

variable {n : Nat} {m target : Nat → Weight} {buffer : Int → Weight} {s : Transfer}

/-! ### When every order does -/

/-- A pass changes nothing in a buffer that satisfies the triangle inequality. -/
theorem fine_pass (hsize : n * n ≤ 2 ^ 31) {k : Nat} (hk : k < n)
    (hfix : ∀ i < n, ∀ j < n, ¬buffer (i * n + k : Nat) + buffer (k * n + j : Nat) <
      buffer (i * n + j : Nat)) (item : Fin n × Fin n) :
    Fine (· ∈ {l | InBuffer n l}) ∅ buffer buffer (fun seen _ ↦ ∅ ⊆ seen) ∅
      (floydWarshallPass n k item) := by
  obtain ⟨⟨j, hj⟩, ⟨i, hi⟩⟩ := item
  have inside {a b : Nat} (ha : a < n) (hb : b < n) : InBuffer n (index n a b) := by
    rw [index_eq hsize ha hb]
    have := cell_lt ha hb
    exact ⟨by omega, by exact_mod_cast this⟩
  have hnot := hfix i hi j hj
  rw [← index_eq hsize hi hk, ← index_eq hsize hk hj, ← index_eq hsize hi hj] at hnot
  simp [floydWarshallPass, hnot, inside hi hk, inside hk hj, inside hi hj]

private theorem computes_of_fixed (hsize : n * n ≤ 2 ^ 31)
    (hfix : ∀ k < n, ∀ i < n, ∀ j < n, ¬target (i * n + k) + target (k * n + j) <
      target (i * n + j)) (cs : List Command) (hcs : ∀ k, .pass k ∈ cs → k < n)
    (hdata : ∀ idx < n * n, s.data idx = target idx)
    (hbuffer : ∀ idx < n * n, s.buffer idx = target idx) : Computes n target cs s := by
  induction cs generalizing s with
  | nil => exact hdata
  | cons c cs ih =>
    have hrest (k : Nat) (hk : .pass k ∈ cs) : k < n := hcs k (List.mem_cons_of_mem c hk)
    cases c with
    | write =>
      refine ih hrest hdata ?_
      intro idx hidx
      have hin : (0 : Int) ≤ idx ∧ (idx : Int) < n * n := ⟨by omega, by exact_mod_cast hidx⟩
      rw [Transfer.write]
      dsimp only
      rw [if_pos hin]
      exact hdata idx hidx
    | read =>
      refine ih hrest ?_ hbuffer
      intro idx hidx
      rw [Transfer.read]
      dsimp only
      rw [if_pos hidx]
      exact hbuffer idx hidx
    | pass k =>
      have hk := hcs k List.mem_cons_self
      have hlow (i : Nat) (hi : i < n) (j : Nat) (hj : j < n) :
          ¬s.buffer (i * n + k : Nat) + s.buffer (k * n + j : Nat) <
            s.buffer (i * n + j : Nat) := by
        rw [hbuffer _ (cell_lt hi hk), hbuffer _ (cell_lt hk hj), hbuffer _ (cell_lt hi hj)]
        exact hfix k hk i hi j hj
      have hfine := fine_pass hsize hk hlow
      refine ⟨WorkItems.stays_oneShot (fun _ _ hl ↦ hl) (by simp) hfine, ?_⟩
      intro buffer' hlaunch
      obtain rfl := WorkItems.launch_oneShot (by simp) hfine (fun _ ↦ Or.inl rfl) hlaunch
      exact ih hrest hdata hbuffer

/-! ### What particular orders show -/

/-- The passes leave the data alone. -/
theorem data_of_computes_passes {ks : List Nat}
    (h : Computes n target (ks.map .pass) s) : ∀ idx < n * n, s.data idx = target idx := by
  induction ks generalizing s with
  | nil => exact h
  | cons k ks ih =>
    have hfree (item : Fin n × Fin n) := free_pass k item
    obtain ⟨buffer', hlaunch⟩ := WorkItems.exists_launch workGroup hfree s.buffer
    intro idx hidx
    exact ih (h.2 buffer' hlaunch) idx hidx

/-- The order that reads first shows what the device held before. -/
theorem buffer_of_everyOrder (h : EveryOrder n m buffer) :
    ∀ idx < n * n, buffer idx = kfloydWarshallCpu m n idx := by
  have hperm : (Command.read :: .write :: (List.range n).map .pass).Perm
      (runFloydWarshallGpu n) :=
    List.perm_append_singleton Command.read (.write :: (List.range n).map .pass) |>.symm
  intro idx hidx
  have hcomputes := h _ hperm
  change Computes n _ ((List.range n).map .pass) (Transfer.write n (Transfer.read n _)) at hcomputes
  have hdata := data_of_computes_passes hcomputes idx hidx
  rw [Transfer.write, Transfer.read] at hdata
  dsimp only at hdata
  rwa [if_pos hidx] at hdata

/-- The order that reads right after the write shows the matrix itself. -/
theorem data_of_everyOrder (h : EveryOrder n m buffer) :
    ∀ idx < n * n, m idx = kfloydWarshallCpu m n idx := by
  have hperm : (Command.write :: .read :: (List.range n).map .pass).Perm
      (runFloydWarshallGpu n) :=
    (List.perm_append_singleton Command.read ((List.range n).map .pass)).symm.cons .write
  intro idx hidx
  have hcomputes := h _ hperm
  change Computes n _ ((List.range n).map .pass) (Transfer.read n (Transfer.write n _)) at hcomputes
  have hdata := data_of_computes_passes hcomputes idx hidx
  have hin : (0 : Int) ≤ idx ∧ (idx : Int) < n * n := ⟨by omega, by exact_mod_cast hidx⟩
  rw [Transfer.read, Transfer.write] at hdata
  dsimp only at hdata
  rwa [if_pos hidx, if_pos hin] at hdata

/-- The order of the calls shows that the indices of the first pass stay in the buffer. -/
theorem size_of_everyOrder (hn : n < 2 ^ 16) (haccept : launchAccepts n = true)
    (h : EveryOrder n m buffer) : n * n ≤ 2 ^ 31 := by
  by_contra hbig
  obtain ⟨hpos, hmod⟩ : 0 < n ∧ n % 16 = 0 := by
    simp [launchAccepts, rangeAccepted] at haccept
    omega
  -- the last row starts past `2 ^ 31` words
  have hrow : 2 ^ 31 ≤ (n - 1) * n + 0 := by
    have hlarge : 46352 ≤ n := by
      by_contra hsmall
      have : n ≤ 46336 := by omega
      have := Nat.mul_le_mul this this
      omega
    have := Nat.mul_le_mul (Nat.sub_le_sub_right hlarge 1) hlarge
    omega
  obtain ⟨k, rfl⟩ : ∃ k, n = k + 1 := ⟨n - 1, by omega⟩
  have hcomputes := h _ (List.Perm.refl _)
  rw [runFloydWarshallGpu, List.range_succ_eq_map] at hcomputes
  have hin := hcomputes.1 [] _ rfl (⟨k, by omega⟩, ⟨k, by omega⟩) _ rfl
  have hneg : index (k + 1) k 0 < 0 := index_neg hn k.lt_succ_self hpos hrow
  exact absurd hin.1 (Int.not_le.mpr hneg)

/-! ### The condition -/

private theorem not_lt_iff {a b c : Weight} (ha : a.toNat ≤ 9999999) (hb : b.toNat ≤ 9999999) :
    ¬a + b < c ↔ c.toNat ≤ a.toNat + b.toNat := by
  rw [BitVec.lt_def, BitVec.toNat_add, Nat.mod_eq_of_lt (by omega)]
  omega

private theorem triangle_iff (hn : n < 2 ^ 16) (hm : ∀ idx < n * n, (m idx).toNat ≤ 9999999) :
    Triangle n m ↔ kfloydWarshallCpu m n = m := by
  rw [kfloydWarshallCpu_eq_self_iff, Triangle]
  refine forall₂_congr fun k hk ↦ forall₂_congr fun i hi ↦ forall₂_congr fun j hj ↦ ?_
  rw [cpuIndex_eq hn hi hk, cpuIndex_eq hn hk hj, cpuIndex_eq hn hi hj,
    not_lt_iff (hm _ (cell_lt hi hk)) (hm _ (cell_lt hk hj))]

/-- For every size of the request and every matrix: the data read back is the CPU's in every
order that the queue allows, exactly when the new buffer holds the matrix already, the matrix
needs no pass, and its indices are not negative in `int`. -/
theorem everyOrder_iff (mmapSize : BitVec 32) (m : Nat → Weight) (buffer : Int → Weight)
    (haccept : launchAccepts (matSize mmapSize) = true)
    (hm : ∀ idx < matSize mmapSize * matSize mmapSize, (m idx).toNat ≤ 9999999) :
    EveryOrder (matSize mmapSize) m buffer ↔
      matSize mmapSize * matSize mmapSize ≤ 2 ^ 31 ∧
        (∀ idx : Nat, idx < matSize mmapSize * matSize mmapSize → buffer idx = m idx) ∧
        Triangle (matSize mmapSize) m := by
  have hn := matSize_lt mmapSize
  revert haccept hm hn
  generalize matSize mmapSize = n
  intro haccept hm hn
  constructor
  · intro h
    have hdata := data_of_everyOrder h
    refine ⟨size_of_everyOrder hn haccept h, ?_, (triangle_iff hn hm).mpr ?_⟩
    · intro idx hidx
      exact (buffer_of_everyOrder h idx hidx).trans (hdata idx hidx).symm
    · funext idx
      by_cases hidx : idx < n * n
      · exact (hdata idx hidx).symm
      · exact kfloydWarshallCpu_apply hn m (Nat.le_of_not_lt hidx)
  · rintro ⟨hsize, hbuffer, htriangle⟩ order hperm
    rw [(triangle_iff hn hm).mp htriangle]
    refine computes_of_fixed hsize ?_ order ?_ (fun _ _ ↦ rfl) hbuffer
    · intro k hk i hi j hj
      exact (not_lt_iff (hm _ (cell_lt hi hk)) (hm _ (cell_lt hk hj))).mpr
        (htriangle k hk i hi j hj)
    · intro k hk
      have hmem := (List.Perm.mem_iff hperm).mp hk
      simpa [runFloydWarshallGpu] using hmem

/-- A request of 256 words, all 1, and a buffer that holds them. -/
theorem everyOrder_iff_ones : EveryOrder 16 (fun _ ↦ 1) fun _ ↦ 1 := by
  have hsize : matSize 256 = 16 := by decide +kernel
  rw [← hsize]
  refine (everyOrder_iff 256 (fun _ ↦ 1) (fun _ ↦ 1) ?_ fun _ _ ↦ by decide).mpr
    ⟨?_, fun _ _ ↦ rfl, ?_⟩
  · rw [hsize]
    decide
  · rw [hsize]
    decide
  · intro k _ i _ j _
    exact Nat.le_add_left 1 1

/-- The matrix of ones on a device whose memory is zero: the read may come first. -/
theorem not_everyOrder_readFirst : ¬∀ (mmapSize : BitVec 32) (m : Nat → Weight)
    (buffer : Int → Weight), launchAccepts (matSize mmapSize) = true →
      (∀ idx < matSize mmapSize * matSize mmapSize, (m idx).toNat ≤ 9999999) →
      EveryOrder (matSize mmapSize) m buffer := by
  intro hall
  have hsize : matSize 256 = 16 := by decide +kernel
  have h := hall 256 (fun _ ↦ 1) (fun _ ↦ 0) (by rw [hsize]; decide) fun _ _ ↦ by decide
  rw [hsize] at h
  have hbuffer := buffer_of_everyOrder h 0 (by decide)
  have hdata := data_of_everyOrder h 0 (by decide)
  exact absurd (hbuffer.trans hdata.symm) (by decide)

end QHGPU.FloydWarshall
