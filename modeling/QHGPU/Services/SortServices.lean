import QHGPU.Services.BatchLaunch
import QHGPU.Services.RadixService
import QHGPU.Services.RxSort

/-!
# The services that sort

`radix_launch` leaves in the buffer what `rxSort` of the client makes of the same keys, and
`batch_launch` sorts the data that the client hands over chunk by chunk.
-/

namespace QHGPU.Radix

variable {hKeys : List Nat} {m : Memory} {post : List Nat → Prop}

/-- A launch of the library with parameters `geo`, with `post` for the keys that are read back:
`radix_launch`, `src/test_module/radix_sort/lib/libsrv_radix.c:45–87`, and the middle of
`batch_launch`, `src/test_module/batch_test_module/lib/libsrv_batch.c:86–96`. -/
def RadixLaunch (geo : Geometry) (hKeys : List Nat) (post : List Nat → Prop) (m : Memory) : Prop :=
  ∃ st, initClRadixSort geo hKeys m = some st ∧
    ClRadixSort geo st.sizes (fun m' ↦ post (clRadixRecupGpu st.sizes m')) st.mem

/-- The launch completes, whatever the order of its steps, and reads back the keys in ascending
order. -/
theorem radixLaunch_of_dvd {geo : Geometry} {e e' : Nat} (hgeo : Powers geo e e')
    (hgroups : 2 ^ Nat.log2 geo.groups = geo.groups) (hitems : 2 ^ Nat.log2 geo.items = geo.items)
    (hpos : 0 < hKeys.length) (hdvd : geo.groups * geo.items ∣ hKeys.length)
    (hkeys : ∀ key ∈ hKeys, key < maxint)
    (hpost : ∀ sorted : List Nat, sorted.Pairwise (· ≤ ·) → sorted.Perm hKeys → post sorted) :
    RadixLaunch geo hKeys post m := by
  refine ⟨_, initClRadixSort_of_dvd hgeo hgroups hitems hpos hdvd, ?_⟩
  obtain ⟨size, hsize⟩ := hdvd
  apply clRadixSort_of_powers hgeo hsize _ (load_loaded _ _)
  · intro m' hsorted
    exact hpost _ hsorted.pairwise hsorted.perm
  · intro key hkey
    exact (hkeys key hkey).trans (by decide)

/-- `radix_launch` for multiples of 1024 keys. -/
theorem radixLaunch_of_mod (hpos : 0 < hKeys.length) (hmod : hKeys.length % 1024 = 0)
    (hkeys : ∀ key ∈ hKeys, key < maxint)
    (hpost : ∀ sorted : List Nat, sorted.Pairwise (· ≤ ·) → sorted.Perm hKeys → post sorted) :
    RadixLaunch hostGeometry hKeys post m :=
  radixLaunch_of_dvd hostGeometry_powers rfl rfl hpos (Nat.dvd_of_mod_eq_zero hmod) hkeys hpost

/-- The service computes what `rxSort` computes with 29 digits of base 2, as the client calls
it. -/
theorem radixLaunch_rxSort {data counts temp : List RxSort.Word} (hpos : 0 < data.length)
    (hmod : data.length % 1024 = 0) (hlen : data.length < 2 ^ 31)
    (hkeys : ∀ x ∈ data, x.toNat < maxint) (hcounts : 2 ≤ counts.length)
    (htemp : data.length ≤ temp.length) (m : Memory) :
    ∃ s, RxSort.rxSort data.length 29 2 ⟨data, counts, temp⟩ = some s ∧
      RadixLaunch hostGeometry (data.map BitVec.toNat) (· = s.data.map BitVec.toNat) m := by
  have hmax : maxint = 2 ^ 24 := rfl
  have htoInt (x : RxSort.Word) (hx : x ∈ data) : x.toInt = x.toNat := by
    have := hkeys x hx
    apply BitVec.toInt_eq_toNat_of_lt
    omega
  have hnonneg (x : RxSort.Word) (hx : x ∈ data) : 0 ≤ x.toInt := by
    rw [htoInt x hx]
    exact Int.natCast_nonneg _
  have hdigits (x : RxSort.Word) (hx : x ∈ data) : x.toInt < (2 ^ 29 : Nat) := by
    have := hkeys x hx
    rw [htoInt x hx]
    omega
  have hfits : RxSort.Fits 2 0 ⟨data, counts, temp⟩ :=
    ⟨Nat.le_refl 2, by omega, by omega, hlen, hnonneg, hcounts, htemp⟩
  obtain ⟨s, hrun, hs⟩ := RxSort.sortedBy_rxSort (p := 29) (fun n hn ↦ by
    have : 2 ^ n ≤ 2 ^ 28 := Nat.pow_le_pow_right (by omega) (by omega)
    omega) hfits
  refine ⟨s, hrun, ?_⟩
  have hperm : s.data.Perm data := hs.perm
  have hsorted : (s.data.map BitVec.toNat).Pairwise (· ≤ ·) := by
    rw [List.pairwise_map]
    refine (hs.pairwise hnonneg hdigits).imp_of_mem ?_
    intro x y hx hy hxy
    rw [htoInt x (hperm.mem_iff.mp hx), htoInt y (hperm.mem_iff.mp hy)] at hxy
    omega
  apply radixLaunch_of_mod
  · rw [List.length_map]
    exact hpos
  · rw [List.length_map]
    exact hmod
  · intro key hkey
    obtain ⟨x, hx, rfl⟩ := List.mem_map.mp hkey
    exact hkeys x hx
  · intro sorted hascending hsame
    apply List.Perm.eq_of_pairwise (fun _ _ _ _ ↦ Nat.le_antisymm) hascending hsorted
    exact hsame.trans (hperm.map _).symm

private theorem radixLaunch_rxSort_zeros : ∃ s,
    RxSort.rxSort (List.replicate 1024 (0 : RxSort.Word)).length 29 2
      ⟨List.replicate 1024 0, [0, 0], List.replicate 1024 0⟩ = some s ∧
    RadixLaunch hostGeometry ((List.replicate 1024 (0 : RxSort.Word)).map BitVec.toNat)
      (· = s.data.map BitVec.toNat) fun _ ↦ 0 := by
  have hlen : (List.replicate 1024 (0 : RxSort.Word)).length = 1024 := List.length_replicate
  apply radixLaunch_rxSort
  · omega
  · omega
  · omega
  · intro x hx
    rw [List.eq_of_mem_replicate hx]
    decide
  · exact Nat.le_refl 2
  · exact Nat.le_refl _

end QHGPU.Radix

namespace QHGPU.BatchService

open Kernel (batchCount)
open Radix (Geometry RadixLaunch Memory maxint radixLaunch_of_dvd)

variable {k : Kernel.State} {sr : QhgpuServiceRequest} {n cnt : Nat} {client : Nat → Nat → Key}
  {fresh hKeys : Nat → Key}

/-- The batch library's own parameters,
`src/test_module/batch_test_module/lib/cl_radix_sort_param.h:10–12`. -/
def batchGeometry : Geometry := ⟨16, 8, 512⟩

/-- In 512 parts of 8 entries. -/
theorem batchGeometry_powers : Radix.Powers batchGeometry 2 8 :=
  ⟨⟨rfl, by decide⟩, rfl, by decide, by decide⟩

/-- The keys that `init_cl_radix_sort` loads. -/
def keysOf (hKeys : Nat → Key) (n : Nat) : List Nat := (prefixOf hKeys n).map BitVec.toNat

/-- `h_keys` after `cl_radix_recup_gpu` has written the keys read back to it,
`src/test_module/radix_sort/lib/cl_radix_sort.c:572–640`. -/
def recup (hKeys : Nat → Key) (sorted : List Nat) : Nat → Key :=
  fun w ↦ (sorted[w]?.map (BitVec.ofNat 32)).getD (hKeys w)

/-- `batch_launch`, `src/test_module/batch_test_module/lib/libsrv_batch.c:45–132`, with `post` for
what the client has been shown. -/
def BatchLaunch (k : Kernel.State) (sr : QhgpuServiceRequest) (client : Nat → Nat → Key)
    (fresh : Nat → Key) (post : CopyOut → Prop) (m : Memory) : Prop :=
  ∃ c, copyIn k sr client fresh = some c ∧
    RadixLaunch batchGeometry (keysOf c.hKeys (room sr))
      (fun sorted ↦ ∃ o, copyOut k sr (recup c.hKeys sorted) c.slot = some o ∧ post o) m

/-- What the calls of `QHGPU_IOC_BATCH_D2H` have shown, one chunk behind the other. -/
def CopyOut.answer (o : CopyOut) : List Key :=
  prefixes o.chunks fun i ↦ o.presented.getD i fun _ ↦ 0

private theorem length_keysOf (hKeys : Nat → Key) (n : Nat) : (keysOf hKeys n).length = n := by
  simp [keysOf, prefixOf]

/-- The keys read back are the first words of `h_keys`. -/
theorem keysOf_recup {sorted : List Nat} (hperm : sorted.Perm (keysOf hKeys n)) :
    keysOf (recup hKeys sorted) n = sorted := by
  have hlen : sorted.length = n := hperm.length_eq.trans (length_keysOf hKeys n)
  apply List.ext_getElem
  · rw [length_keysOf, hlen]
  · intro w _ hw
    have hlt : sorted[w] < 2 ^ 32 := by
      obtain ⟨key, -, hkey⟩ := List.mem_map.mp (hperm.mem_iff.mp (List.getElem_mem hw))
      rw [← hkey]
      exact key.isLt
    simpa [keysOf, prefixOf, recup, List.getElem?_eq_getElem hw] using hlt

/-- A word that the client hands over is among the first of a chunk. -/
theorem exists_of_mem_prefixes {chunks : List (Nat × Nat)} {key : Key}
    (h : key ∈ prefixes chunks client) : ∃ c ∈ chunks, ∃ i, ∃ w < c.2, key = client i w := by
  obtain ⟨c, hc, hkey⟩ := List.mem_flatMap.mp h
  obtain ⟨w, hw, rfl⟩ := List.mem_map.mp hkey
  exact ⟨c.1, (List.mem_zipIdx' hc).2 ▸ List.getElem_mem _, c.2, w, List.mem_range.mp hw, rfl⟩

/-- A request that carries the batch count of its size is answered with the data of the client in
ascending order, cut into the chunks in which it came. -/
theorem batchLaunch_sorts (k : Kernel.State) (sr : QhgpuServiceRequest) (n : Int) (hpos : 0 < n)
    (hint : n < 2 ^ 31) (hmod : n.toNat % 128 = 0) (hsize : sr.mmapSize = BitVec.ofInt 64 n)
    (hbatch : sr.batchSize = BitVec.ofInt 64 (batchCount n)) (client : Nat → Nat → Key)
    (hkeys : ∀ i, ∀ w < maxBatchSize.toNat, (client i w).toNat < maxint) (fresh : Nat → Key)
    (m : Memory) :
    BatchLaunch k sr client fresh (fun o ↦ Partitions n.toNat o.chunks ∧
      o.answer.Pairwise (fun x y ↦ x.toNat ≤ y.toNat) ∧
      o.answer.Perm (prefixes o.chunks client)) m := by
  have h := plan_of_alloc hpos hint hsize hbatch
  obtain ⟨c, hin, hchunks, hgathered⟩ := copyIn_gathers h k client fresh
  refine ⟨c, hin, ?_⟩
  rw [h.room]
  apply radixLaunch_of_dvd batchGeometry_powers rfl rfl
  · rw [length_keysOf]
    omega
  · rw [length_keysOf]
    exact Nat.dvd_of_mod_eq_zero hmod
  · intro key hkey
    rw [keysOf, hgathered.hKeys] at hkey
    obtain ⟨word, hword, rfl⟩ := List.mem_map.mp hkey
    obtain ⟨chunk, hchunk, i, w, hw, rfl⟩ := exists_of_mem_prefixes hword
    apply hkeys
    exact Nat.lt_of_lt_of_le hw (hgathered.tiles.bounds hchunk).2.2.2
  · intro sorted hascending hsame
    obtain ⟨o, hout, hscattered⟩ := copyOut_scatters h k (recup c.hKeys sorted) c.slot
    have hanswer : o.answer = prefixOf (recup c.hKeys sorted) n.toNat := hscattered.presented
    have hmap : o.answer.map BitVec.toNat = sorted := by
      rw [hanswer]
      exact keysOf_recup hsame
    refine ⟨o, hout, hscattered.toPartitions, ?_, ?_⟩
    · rw [← hmap, List.pairwise_map] at hascending
      exact hascending
    · rw [hscattered.same, ← hchunks, ← hgathered.hKeys]
      rw [← hmap] at hsame
      exact (List.map_perm_map_iff fun x y hxy ↦ BitVec.eq_of_toNat_eq hxy).mp hsame

/-- Three chunks, the last one shorter, of words out of order and with repetitions. -/
theorem batchLaunch_sorts_three : BatchLaunch (.start 1 (fun _ ↦ 0) .zeroed)
    { QhgpuServiceRequest.zeroed with mmapSize := 524416, batchSize := 3 }
    (fun i w ↦ BitVec.ofNat 32 ((3 - i) * w * 397 % 1000)) (fun _ ↦ 0)
    (fun o ↦ Partitions 524416 o.chunks ∧ o.answer.Pairwise (fun x y ↦ x.toNat ≤ y.toNat) ∧
      o.answer.Perm (prefixes o.chunks fun i w ↦ BitVec.ofNat 32 ((3 - i) * w * 397 % 1000)))
    fun _ ↦ 0 := by
  apply batchLaunch_sorts _ _ 524416 (by decide) (by decide) (by decide) (by decide) (by decide)
  intro i w _
  have hlt : (3 - i) * w * 397 % 1000 < 1000 := Nat.mod_lt _ (by decide)
  rw [BitVec.toNat_ofNat]
  exact Nat.mod_lt_of_lt (hlt.trans (by decide))

end QHGPU.BatchService
