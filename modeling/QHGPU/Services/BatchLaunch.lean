import QHGPU.Connector.Fidelity
import QHGPU.Library.Tiling
import QHGPU.System.Batch

/-!
# The batch service

`batch_launch`, `src/test_module/batch_test_module/lib/libsrv_batch.c:45–132`: the data of a
client comes through the slot buffer in chunks of `_MAX_BATCH_SIZE` words, and the result goes
back the same way.
-/

namespace QHGPU.BatchService

open Kernel (batchCount)
open QHGPU.System (BatchCmd batchCallback)
open Tiling (Tiles Covers)

/-- `uint`. -/
abbrev Key := BitVec 32

/-- The words of a slot buffer of `2^10` pages. -/
def slotWords : Nat := 2 ^ 20

/-- `int cpy_size` of round `i`, `src/test_module/batch_test_module/lib/libsrv_batch.c:66–67`;
`mmap_size` is an `int` there. -/
def cpySize (sr : QhgpuServiceRequest) (i : Nat) : Int :=
  let mmapSize := (sr.mmapSize.setWidth 32).toInt
  let size := if sr.batchSize = BitVec.ofNat 64 (i + 1) then mmapSize.tmod maxBatchSize
    else maxBatchSize
  if size = 0 then maxBatchSize else size

/-- The words of `h_keys`, which `malloc` has given room for `mmap_size` of them,
`src/test_module/batch_test_module/lib/libsrv_batch.c:59`. -/
def room (sr : QhgpuServiceRequest) : Nat := (sr.mmapSize.setWidth 32).toNat

/-- A chunk of `size` words at `offset` stays inside `h_keys` and inside the slot buffer. -/
def InRange (sr : QhgpuServiceRequest) (offset : Nat) (size : Int) : Prop :=
  0 ≤ size ∧ offset + size.toNat ≤ room sr ∧ size.toNat ≤ slotWords

instance (sr : QhgpuServiceRequest) (offset : Nat) (size : Int) :
    Decidable (InRange sr offset size) :=
  inferInstanceAs (Decidable (_ ∧ _ ∧ _))

/-- `h_keys`, the slot buffer and the locals of the first loop; the chunks copied and the
`QHGPU_IOC_BATCH_H2D` calls so far. -/
structure CopyIn where
  hKeys : Nat → Key
  slot : Nat → Key
  offset : Nat
  chunks : List (Nat × Nat)
  ioctls : Nat

/-- Round `i` of the first loop, `src/test_module/batch_test_module/lib/libsrv_batch.c:66–81`.
`sr->id` is the number of a slot, which `qhgpu_ioctl` takes as it is. `client j` is what the
client has put into the slot buffer after `j` calls. A `memcpy` that leaves a buffer, or an error
of `ioctl`, ends the run. -/
def copyInRound (k : Kernel.State) (sr : QhgpuServiceRequest) (client : Nat → Nat → Key)
    (c : CopyIn) (i : Nat) : Option CopyIn :=
  let size := cpySize sr i
  if InRange sr c.offset size then
    let c := { c with
      hKeys := fun w ↦ if c.offset ≤ w ∧ w < c.offset + size.toNat then c.slot (w - c.offset)
        else c.hKeys w
      offset := c.offset + size.toNat
      chunks := c.chunks ++ [(c.offset, size.toNat)] }
    if BitVec.ofNat 64 (i + 1) ≠ sr.batchSize then
      if (batchCallback k .batchDataLoader (BitVec.ofInt 64 sr.id)).1 < 0 then none
      else some { c with slot := client (c.ioctls + 1), ioctls := c.ioctls + 1 }
    else some c
  else none

/-- The first loop, `src/test_module/batch_test_module/lib/libsrv_batch.c:64–82`; `fresh` is what
`malloc` gives. -/
def copyIn (k : Kernel.State) (sr : QhgpuServiceRequest) (client : Nat → Nat → Key)
    (fresh : Nat → Key) : Option CopyIn :=
  StepRun.run (copyInRound k sr client) ⟨fresh, client 0, 0, [], 0⟩
    (List.range sr.batchSize.toNat)

/-- The slot buffer and the locals of the second loop; the chunks copied, and what the slot
buffer held at each `QHGPU_IOC_BATCH_D2H`. -/
structure CopyOut where
  slot : Nat → Key
  offset : Nat
  chunks : List (Nat × Nat)
  presented : List (Nat → Key)

/-- Round `i` of the second loop, `src/test_module/batch_test_module/lib/libsrv_batch.c:112–126`. -/
def copyOutRound (k : Kernel.State) (sr : QhgpuServiceRequest) (hKeys : Nat → Key)
    (c : CopyOut) (i : Nat) : Option CopyOut :=
  let size := cpySize sr i
  if InRange sr c.offset size then
    let slot := fun w ↦ if w < size.toNat then hKeys (c.offset + w) else c.slot w
    if (batchCallback k .batchDataResult (BitVec.ofInt 64 sr.id)).1 < 0 then none
    else some ⟨slot, c.offset + size.toNat, c.chunks ++ [(c.offset, size.toNat)],
      c.presented ++ [slot]⟩
  else none

/-- The second loop, `src/test_module/batch_test_module/lib/libsrv_batch.c:110–128`. -/
def copyOut (k : Kernel.State) (sr : QhgpuServiceRequest) (hKeys slot : Nat → Key) :
    Option CopyOut :=
  StepRun.run (copyOutRound k sr hKeys) ⟨slot, 0, [], []⟩ (List.range sr.batchSize.toNat)

/-- The first `len` words. -/
def prefixOf (f : Nat → Key) (len : Nat) : List Key := (List.range len).map f

/-- The prefixes of `contents`, each as long as its chunk. -/
def prefixes (chunks : List (Nat × Nat)) (contents : Nat → Nat → Key) : List Key :=
  (chunks.zipIdx).flatMap fun c ↦ prefixOf (contents c.2) c.1.2

/-- The chunks of a loop: one behind the other over all `n` words, with each word in exactly
one of them. -/
structure Partitions (n : Nat) (chunks : List (Nat × Nat)) : Prop where
  tiles : Tiles maxBatchSize.toNat 0 chunks n
  covers : ∀ w < n, ∃! i, Covers chunks i w

/-- The first loop has put the client's data together. -/
structure Gathered (n : Nat) (sr : QhgpuServiceRequest) (client : Nat → Nat → Key)
    (fresh : Nat → Key) (c : CopyIn) : Prop extends Partitions n c.chunks where
  ioctls : c.ioctls + 1 = sr.batchSize.toNat
  hKeys : prefixOf c.hKeys n = prefixes c.chunks client
  beyond : ∀ w, n ≤ w → c.hKeys w = fresh w

/-- The second loop has shown the client all words of `h_keys`, one call for each chunk. -/
structure Scattered (n : Nat) (hKeys : Nat → Key) (chunks : List (Nat × Nat)) (c : CopyOut) :
    Prop extends Partitions n c.chunks where
  same : c.chunks = chunks
  ioctls : c.presented.length = c.chunks.length
  presented : prefixes c.chunks (fun i ↦ c.presented.getD i fun _ ↦ 0) = prefixOf hKeys n

/-! ### Sizes -/

/-- `cnt` chunks for `n` words: all full but the last, which has the rest. -/
structure Plan (sr : QhgpuServiceRequest) (n cnt : Nat) : Prop where
  room : room sr = n
  count : sr.batchSize.toNat = cnt
  full : ∀ i, i + 1 < cnt → cpySize sr i = 2 ^ 18
  last : ∀ i, i + 1 = cnt → cpySize sr i = ((n - i * 2 ^ 18 : Nat) : Int)
  lower : (cnt - 1) * 2 ^ 18 < n
  upper : n ≤ cnt * 2 ^ 18

/-- The ceiling division of `qhgpu_alloc_request`. -/
theorem batchCount_natCast {m : Nat} (hpos : 0 < m) : ∃ cnt : Nat, batchCount m = cnt ∧
    0 < cnt ∧ (cnt - 1) * 2 ^ 18 < m ∧ m ≤ cnt * 2 ^ 18 := by
  have hmod : (m : Int).tmod maxBatchSize = ((m % 2 ^ 18 : Nat) : Int) := (Int.ofNat_tmod ..).symm
  have hdiv : (m : Int).tdiv maxBatchSize = ((m / 2 ^ 18 : Nat) : Int) := (Int.ofNat_tdiv ..).symm
  rw [batchCount, hmod, hdiv]
  split
  · refine ⟨m / 2 ^ 18, rfl, ?_⟩
    omega
  · refine ⟨m / 2 ^ 18 + 1, by omega, ?_⟩
    omega

/-- What `qhgpu_alloc_request` computes fits what `batch_launch` makes of it. -/
theorem plan_of_alloc {sr : QhgpuServiceRequest} {n : Int} (hpos : 0 < n) (hint : n < 2 ^ 31)
    (hsize : sr.mmapSize = BitVec.ofInt 64 n)
    (hbatch : sr.batchSize = BitVec.ofInt 64 (batchCount n)) :
    Plan sr n.toNat (batchCount n).toNat := by
  obtain ⟨m, rfl⟩ : ∃ m : Nat, n = m := ⟨n.toNat, by omega⟩
  obtain ⟨cnt, hcnt, hcpos, hlower, hupper⟩ := batchCount_natCast (m := m) (by omega)
  rw [hcnt, BitVec.ofInt_natCast] at hbatch
  rw [BitVec.ofInt_natCast] at hsize
  have hroom : (sr.mmapSize.setWidth 32).toNat = m := by
    rw [hsize, BitVec.toNat_setWidth, BitVec.toNat_ofNat]
    omega
  have hint : (sr.mmapSize.setWidth 32).toInt = m := by
    rw [BitVec.toInt_eq_toNat_of_lt (by omega), hroom]
  have hmod : (m : Int).tmod maxBatchSize = ((m % 2 ^ 18 : Nat) : Int) := (Int.ofNat_tmod ..).symm
  have hlastRound {i : Nat} (hi : i < cnt) :
      sr.batchSize = BitVec.ofNat 64 (i + 1) ↔ i + 1 = cnt := by
    rw [hbatch, ← BitVec.toNat_inj, BitVec.toNat_ofNat, BitVec.toNat_ofNat]
    omega
  rw [hcnt, Int.toNat_natCast, Int.toNat_natCast]
  refine ⟨hroom, ?_, ?_, ?_, hlower, hupper⟩
  · rw [hbatch, BitVec.toNat_ofNat]
    omega
  · intro i hi
    rw [cpySize]
    rw [if_neg (mt (hlastRound (by omega)).mp (by omega)), if_neg (by decide)]
    rfl
  · intro i hi
    rw [cpySize]
    rw [if_pos ((hlastRound (by omega)).mpr hi), hint, hmod]
    split
    · rw [show maxBatchSize = ((2 ^ 18 : Nat) : Int) from rfl]
      omega
    · omega

/-- The length of chunk `i`. -/
def Plan.len (n cnt i : Nat) : Nat := if i + 1 < cnt then 2 ^ 18 else n - i * 2 ^ 18

/-- The words copied in the first `j` rounds. -/
def Plan.upTo (n cnt j : Nat) : Nat := if j < cnt then j * 2 ^ 18 else n

/-- The first `j` chunks. -/
def Plan.chunks (n cnt j : Nat) : List (Nat × Nat) :=
  (List.range j).map fun i ↦ (upTo n cnt i, len n cnt i)

private theorem Plan.length_chunks (n cnt j : Nat) : (Plan.chunks n cnt j).length = j := by
  rw [Plan.chunks, List.length_map, List.length_range]

private theorem Plan.chunks_succ (n cnt j : Nat) :
    Plan.chunks n cnt (j + 1) = Plan.chunks n cnt j ++ [(upTo n cnt j, len n cnt j)] := by
  rw [Plan.chunks, List.range_succ, List.map_append]
  rfl

section

variable {sr : QhgpuServiceRequest} {n cnt i : Nat}

private theorem Plan.size_eq (h : Plan sr n cnt) (hi : i < cnt) :
    cpySize sr i = (len n cnt i : Nat) := by
  rw [len]
  split
  · next hlt => exact h.full i hlt
  · exact h.last i (by omega)

private theorem Plan.len_pos (h : Plan sr n cnt) (hi : i < cnt) :
    0 < len n cnt i ∧ len n cnt i ≤ 2 ^ 18 := by
  have := h.lower
  have := h.upper
  rw [len]
  split
  · omega
  · have : i = cnt - 1 := by omega
    subst this
    omega

private theorem Plan.upTo_succ (h : Plan sr n cnt) (hi : i < cnt) :
    upTo n cnt i + len n cnt i = upTo n cnt (i + 1) := by
  have := h.lower
  rw [upTo, upTo, len, if_pos hi]
  split
  · omega
  · have : i = cnt - 1 := by omega
    subst this
    omega

private theorem Plan.upTo_le (h : Plan sr n cnt) (i : Nat) : upTo n cnt i ≤ n := by
  have := h.lower
  rw [upTo]
  split
  · have : i * 2 ^ 18 ≤ (cnt - 1) * 2 ^ 18 := Nat.mul_le_mul_right _ (by omega)
    omega
  · exact Nat.le_refl n

private theorem Plan.inRange (h : Plan sr n cnt) (hi : i < cnt) :
    InRange sr (upTo n cnt i) (cpySize sr i) := by
  have hsucc := h.upTo_succ hi
  have hle := h.upTo_le (i + 1)
  have hlen := (h.len_pos hi).2
  rw [InRange, h.size_eq hi, h.room, slotWords, Int.toNat_natCast]
  omega

/-! ### Contents -/

private theorem prefixOf_add (f : Nat → Key) (a b : Nat) :
    prefixOf f (a + b) = prefixOf f a ++ prefixOf (fun w ↦ f (a + w)) b := by
  rw [prefixOf, List.range_add, List.map_append, List.map_map]
  rfl

private theorem prefixOf_congr {f g : Nat → Key} {len : Nat} (h : ∀ w < len, f w = g w) :
    prefixOf f len = prefixOf g len := List.map_congr_left fun w hw ↦ h w (List.mem_range.mp hw)

private theorem prefixes_snoc (chunks : List (Nat × Nat)) (contents : Nat → Nat → Key)
    (start len : Nat) :
    prefixes (chunks ++ [(start, len)]) contents =
      prefixes chunks contents ++ prefixOf (contents chunks.length) len := by
  rw [prefixes, List.zipIdx_append, List.flatMap_append]
  simp [prefixes]

/-! ### The first loop -/

variable {client : Nat → Nat → Key} {fresh : Nat → Key}

/-- After `j` rounds. -/
structure InAt (n cnt : Nat) (client : Nat → Nat → Key) (fresh : Nat → Key) (j : Nat)
    (c : CopyIn) : Prop where
  offset : c.offset = Plan.upTo n cnt j
  chunks : c.chunks = Plan.chunks n cnt j
  ioctls : c.ioctls = min j (cnt - 1)
  slot : c.slot = client c.ioctls
  tiles : Tiles maxBatchSize.toNat 0 c.chunks c.offset
  hKeys : prefixOf c.hKeys c.offset = prefixes c.chunks client
  beyond : ∀ w, c.offset ≤ w → c.hKeys w = fresh w

private theorem ioctl_succeeds (k : Kernel.State) (cmd : BatchCmd) (arg : Word) :
    ¬(batchCallback k cmd arg).1 < 0 := Int.lt_irrefl 0

/-- `memcpy` of a chunk behind what is there. -/
def CopyIn.copied (c : CopyIn) (len : Nat) : CopyIn :=
  { c with
    hKeys := fun w ↦ if c.offset ≤ w ∧ w < c.offset + len then c.slot (w - c.offset)
      else c.hKeys w
    offset := c.offset + len
    chunks := c.chunks ++ [(c.offset, len)] }

private theorem copied_hKeys (c : CopyIn) (len : Nat) :
    prefixOf (c.copied len).hKeys (c.offset + len) =
      prefixOf c.hKeys c.offset ++ prefixOf c.slot len := by
  rw [prefixOf_add]
  congr 1
  · refine prefixOf_congr ?_
    intro w hw
    rw [CopyIn.copied]
    dsimp only
    rw [if_neg (by omega)]
  · refine prefixOf_congr ?_
    intro w hw
    rw [CopyIn.copied]
    dsimp only
    rw [if_pos (by omega), Nat.add_sub_cancel_left]

private theorem inAt_round (h : Plan sr n cnt) (k : Kernel.State) {j : Nat} (hj : j < cnt)
    {c : CopyIn}
    (hc : InAt n cnt client fresh j c) :
    ∃ c', copyInRound k sr client c j = some c' ∧ InAt n cnt client fresh (j + 1) c' := by
  have hrange : InRange sr c.offset (cpySize sr j) := by
    rw [hc.offset]
    exact h.inRange hj
  obtain ⟨hpos, hlimit⟩ := h.len_pos hj
  have hioctls : c.ioctls = j := by
    rw [hc.ioctls]
    omega
  have hoffset : c.offset + Plan.len n cnt j = Plan.upTo n cnt (j + 1) := by
    rw [hc.offset]
    exact h.upTo_succ hj
  have hkeys : prefixOf (c.copied (Plan.len n cnt j)).hKeys (c.offset + Plan.len n cnt j) =
      prefixes (c.chunks ++ [(c.offset, Plan.len n cnt j)]) client := by
    rw [copied_hKeys, prefixes_snoc, hc.hKeys, hc.slot, hioctls]
    rw [hc.chunks, Plan.length_chunks]
  have hbeyond (w : Nat) (hw : c.offset + Plan.len n cnt j ≤ w) :
      (c.copied (Plan.len n cnt j)).hKeys w = fresh w := by
    rw [CopyIn.copied]
    dsimp only
    rw [if_neg (by omega)]
    exact hc.beyond w (by omega)
  have hchunks : c.chunks ++ [(c.offset, Plan.len n cnt j)] = Plan.chunks n cnt (j + 1) := by
    rw [Plan.chunks_succ, hc.chunks, hc.offset]
  have hmore : BitVec.ofNat 64 (j + 1) ≠ sr.batchSize ↔ j + 1 < cnt := by
    rw [Ne, ← BitVec.toNat_inj, h.count, BitVec.toNat_ofNat]
    have := sr.batchSize.isLt
    have := h.count
    omega
  have hround : copyInRound k sr client c j = some (if j + 1 < cnt then
      { c.copied (Plan.len n cnt j) with
        slot := client (c.ioctls + 1)
        ioctls := c.ioctls + 1 } else c.copied (Plan.len n cnt j)) := by
    rw [copyInRound, h.size_eq hj, Int.toNat_natCast, if_pos (h.size_eq hj ▸ hrange)]
    by_cases hlt : j + 1 < cnt
    · rw [if_pos hlt, if_pos (hmore.mpr hlt), if_neg (ioctl_succeeds _ _ _)]
      rfl
    · rw [if_neg hlt, if_neg (mt hmore.mp hlt)]
      rfl
  refine ⟨_, hround, ?_⟩
  split
  · next hlt =>
    refine ⟨hoffset, hchunks, ?_, rfl, hc.tiles.snoc hpos hlimit, hkeys, hbeyond⟩
    show c.ioctls + 1 = min (j + 1) (cnt - 1)
    omega
  · next hlt =>
    refine ⟨hoffset, hchunks, ?_, hc.slot, hc.tiles.snoc hpos hlimit, hkeys, hbeyond⟩
    show c.ioctls = min (j + 1) (cnt - 1)
    omega

/-- The first loop, whatever the client puts into the slot buffer. -/
theorem copyIn_gathers (h : Plan sr n cnt) (k : Kernel.State) (client : Nat → Nat → Key)
    (fresh : Nat → Key) : ∃ c, copyIn k sr client fresh = some c ∧
      c.chunks = Plan.chunks n cnt cnt ∧ Gathered n sr client fresh c := by
  have hcnt : 0 < cnt := by
    have := h.lower
    have := h.upper
    omega
  have hstart : InAt n cnt client fresh 0 ⟨fresh, client 0, 0, [], 0⟩ := by
    refine ⟨?_, rfl, (Nat.zero_min _).symm, rfl, rfl, rfl, fun _ _ ↦ rfl⟩
    rw [Plan.upTo, if_pos hcnt, Nat.zero_mul]
  obtain ⟨c, hrun, hc⟩ := StepRun.run_range (fun j hj c ↦ inAt_round h k hj) hstart
  have hoffset : c.offset = n := by
    rw [hc.offset, Plan.upTo, if_neg (Nat.lt_irrefl cnt)]
  rw [← h.count] at hrun
  refine ⟨c, hrun, hc.chunks, ⟨?_, ?_⟩, ?_, ?_, ?_⟩
  · rw [← hoffset]
    exact hc.tiles
  · intro w hw
    rw [← hoffset] at hw
    exact hc.tiles.covers_unique (Nat.zero_le w) hw
  · rw [h.count, hc.ioctls]
    omega
  · rw [← hoffset]
    exact hc.hKeys
  · intro w hw
    rw [← hoffset] at hw
    exact hc.beyond w hw

/-! ### The second loop -/

/-- After `j` rounds. -/
structure OutAt (n cnt : Nat) (hKeys : Nat → Key) (j : Nat) (c : CopyOut) : Prop where
  offset : c.offset = Plan.upTo n cnt j
  chunks : c.chunks = Plan.chunks n cnt j
  ioctls : c.presented.length = j
  tiles : Tiles maxBatchSize.toNat 0 c.chunks c.offset
  presented : prefixes c.chunks (fun i ↦ c.presented.getD i fun _ ↦ 0) = prefixOf hKeys c.offset

/-- What earlier calls have shown is not affected by a further one. -/
theorem prefixes_congr {chunks : List (Nat × Nat)} {f g : Nat → Nat → Key}
    (h : ∀ i < chunks.length, f i = g i) : prefixes chunks f = prefixes chunks g := by
  rw [prefixes, prefixes]
  refine List.flatMap_congr ?_
  rintro ⟨chunk, i⟩ hmem
  have hi : i < chunks.length := by
    have := List.snd_lt_of_mem_zipIdx hmem
    omega
  rw [h i hi]

/-- A chunk of `len` words put into the slot buffer and shown to the client. -/
def CopyOut.shown (c : CopyOut) (hKeys : Nat → Key) (len : Nat) : CopyOut :=
  let slot := fun w ↦ if w < len then hKeys (c.offset + w) else c.slot w
  ⟨slot, c.offset + len, c.chunks ++ [(c.offset, len)], c.presented ++ [slot]⟩

private theorem outAt_round (h : Plan sr n cnt) (k : Kernel.State) {hKeys : Nat → Key} {j : Nat}
    (hj : j < cnt) {c : CopyOut} (hc : OutAt n cnt hKeys j c) :
    ∃ c', copyOutRound k sr hKeys c j = some c' ∧ OutAt n cnt hKeys (j + 1) c' := by
  have hrange : InRange sr c.offset (cpySize sr j) := by
    rw [hc.offset]
    exact h.inRange hj
  obtain ⟨hpos, hlimit⟩ := h.len_pos hj
  rw [h.size_eq hj] at hrange
  have hround : copyOutRound k sr hKeys c j = some (c.shown hKeys (Plan.len n cnt j)) := by
    rw [copyOutRound, h.size_eq hj, if_pos hrange, if_neg (ioctl_succeeds _ _ _), Int.toNat_natCast]
    rfl
  refine ⟨_, hround, ?_, ?_, ?_, hc.tiles.snoc hpos hlimit, ?_⟩
  · show c.offset + Plan.len n cnt j = Plan.upTo n cnt (j + 1)
    rw [hc.offset]
    exact h.upTo_succ hj
  · show c.chunks ++ [(c.offset, Plan.len n cnt j)] = Plan.chunks n cnt (j + 1)
    rw [Plan.chunks_succ, hc.chunks, hc.offset]
  · rw [CopyOut.shown, List.length_append, hc.ioctls, List.length_singleton]
  · have hlength : c.chunks.length = c.presented.length := by
      rw [hc.chunks, Plan.length_chunks, hc.ioctls]
    rw [CopyOut.shown]
    dsimp only
    rw [prefixes_snoc, prefixOf_add, hlength, ← hc.presented]
    congr 1
    · refine prefixes_congr ?_
      intro i hi
      rw [List.getD_append _ _ _ _ (by omega)]
    · rw [List.getD_append_right _ _ _ _ (Nat.le_refl _), Nat.sub_self]
      refine prefixOf_congr ?_
      intro w hw
      rw [List.getD_cons_zero, if_pos hw]

/-- The second loop, whatever `h_keys` and the slot buffer hold. -/
theorem copyOut_scatters (h : Plan sr n cnt) (k : Kernel.State) (hKeys slot : Nat → Key) :
    ∃ c, copyOut k sr hKeys slot = some c ∧
      Scattered n hKeys (Plan.chunks n cnt cnt) c := by
  have hcnt : 0 < cnt := by
    have := h.lower
    have := h.upper
    omega
  have hstart : OutAt n cnt hKeys 0 ⟨slot, 0, [], []⟩ := by
    refine ⟨?_, rfl, rfl, rfl, rfl⟩
    rw [Plan.upTo, if_pos hcnt, Nat.zero_mul]
  obtain ⟨c, hrun, hc⟩ := StepRun.run_range (fun j hj c ↦ outAt_round h k hj) hstart
  have hoffset : c.offset = n := by
    rw [hc.offset, Plan.upTo, if_neg (Nat.lt_irrefl cnt)]
  rw [← h.count] at hrun
  refine ⟨c, hrun, ⟨?_, ?_⟩, hc.chunks, ?_, ?_⟩
  · rw [← hoffset]
    exact hc.tiles
  · intro w hw
    rw [← hoffset] at hw
    exact hc.tiles.covers_unique (Nat.zero_le w) hw
  · rw [hc.ioctls, hc.chunks, Plan.length_chunks]
  · rw [← hoffset]
    exact hc.presented

end

/-- For every data size and the count that `qhgpu_alloc_request` computes for it, every sequence
of contents of the slot buffer, and whatever `h_keys` holds when the second loop starts. -/
theorem batch_tiles (k : Kernel.State) (sr : QhgpuServiceRequest) (n : Int) (hpos : 0 < n)
    (hint : n < 2 ^ 31) (hsize : sr.mmapSize = BitVec.ofInt 64 n)
    (hbatch : sr.batchSize = BitVec.ofInt 64 (batchCount n)) (client : Nat → Nat → Key)
    (fresh hKeys slot : Nat → Key) :
    ∃ c o, copyIn k sr client fresh = some c ∧ Gathered n.toNat sr client fresh c ∧
      copyOut k sr hKeys slot = some o ∧ Scattered n.toNat hKeys c.chunks o := by
  have h := plan_of_alloc hpos hint hsize hbatch
  obtain ⟨c, hin, hchunks, hgathered⟩ := copyIn_gathers h k client fresh
  obtain ⟨o, hout, hscattered⟩ := copyOut_scatters h k hKeys slot
  exact ⟨c, o, hin, hgathered, hout, hchunks ▸ hscattered⟩

/-- A request of 600000 words. -/
def threeBatches : QhgpuServiceRequest :=
  { QhgpuServiceRequest.zeroed with mmapSize := 600000, batchSize := 3 }

/-- Two chunks of 2^18 words and one of 75712; the client puts other keys into the slot buffer
for each, and the results differ word by word. -/
theorem batch_tiles_three : ∃ c o,
    copyIn (.start 1 (fun _ ↦ 0) .zeroed) threeBatches (fun j w ↦ (j + 1) * (w + 5)) (fun _ ↦ 0) =
      some c ∧
    Gathered 600000 threeBatches (fun j w ↦ (j + 1) * (w + 5)) (fun _ ↦ 0) c ∧
    copyOut (.start 1 (fun _ ↦ 0) .zeroed) threeBatches (fun w ↦ w / 3) (fun _ ↦ 11) = some o ∧
    Scattered 600000 (fun w ↦ w / 3) c.chunks o :=
  batch_tiles _ threeBatches 600000 (by decide) (by decide) (by decide) (by decide) _ _ _ _

/-- The record that the daemon makes has no batch count: nothing is copied for it. -/
theorem copyIn_of_launchReceives {d : Connector.Daemon} {s : Connector.State}
    {kureq : QhgpuKuRequest} {sr : QhgpuServiceRequest}
    (h : Connector.launchReceives d s kureq = some sr) (k : Kernel.State)
    (client : Nat → Nat → Key) (fresh : Nat → Key) :
    copyIn k sr client fresh = some ⟨fresh, client 0, 0, [], 0⟩ := by
  obtain ⟨service, _, rfl⟩ := Connector.launchReceives_some h
  rfl

end QHGPU.BatchService
