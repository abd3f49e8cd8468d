import Mathlib.Data.List.Nodup
import QHGPU.Kernel.Objects

/-!
# Set-up of the slots, and mappings of the device

`QHGPU_IOC_SET_MMAP`, `qhgpu_mmap` and `vm_fault`, `src/qhgpu/main.c:496–640`, around the
request path. What `vmalloc` and `__get_free_pages` return is an argument; a `vmalloc`ed array
is the memory from its start, not cleared. Buffers are numbered in the order of their
allocation; the driver frees none.
-/

namespace QHGPU.Kernel

/-- One mapping of the device, with the value of `mmap_count` it was bound with and the number
of the buffer that this slot has. -/
structure Vma where
  pgoff : Nat
  npages : Nat
  privateData : Word
  index : Nat
  slot : Option Nat
  deriving DecidableEq, Repr

/-- The request path, the two variables of `qhgpu_mmap`, and the history: all buffers, the
number of the buffer of slot 0, and the mappings. -/
structure Device where
  kernel : State
  mmapAddrArr : Option (Nat → Word)
  mmapCount : Nat
  buffers : List Word
  first : Nat
  vmas : List Vma

/-- After `mod_init`: no table, no buffer, no mapping. -/
def Device.load : Device := ⟨.start 0 (fun _ ↦ 0) .zeroed, none, 0, [], 0, []⟩

/-- What Linux answers during one `QHGPU_IOC_SET_MMAP`: the memory of the four arrays, and the
result of each `__get_free_pages`, 0 when it fails. -/
structure SetMmapEnv where
  checker : Int → Int
  kmmapAddrs : Int → Word
  mmapAddrs : Nat → Word
  modules : Int → Word
  freePages : Nat → Word

/-- The loop `for(i=0;i<arg;i++)`, `src/qhgpu/main.c:511–519`, from index `i` with `left`
entries to go: the value returned, `mmap_addr_arr`, and the buffers obtained. -/
def fillAddrs (freePages : Nat → Word) : Nat → Nat → (Nat → Word) →
    Int × (Nat → Word) × List Word
  | _, 0, addrs => (0, addrs, [])
  | i, left + 1, addrs =>
    let addrs := Function.update addrs i (freePages i)
    if freePages i = 0 then (-1, addrs, [])
    else
      let (ret, addrs, bufs) := fillAddrs freePages (i + 1) left addrs
      (ret, addrs, freePages i :: bufs)

/-- `QHGPU_IOC_SET_MMAP`, `src/qhgpu/main.c:496–520`. The old arrays are forgotten, and
`mmap_count` is not touched. -/
def qhgpuSetMmap (d : Device) (n : Nat) (env : SetMmapEnv) : Int × Device :=
  let (ret, addrs, bufs) := fillAddrs env.freePages 0 n env.mmapAddrs
  (ret, { d with
    kernel := { d.kernel with
      moduleCnt := n
      moduleActiveChecker := env.checker
      kmmapAddrArr := env.kmmapAddrs
      moduleArr := env.modules }
    mmapAddrArr := some addrs
    buffers := d.buffers ++ bufs
    first := d.buffers.length })

/-- The next slot is bound to buffer address `data`, by a mapping of `npages` pages. -/
def Device.bind (d : Device) (npages pgoff : Nat) (data : Word) : Device :=
  { d with
    kernel := { d.kernel with
      kmmapAddrArr := Function.update d.kernel.kmmapAddrArr d.mmapCount data }
    mmapCount := d.mmapCount + 1
    vmas := d.vmas ++ [{
      pgoff := pgoff
      npages := npages
      privateData := data
      index := d.mmapCount
      slot := if d.first + d.mmapCount < d.buffers.length then some (d.first + d.mmapCount)
        else none }] }

/-- `qhgpu_mmap`, `src/qhgpu/main.c:605–640`. Before any `QHGPU_IOC_SET_MMAP` it reads through
a null pointer. -/
def qhgpuMmap (d : Device) (npages pgoff : Nat) : Option Device :=
  d.mmapAddrArr.map fun addrs ↦ d.bind npages pgoff (addrs d.mmapCount)

/-- `virt_to_page`: the frame of a kernel address, never a null pointer. -/
def virtToPage (v : Word) : Nat := v.toNat / 2 ^ pageShift

/-- `vm_fault`, `src/qhgpu/main.c:565–595`: the page installed, or `none` for
`VM_FAULT_OOM`. -/
def vmFault (v : Vma) (pgoff : Nat) : Option Nat :=
  if v.privateData = 0 then none
  else some (virtToPage (v.privateData + BitVec.ofNat 64 pgoff <<< pageShift))

/-- `2^10` pages of 4096 bytes. -/
def bufferBytes : Nat := 2 ^ 10 * 2 ^ pageShift

/-- Linux hands out no buffer twice, and each at a multiple of its size. -/
def SetMmapEnv.Fresh (env : SetMmapEnv) (n : Nat) (buffers : List Word) : Prop :=
  (buffers ++ (fillAddrs env.freePages 0 n env.mmapAddrs).2.2).Nodup ∧
    ∀ a ∈ (fillAddrs env.freePages 0 n env.mmapAddrs).2.2, a.toNat % bufferBytes = 0

instance (env : SetMmapEnv) (n : Nat) (buffers : List Word) :
    Decidable (env.Fresh n buffers) :=
  inferInstanceAs (Decidable (_ ∧ _))

/-- What can happen on the device. The other `ioctl` commands change nothing here. -/
inductive DeviceAct where
  | setMmap (n : Nat) (env : SetMmapEnv)
  | mmap (npages pgoff : Nat)
  | setGpuBufs (env : MempoolEnv) (v2page : Word → Page) (gb : QhgpuGpuMemInfo)
  | kernel (a : Act)

/-- One step. An `int` holds the number of slots; a mapping has a page, and its offset is
a file position in pages. An allocation reads the tables of the slots. -/
def deviceStep (d : Device) : DeviceAct → Option Device
  | .setMmap n env =>
    if n < 2 ^ 31 ∧ env.Fresh n d.buffers then some (qhgpuSetMmap d n env).2 else none
  | .mmap npages pgoff =>
    if 0 < npages ∧ pgoff < 2 ^ 52 then qhgpuMmap d npages pgoff else none
  | .setGpuBufs env v2page gb =>
    some { d with kernel := { d.kernel with
      gmpool := (setGpuMempool env v2page gb d.kernel.gmpool).2 } }
  | .kernel a =>
    if a.isAlloc ∧ d.mmapAddrArr.isNone then none
    else (step d.kernel a).map fun k ↦ { d with kernel := k }

/-! ### What a step can do -/

/-- The steps of the device. -/
inductive DeviceTrans (d : Device) : DeviceAct → Device → Prop
  | setMmap {n env} (hfresh : env.Fresh n d.buffers) :
      DeviceTrans d (.setMmap n env) (qhgpuSetMmap d n env).2
  | mmap {npages pgoff addrs} (hn : 0 < npages) (hoff : pgoff < 2 ^ 52)
      (haddrs : d.mmapAddrArr = some addrs) :
      DeviceTrans d (.mmap npages pgoff) (d.bind npages pgoff (addrs d.mmapCount))
  | setGpuBufs {env v2page gb} {gmp : QhgpuMempool} :
      DeviceTrans d (.setGpuBufs env v2page gb) { d with kernel := { d.kernel with gmpool := gmp } }
  | kernel {a k} (hk : step d.kernel a = some k) :
      DeviceTrans d (.kernel a) { d with kernel := k }

variable {d d' : Device} {a : DeviceAct}

/-- Every step is one of `DeviceTrans`. -/
theorem deviceTrans_of_step (h : deviceStep d a = some d') : DeviceTrans d a d' := by
  cases a with
  | setMmap n env =>
    rw [deviceStep, Option.ite_none_right_eq_some] at h
    obtain ⟨⟨_, hfresh⟩, h⟩ := h
    obtain rfl := Option.some.inj h
    exact .setMmap hfresh
  | mmap npages pgoff =>
    rw [deviceStep, Option.ite_none_right_eq_some] at h
    obtain ⟨⟨hn, hoff⟩, h⟩ := h
    obtain ⟨addrs, haddrs, rfl⟩ := Option.map_eq_some_iff.mp h
    exact .mmap hn hoff haddrs
  | setGpuBufs env v2page gb =>
    obtain rfl := Option.some.inj h
    exact .setGpuBufs
  | kernel a =>
    rw [deviceStep] at h
    split at h
    · cases h
    · obtain ⟨k, hk, rfl⟩ := Option.map_eq_some_iff.mp h
      exact .kernel hk

/-- A command with fresh buffers for an `int` of slots is a step. -/
theorem deviceStep_setMmap {n : Nat} {env : SetMmapEnv} (hn : n < 2 ^ 31)
    (hfresh : env.Fresh n d.buffers) :
    deviceStep d (.setMmap n env) = some (qhgpuSetMmap d n env).2 := if_pos ⟨hn, hfresh⟩

/-! ### Buffers -/

/-- What the loop leaves: buffers that are not null, in consecutive entries, and all of them
when it returns 0. -/
theorem fillAddrs_spec (freePages : Nat → Word) (i left : Nat) (addrs : Nat → Word) :
    let res := fillAddrs freePages i left addrs
    (∀ a ∈ res.2.2, a ≠ 0) ∧ (∀ j < i, res.2.1 j = addrs j) ∧
      (∀ k, (hk : k < res.2.2.length) → res.2.1 (i + k) = res.2.2[k]) ∧
      (res.1 = 0 → res.2.2.length = left) := by
  induction left generalizing i addrs with
  | zero =>
    refine ⟨?_, fun _ _ ↦ rfl, ?_, fun _ ↦ rfl⟩
    · intro a ha
      cases ha
    · intro k hk
      cases hk
  | succ left ih =>
    by_cases hfail : freePages i = 0
    · simp only [fillAddrs, if_pos hfail]
      refine ⟨?_, ?_, ?_, ?_⟩
      · intro a ha
        cases ha
      · intro j hj
        exact Function.update_of_ne (Nat.ne_of_lt hj) _ _
      · intro k hk
        cases hk
      · intro h
        exact absurd h (by decide)
    · obtain ⟨hne, hkeep, hget, hlen⟩ := ih (i + 1) (Function.update addrs i (freePages i))
      simp only [fillAddrs, if_neg hfail]
      refine ⟨?_, ?_, ?_, ?_⟩
      · intro a ha
        rcases List.mem_cons.mp ha with rfl | ha
        · exact hfail
        · exact hne a ha
      · intro j hj
        rw [hkeep j (by omega), Function.update_of_ne (Nat.ne_of_lt hj)]
      · intro k hk
        cases k with
        | zero =>
          exact (hkeep i (Nat.lt_succ_self i)).trans (Function.update_self ..)
        | succ k =>
          have hnext := hget k (Nat.lt_of_succ_lt_succ hk)
          rw [Nat.add_right_comm] at hnext
          exact hnext
      · intro hret
        rw [List.length_cons, hlen hret]

/-- Every buffer is there once, at a multiple of its size, and the table of the slots and the
mappings point at buffers. -/
structure BuffersInv (d : Device) : Prop where
  nodup : d.buffers.Nodup
  aligned : ∀ a ∈ d.buffers, a.toNat % bufferBytes = 0
  nonzero : ∀ a ∈ d.buffers, a ≠ 0
  table : ∀ addrs, d.mmapAddrArr = some addrs → ∀ k, d.first + k < d.buffers.length →
    d.buffers[d.first + k]? = some (addrs k)
  bound : ∀ v ∈ d.vmas, ∀ b, v.slot = some b → d.buffers[b]? = some v.privateData

/-- After `mod_init` there is no buffer. -/
theorem buffersInv_load : BuffersInv .load where
  nodup := List.nodup_nil
  aligned a ha := by cases ha
  nonzero a ha := by cases ha
  table addrs h := by cases h
  bound v hv := by cases hv

/-- The slot of a mapping just made. -/
theorem BuffersInv.bound_new (h : BuffersInv d) {addrs : Nat → Word}
    (haddrs : d.mmapAddrArr = some addrs) {b : Nat}
    (hb : (if d.first + d.mmapCount < d.buffers.length then some (d.first + d.mmapCount)
      else none) = some b) : d.buffers[b]? = some (addrs d.mmapCount) := by
  split at hb
  · next hlt =>
    obtain rfl := Option.some.inj hb
    exact h.table addrs haddrs d.mmapCount hlt
  · cases hb

/-- A step keeps the buffers apart. -/
theorem BuffersInv.step (h : BuffersInv d) (hstep : DeviceTrans d a d') : BuffersInv d' := by
  cases hstep with
  | @setMmap n env hfresh =>
    obtain ⟨hne, _, hget, _⟩ := fillAddrs_spec env.freePages 0 n env.mmapAddrs
    refine ⟨hfresh.1, ?_, ?_, ?_, ?_⟩
    · intro a ha
      rcases List.mem_append.mp ha with ha | ha
      · exact h.aligned a ha
      · exact hfresh.2 a ha
    · intro a ha
      rcases List.mem_append.mp ha with ha | ha
      · exact h.nonzero a ha
      · exact hne a ha
    · intro addrs haddrs k hk
      obtain rfl := Option.some.inj haddrs
      have hlt : k < (fillAddrs env.freePages 0 n env.mmapAddrs).2.2.length := by
        change d.buffers.length + k < (d.buffers ++ _).length at hk
        rw [List.length_append] at hk
        exact Nat.lt_of_add_lt_add_left hk
      change (d.buffers ++ _)[d.buffers.length + k]? = _
      rw [List.getElem?_append_right (Nat.le_add_right _ _), Nat.add_sub_cancel_left,
        List.getElem?_eq_getElem hlt, ← hget k hlt, Nat.zero_add]
    · intro v hv b hb
      have hold := h.bound v hv b hb
      obtain ⟨hlt, _⟩ := List.getElem?_eq_some_iff.mp hold
      change (d.buffers ++ _)[b]? = _
      rw [List.getElem?_append_left hlt, hold]
  | @mmap npages pgoff addrs _ _ haddrs =>
    refine ⟨h.nodup, h.aligned, h.nonzero, h.table, ?_⟩
    intro v hv b hb
    rcases List.mem_append.mp hv with hv | hv
    · exact h.bound v hv b hb
    · obtain rfl := List.mem_singleton.mp hv
      exact h.bound_new haddrs hb
  | setGpuBufs | kernel => exact ⟨h.nodup, h.aligned, h.nonzero, h.table, h.bound⟩

/-! ### Small sessions -/

/-- Linux giving cleared memory, and consecutive buffers from `base` on. -/
def clearedEnv (base : Word) : SetMmapEnv where
  checker _ := 0
  kmmapAddrs _ := 0
  mmapAddrs _ := 0
  modules _ := 0
  freePages i := base + BitVec.ofNat 64 (i * bufferBytes)

/-- Two buffers in the kernel's linear map. -/
theorem fresh_clearedEnv : (clearedEnv 0xffff888000400000#64).Fresh 2 [] := by
  have hbufs : (fillAddrs (clearedEnv 0xffff888000400000#64).freePages 0 2
      (clearedEnv 0xffff888000400000#64).mmapAddrs).2.2 =
        [0xffff888000400000#64, 0xffff888000800000#64] := by decide
  rw [SetMmapEnv.Fresh, hbufs]
  constructor
  · decide
  · simp only [List.mem_cons, List.not_mem_nil, or_false, forall_eq_or_imp, forall_eq]
    constructor <;> decide

end QHGPU.Kernel
