import QHGPU.Kernel.Mapping
import QHGPU.Kernel.PoolRegistration

/-!
# Set-up commands that fail

`QHGPU_IOC_SET_GPU_BUFS` and `QHGPU_IOC_SET_MMAP` with every pattern of allocation failures.
The arrays of the slots are told apart by where `vmalloc` puts them.
-/

namespace QHGPU.Kernel

/-- A `vmalloc`ed array: its address, and the memory from there. -/
structure VArray (α : Type) where
  addr : Word
  get : Nat → α

/-- The pool descriptor, the number of slots and their four arrays; `none` is a null pointer. -/
structure SetUpState where
  gmpool : QhgpuMempool
  moduleCnt : Int
  moduleActiveChecker : Option (VArray Int)
  kmmapAddrArr : Option (VArray Word)
  mmapAddrArr : Option (VArray Word)
  moduleArr : Option (VArray Word)

/-- What Linux answers during one `QHGPU_IOC_SET_MMAP`: the result of each `vmalloc`, and of each
`__get_free_pages`, 0 when it fails. -/
structure SlotAnswers where
  moduleActiveChecker : Option (VArray Int)
  kmmapAddrArr : Option (VArray Word)
  mmapAddrArr : Option (VArray Word)
  moduleArr : Option (VArray Word)
  freePages : Nat → Word

/-- `QHGPU_IOC_SET_MMAP`, `src/qhgpu/main.c:496–520`. No result of `vmalloc` is tested: the loop
writes through a null pointer. -/
def ioctlSetMmap (s : SetUpState) (arg : Word) (ans : SlotAnswers) : Option (Int × SetUpState) :=
  let s := { s with
    moduleCnt := (arg.setWidth 32).toInt
    moduleActiveChecker := ans.moduleActiveChecker
    kmmapAddrArr := ans.kmmapAddrArr
    mmapAddrArr := ans.mmapAddrArr
    moduleArr := ans.moduleArr }
  if arg = 0 then some (0, s)
  else ans.mmapAddrArr.map fun arr ↦
    let (ret, addrs, _) := fillAddrs ans.freePages 0 arg.toNat arr.get
    (ret, { s with mmapAddrArr := some { arr with get := addrs } })

/-- A command that sets up the device, with its argument; `r` has what lies there. -/
inductive SetUpCmd where
  | setGpuBufs (arg : Word) (r : Registration)
  | setMmap (arg : Word) (ans : SlotAnswers)

/-- The two cases of the `switch`, `src/qhgpu/main.c:491–520`. -/
def setUpSwitch (s : SetUpState) : SetUpCmd → Option (Int × SetUpState)
  | .setGpuBufs _ r =>
    let (ret, gmp) := setGpuMempool r.env r.v2page r.gb s.gmpool
    some (ret, { s with gmpool := gmp })
  | .setMmap arg ans => ioctlSetMmap s arg ans

/-- The argument of the command. -/
def SetUpCmd.arg : SetUpCmd → Word
  | .setGpuBufs arg _ => arg
  | .setMmap arg _ => arg

/-- `qhgpu_ioctl` with a set-up command, `src/qhgpu/main.c:474–545`: the value returned, and the
state left. -/
def setUpIoctl (s : SetUpState) (cmd : SetUpCmd) : Option (Int × SetUpState) :=
  if ioctlAccepts cmd.arg then setUpSwitch s cmd else some (-efault, s)

/-- The descriptor with the contents of its two arrays, the number of slots and their arrays are
the same. The page list is not looked at. -/
structure SetUpState.Same (s s' : SetUpState) : Prop where
  uva : s'.gmpool.uva = s.gmpool.uva
  kva : s'.gmpool.kva = s.gmpool.kva
  npages : s'.gmpool.npages = s.gmpool.npages
  nunits : s'.gmpool.nunits = s.gmpool.nunits
  bitmap : s'.gmpool.bitmap = s.gmpool.bitmap
  allocSz : s'.gmpool.allocSz = s.gmpool.allocSz
  moduleCnt : s'.moduleCnt = s.moduleCnt
  moduleActiveChecker : s'.moduleActiveChecker = s.moduleActiveChecker
  kmmapAddrArr : s'.kmmapAddrArr = s.kmmapAddrArr
  mmapAddrArr : s'.mmapAddrArr = s.mmapAddrArr
  moduleArr : s'.moduleArr = s.moduleArr

/-- A command that returns an error has changed nothing. -/
def ErrorKeeps (s : SetUpState) (cmd : SetUpCmd) : Prop :=
  ∀ ret s', setUpIoctl s cmd = some (ret, s') → ret ≠ 0 → s.Same s'

/-- `vmalloc` gives no address that is in use. -/
def SetUpCmd.Fresh (s : SetUpState) : SetUpCmd → Prop
  | .setGpuBufs _ _ => True
  | .setMmap _ ans => ∀ old new, s.mmapAddrArr = some old → ans.mmapAddrArr = some new →
      new.addr ≠ old.addr

/-- A registration that fails has overwritten, up to the failure, what was the same before:
address and number of pages; then the number of units; then the bits that it clears; then the
lengths that it clears, and the address in the kernel. -/
def PoolKeeps (gmp : QhgpuMempool) (r : Registration) : Prop :=
  r.gb.uva = gmp.uva ∧ npagesOf r.gb.size = gmp.npages ∧
    ((gmp.pages = none ∧ r.env.kmallocPages = none) ∨
      nunitsOf r.gb.size = gmp.nunits ∧
        ((gmp.bitmap = none ∧ r.env.kmallocBitmap = none) ∨
          (∃ map, gmp.bitmap = some map ∧ bitmapZero gmp.nunits.toNat map.get = map.get) ∧
            ((gmp.allocSz = none ∧ r.env.kmallocAllocSz = none) ∨
              (∃ a, gmp.allocSz = some a ∧ memsetZero gmp.nunits.toNat a.get = a.get) ∧
                gmp.kva = 0)))

/-- When a command leaves no trace: `access_ok` rejects the argument, nothing fails, or a
registration finds what it writes. -/
def SetUpCmd.NoTrace (s : SetUpState) : SetUpCmd → Prop
  | .setGpuBufs arg r => ioctlAccepts arg = false ∨ Obtains s.gmpool r.env ∨ PoolKeeps s.gmpool r
  | .setMmap arg ans => ioctlAccepts arg = false ∨ ans.mmapAddrArr = none ∨
      ∀ i < arg.toNat, ans.freePages i ≠ 0

variable {s : SetUpState} {cmd : SetUpCmd} {arg : Word} {gmp : QhgpuMempool} {r : Registration}

/-- A rejected command changes nothing. -/
private theorem errorKeeps_of_rejected (h : ioctlAccepts cmd.arg = false) : ErrorKeeps s cmd := by
  intro ret s' hs _
  rw [setUpIoctl, h] at hs
  obtain ⟨_, rfl⟩ := Prod.mk.inj (Option.some.inj hs)
  exact ⟨rfl, rfl, rfl, rfl, rfl, rfl, rfl, rfl, rfl, rfl, rfl⟩

/-! ### The pool -/

/-- The fields that an error must keep. -/
def PoolSame (gmp gmp' : QhgpuMempool) : Prop :=
  gmp'.uva = gmp.uva ∧ gmp'.kva = gmp.kva ∧ gmp'.npages = gmp.npages ∧
    gmp'.nunits = gmp.nunits ∧ gmp'.bitmap = gmp.bitmap ∧ gmp'.allocSz = gmp.allocSz

/-- The array after an allocation is the old one only when it was there and is not changed. -/
theorem some_update_eq_iff {α : Type} {x : Option (KArray α)} {y : Option (Nat → α)} {n : Nat}
    {z : KArray α} (h : (x <|> y.map (KArray.mk n)) = some z) (f : (Nat → α) → Nat → α) :
    some { z with get := f z.get } = x ↔ ∃ z', x = some z' ∧ f z'.get = z'.get := by
  cases x with
  | some z' =>
    obtain rfl := Option.some.inj h
    constructor
    · intro heq
      exact ⟨z', rfl, congrArg KArray.get (Option.some.inj heq)⟩
    · rintro ⟨z'', hz, heq⟩
      obtain rfl := Option.some.inj hz
      rw [heq]
  | none => simp

private theorem poolSame_iff (hnot : ¬Obtains gmp r.env) :
    PoolSame gmp (setGpuMempool r.env r.v2page r.gb gmp).2 ↔ PoolKeeps gmp r := by
  have found {α : Type} {x : Option (KArray α)} {y : Option (Nat → α)} {n : Nat} {z : KArray α}
      (h : (x <|> y.map (KArray.mk n)) = some z) : ¬(x = none ∧ y = none) := by
    intro hnone
    rw [orElse_map_eq_none.mpr hnone] at h
    cases h
  unfold PoolSame PoolKeeps
  cases hp : r.pages gmp with
  | none =>
    have hmiss := orElse_map_eq_none.mp hp
    rw [setGpuMempool_noPages hp]
    simp [hmiss]
  | some pages =>
    have hpages := found hp
    cases hb : r.bitmap gmp with
    | none =>
      have hmiss := orElse_map_eq_none.mp hb
      rw [setGpuMempool_noBitmap hp hb]
      simp [hmiss, hpages]
    | some bitmap =>
      have hbitmap := found hb
      have hmap := some_update_eq_iff hb (bitmapZero (nunitsOf r.gb.size).toNat)
      cases ha : r.allocSz gmp with
      | none =>
        have hmiss := orElse_map_eq_none.mp ha
        rw [setGpuMempool_noAllocSz hp hb ha]
        simp only [hpages, hbitmap, hmiss, hmap, true_and, and_true, true_or, false_or]
        refine and_congr_right fun _ ↦ and_congr_right fun _ ↦ and_congr_right fun hnu ↦ ?_
        rw [hnu]
      | some allocSz =>
        have hallocSz := found ha
        have hsz := some_update_eq_iff ha (memsetZero (nunitsOf r.gb.size).toNat)
        have hvmap : r.env.vmap = 0 := by
          by_contra hne
          exact hnot (obtains_iff.mpr ⟨by simp [hp], by simp [hb], by simp [ha], hne⟩)
        rw [setGpuMempool_arrays hp hb ha]
        simp only [hvmap, hpages, hbitmap, hallocSz, hmap, hsz, false_or]
        constructor
        · rintro ⟨huva, hkva, hnp, hnu, hbits, hsizes⟩
          rw [hnu] at hbits hsizes
          exact ⟨huva, hnp, hnu, hbits, hsizes, hkva.symm⟩
        · rintro ⟨huva, hnp, hnu, hbits, hsizes, hkva⟩
          rw [hnu]
          exact ⟨huva, hkva.symm, hnp, rfl, hbits, hsizes⟩

private theorem errorKeeps_setGpuBufs (harg : ioctlAccepts arg = true) :
    ErrorKeeps s (.setGpuBufs arg r) ↔ (SetUpCmd.setGpuBufs arg r).NoTrace s := by
  have hresult : setUpIoctl s (.setGpuBufs arg r) = some
      ((setGpuMempool r.env r.v2page r.gb s.gmpool).1,
        { s with gmpool := (setGpuMempool r.env r.v2page r.gb s.gmpool).2 }) := if_pos harg
  rw [SetUpCmd.NoTrace, harg, or_iff_right (by simp)]
  by_cases hobtains : Obtains s.gmpool r.env
  · refine iff_of_true ?_ (Or.inl hobtains)
    intro ret s' hs hret
    rw [hresult] at hs
    obtain ⟨rfl, _⟩ := Prod.mk.inj (Option.some.inj hs)
    exact absurd (setGpuMempool_eq_zero_iff.mpr hobtains) hret
  · rw [or_iff_right hobtains, ← poolSame_iff hobtains]
    constructor
    · intro h
      have hsame := h _ _ hresult fun hzero ↦ hobtains (setGpuMempool_eq_zero_iff.mp hzero)
      exact ⟨hsame.uva, hsame.kva, hsame.npages, hsame.nunits, hsame.bitmap, hsame.allocSz⟩
    · rintro ⟨huva, hkva, hnp, hnu, hbits, hsizes⟩ ret s' hs _
      rw [hresult] at hs
      obtain ⟨_, rfl⟩ := Prod.mk.inj (Option.some.inj hs)
      exact ⟨huva, hkva, hnp, hnu, hbits, hsizes, rfl, rfl, rfl, rfl, rfl⟩

/-! ### The slots -/

/-- The loop fails exactly when a buffer cannot be obtained. -/
theorem fillAddrs_eq_zero_iff (freePages : Nat → Word) (i left : Nat) (addrs : Nat → Word) :
    (fillAddrs freePages i left addrs).1 = 0 ↔ ∀ k < left, freePages (i + k) ≠ 0 := by
  induction left generalizing i addrs with
  | zero => simp [fillAddrs]
  | succ left ih =>
    by_cases hfail : freePages i = 0
    · rw [fillAddrs, if_pos hfail]
      refine iff_of_false (Int.neg_ne_zero.mpr Int.one_ne_zero) ?_
      intro h
      exact h 0 (Nat.succ_pos left) hfail
    · rw [fillAddrs, if_neg hfail]
      refine (ih (i + 1) _).trans ?_
      constructor
      · intro h k hk
        cases k with
        | zero => exact hfail
        | succ k =>
          have hnext := h k (Nat.lt_of_succ_lt_succ hk)
          rwa [Nat.add_right_comm] at hnext
      · intro h k hk
        have hnext := h (k + 1) (Nat.succ_lt_succ hk)
        rwa [← Nat.add_assoc, Nat.add_right_comm] at hnext

private theorem errorKeeps_setMmap {ans : SlotAnswers} (haccept : ioctlAccepts arg = true)
    (hfresh : (SetUpCmd.setMmap arg ans).Fresh s) :
    ErrorKeeps s (.setMmap arg ans) ↔ (SetUpCmd.setMmap arg ans).NoTrace s := by
  have hresult : setUpIoctl s (.setMmap arg ans) = ioctlSetMmap s arg ans := if_pos haccept
  rw [SetUpCmd.NoTrace, haccept, or_iff_right (by simp)]
  by_cases harg : arg = 0
  · subst harg
    refine iff_of_true ?_ (Or.inr fun i hi ↦ absurd hi (Nat.not_lt_zero i))
    intro ret s' hs hret
    rw [hresult, ioctlSetMmap, if_pos rfl] at hs
    obtain ⟨rfl, _⟩ := Prod.mk.inj (Option.some.inj hs)
    exact absurd rfl hret
  · cases harr : ans.mmapAddrArr with
    | none =>
      refine iff_of_true ?_ (Or.inl rfl)
      intro ret s' hs
      rw [hresult, ioctlSetMmap, if_neg harg, harr] at hs
      cases hs
    | some arr =>
      have hfill := fillAddrs_eq_zero_iff ans.freePages 0 arg.toNat arr.get
      simp only [Nat.zero_add] at hfill
      rw [or_iff_right (by simp), ← hfill]
      constructor
      · intro h
        by_contra hret
        have hsame := h (fillAddrs ans.freePages 0 arg.toNat arr.get).1 _
          (by rw [hresult, ioctlSetMmap, if_neg harg, harr]; rfl) hret
        -- the table in use is another one
        exact hfresh _ arr hsame.mmapAddrArr.symm harr rfl
      · intro hret ret s' hs hne
        rw [hresult, ioctlSetMmap, if_neg harg, harr] at hs
        obtain ⟨rfl, _⟩ := Prod.mk.inj (Option.some.inj hs)
        exact absurd hret hne

/-- For every state, command, argument and pattern of failures: an error has changed nothing
exactly when the argument is rejected, or a registration finds what it has overwritten, and every
buffer of a slot is obtained. -/
theorem errorKeeps_iff (s : SetUpState) (cmd : SetUpCmd) (hfresh : cmd.Fresh s) :
    ErrorKeeps s cmd ↔ cmd.NoTrace s := by
  cases haccept : ioctlAccepts cmd.arg with
  | false =>
    refine iff_of_true (errorKeeps_of_rejected haccept) ?_
    cases cmd with
    | setGpuBufs arg r => exact Or.inl haccept
    | setMmap arg ans => exact Or.inl haccept
  | true =>
    cases cmd with
    | setGpuBufs arg r => exact errorKeeps_setGpuBufs haccept
    | setMmap arg ans => exact errorKeeps_setMmap haccept hfresh

/-! ### The set-up of the slots on the request path -/

/-- The answers that `env` stands for, with the four arrays at `a`, `b`, `c` and `e`. -/
def SetMmapEnv.answers (env : SetMmapEnv) (a b c e : Word) : SlotAnswers where
  moduleActiveChecker := some ⟨a, fun i ↦ env.checker i⟩
  kmmapAddrArr := some ⟨b, fun i ↦ env.kmmapAddrs i⟩
  mmapAddrArr := some ⟨c, env.mmapAddrs⟩
  moduleArr := some ⟨e, fun i ↦ env.modules i⟩
  freePages := env.freePages

/-- The arrays of `s` hold the tables of the device. -/
structure Device.Shown (d : Device) (s : SetUpState) : Prop where
  moduleCnt : s.moduleCnt = d.kernel.moduleCnt
  moduleActiveChecker : s.moduleActiveChecker.map VArray.get =
    some fun i : Nat ↦ d.kernel.moduleActiveChecker i
  kmmapAddrArr : s.kmmapAddrArr.map VArray.get = some fun i : Nat ↦ d.kernel.kmmapAddrArr i
  mmapAddrArr : s.mmapAddrArr.map VArray.get = d.mmapAddrArr
  moduleArr : s.moduleArr.map VArray.get = some fun i : Nat ↦ d.kernel.moduleArr i

/-- When every `vmalloc` succeeds, the command on the request path is this one: the same value
returned, and the same tables left. -/
theorem setUpIoctl_answers (d : Device) (s : SetUpState) {n : Nat} (hn : n < 2 ^ 31)
    (env : SetMmapEnv) (a b c e : Word) :
    ∃ s', setUpIoctl s (.setMmap (BitVec.ofNat 64 n) (env.answers a b c e)) =
        some ((qhgpuSetMmap d n env).1, s') ∧ (qhgpuSetMmap d n env).2.Shown s' := by
  have htoNat : (BitVec.ofNat 64 n).toNat = n := by
    rw [BitVec.toNat_ofNat]
    omega
  have hcnt : ((BitVec.ofNat 64 n).setWidth 32).toInt = n := by
    rw [BitVec.toInt_eq_toNat_of_lt, BitVec.toNat_setWidth, htoNat]
    · omega
    · rw [BitVec.toNat_setWidth, htoNat]
      omega
  have hrun : ioctlSetMmap s (BitVec.ofNat 64 n) (env.answers a b c e) =
      some ((qhgpuSetMmap d n env).1, { s with
        moduleCnt := ((BitVec.ofNat 64 n).setWidth 32).toInt
        moduleActiveChecker := some ⟨a, fun i ↦ env.checker i⟩
        kmmapAddrArr := some ⟨b, fun i ↦ env.kmmapAddrs i⟩
        mmapAddrArr := some ⟨c, (fillAddrs env.freePages 0 n env.mmapAddrs).2.1⟩
        moduleArr := some ⟨e, fun i ↦ env.modules i⟩ }) := by
    by_cases hzero : BitVec.ofNat 64 n = 0
    · obtain rfl : n = 0 := by
        rw [← htoNat, hzero]
        rfl
      rw [ioctlSetMmap, if_pos hzero]
      rfl
    · rw [ioctlSetMmap, if_neg hzero, htoNat]
      rfl
  have haccept : ioctlAccepts (BitVec.ofNat 64 n) = true := ioctlAccepts_of_lt (by omega)
  exact ⟨_, (if_pos haccept).trans hrun, hcnt, rfl, rfl, rfl, rfl⟩

/-- A pool of eight units and one slot. -/
def oneSlot : SetUpState where
  gmpool := clearedPool
  moduleCnt := 1
  moduleActiveChecker := some ⟨0xffffc90000001000#64, fun _ ↦ 0⟩
  kmmapAddrArr := some ⟨0xffffc90000003000#64, fun _ ↦ 0⟩
  mmapAddrArr := some ⟨0xffffc90000005000#64, fun _ ↦ 0xffff888000400000#64⟩
  moduleArr := some ⟨0xffffc90000007000#64, fun _ ↦ 0⟩

/-- New arrays, and a buffer for every slot. -/
def newSlots : SlotAnswers where
  moduleActiveChecker := some ⟨0xffffc90000009000#64, fun _ ↦ 0⟩
  kmmapAddrArr := some ⟨0xffffc9000000b000#64, fun _ ↦ 0⟩
  mmapAddrArr := some ⟨0xffffc9000000d000#64, fun _ ↦ 0⟩
  moduleArr := some ⟨0xffffc9000000f000#64, fun _ ↦ 0⟩
  freePages i := 0xffff888000800000#64 + BitVec.ofNat 64 (i * bufferBytes)

/-- Two new slots in new arrays: the command returns 0. -/
theorem errorKeeps_iff_newSlots : ErrorKeeps oneSlot (.setMmap 2 newSlots) := by
  refine (errorKeeps_iff oneSlot (.setMmap 2 newSlots) ?_).mpr (Or.inr (Or.inr (by decide)))
  intro old new hold hnew
  obtain rfl := Option.some.inj hold
  obtain rfl := Option.some.inj hnew
  decide

/-- `vmap` fails for a second registration: the pool of the first is gone. -/
theorem not_errorKeeps_vmap :
    ¬∀ (s : SetUpState) (cmd : SetUpCmd), cmd.Fresh s → ErrorKeeps s cmd := by
  intro hall
  have h := hall oneSlot (.setGpuBufs 0x7ffc00001000#64 {
    env := { kmallocPages := some fun _ ↦ 0, kmallocBitmap := none, kmallocAllocSz := none, vmap := 0 }
    v2page := fun _ ↦ 0
    gb := ⟨0x7f5a00001000#64, 409600⟩ }) trivial
  exact absurd (h _ _ rfl (by decide)).kva (by decide)

end QHGPU.Kernel
