import QHGPU.Kernel.PoolAlloc

/-!
# Registration of the pool

What `QHGPU_IOC_SET_GPU_BUFS` leaves when it is called any number of times, with calls of
`qhgpu_vmalloc` and `qhgpu_vfree` in between. The arrays are allocated on the first call, the
counts are set on every call.
-/

namespace QHGPU

/-- One `QHGPU_IOC_SET_GPU_BUFS`, with what Linux answers. -/
structure Registration where
  env : MempoolEnv
  v2page : Word → Page
  gb : QhgpuGpuMemInfo

/-- A registration, or a call into the pool. -/
inductive PoolEvent where
  | register (r : Registration)
  | call (c : PoolCall)

/-- The pool afterwards; `none` is an access outside an array. -/
def poolEventStep (find : (Nat → Bool) → BitVec 32 → BitVec 32 → Word) (gmp : QhgpuMempool) :
    PoolEvent → Option QhgpuMempool
  | .register r => some (setGpuMempool r.env r.v2page r.gb gmp).2
  | .call c => poolStep find gmp c

/-- The entries of the page list that a registration of `size` bytes uses. -/
def npagesOf (size : Word) : BitVec 32 := (size / BitVec.ofNat 64 pageSize).setWidth 32

/-- The units of a registration of `size` bytes. -/
def nunitsOf (size : Word) : BitVec 32 := npagesOf size / BitVec.ofNat 32 qhgpuBufNrFramesPerUnit

/-- An empty pool within the registered size, whose arrays have an entry for every page and
every unit. -/
structure QhgpuMempool.ValidEmpty (gmp : QhgpuMempool) (size : Word) : Prop where
  cleared : gmp.Cleared
  pages : ∃ pages, gmp.pages = some pages ∧ gmp.npages.toNat ≤ pages.cap
  size_le : gmp.nunits.toNat * qhgpuBufUnitSize ≤ size.toNat

/-- The page list that the call uses: that of an earlier call, or a new one. -/
def Registration.pages (r : Registration) (gmp : QhgpuMempool) : Option (KArray Page) :=
  gmp.pages <|> r.env.kmallocPages.map (KArray.mk (npagesOf r.gb.size).toNat)

/-- The bitmap that the call uses. -/
def Registration.bitmap (r : Registration) (gmp : QhgpuMempool) : Option (KArray Bool) :=
  gmp.bitmap <|> r.env.kmallocBitmap.map (KArray.mk (64 * bitsToLongs (nunitsOf r.gb.size).toNat))

/-- The array of block lengths that the call uses. -/
def Registration.allocSz (r : Registration) (gmp : QhgpuMempool) : Option (KArray (BitVec 32)) :=
  gmp.allocSz <|> r.env.kmallocAllocSz.map (KArray.mk (nunitsOf r.gb.size).toNat)

/-- What `set_gpu_mempool` writes lies inside the arrays that it has got so far: the entries of
the page list, the words that `bitmap_zero` clears, the bytes that `memset` clears. -/
def StoresInRange (gmp : QhgpuMempool) (r : Registration) : Prop :=
  ∀ pages, r.pages gmp = some pages → (npagesOf r.gb.size).toNat ≤ pages.cap ∧
    ∀ bitmap, r.bitmap gmp = some bitmap →
      64 * bitsToLongs (nunitsOf r.gb.size).toNat ≤ bitmap.cap ∧
      ∀ allocSz, r.allocSz gmp = some allocSz → (nunitsOf r.gb.size).toNat ≤ 4 * allocSz.cap

/-- No sequence of calls, whatever the sizes and pointers, leaves the arrays. -/
def CallsInRange (find : (Nat → Bool) → BitVec 32 → BitVec 32 → Word) (gmp : QhgpuMempool) :
    Prop :=
  ∀ calls, StepRun.run (poolStep find) gmp calls ≠ none

/-- A registration that returns 0 leaves a valid empty pool; and whatever it returns, every index
that it uses is in range, and so is every index of the calls from then on. -/
def Registers (find : (Nat → Bool) → BitVec 32 → BitVec 32 → Word) (gmp : QhgpuMempool) :
    PoolEvent → Prop
  | .register r =>
    let (ret, gmp') := setGpuMempool r.env r.v2page r.gb gmp
    (ret = 0 → gmp'.ValidEmpty r.gb.size) ∧ StoresInRange gmp r ∧ CallsInRange find gmp'
  | .call c => poolStep find gmp c ≠ none

/-- Every array is there or can be allocated, and `vmap` succeeds. -/
def Obtains (gmp : QhgpuMempool) (env : MempoolEnv) : Prop :=
  (gmp.pages.isSome ∨ env.kmallocPages.isSome) ∧ (gmp.bitmap.isSome ∨ env.kmallocBitmap.isSome) ∧
    (gmp.allocSz.isSome ∨ env.kmallocAllocSz.isSome) ∧ env.vmap ≠ 0

/-- The bytes from `n` on of the first `n` entries are 0. -/
def TailClear (n : Nat) (a : Nat → BitVec 32) : Prop :=
  ∀ i < n, n < 4 * (i + 1) → a i >>> (8 * (n - 4 * i)) = 0

/-- When the page list is there or can be allocated, whether or not something else fails: arrays
of an earlier call are long enough for the new counts; with any unit the other two arrays are
there or can be allocated; and when nothing fails, what `memset` leaves of `alloc_sz` is 0
already. -/
def RegistrationOk (gmp : QhgpuMempool) (r : Registration) : Prop :=
  let npages := (npagesOf r.gb.size).toNat
  let nunits := (nunitsOf r.gb.size).toNat
  gmp.pages.isSome ∨ r.env.kmallocPages.isSome →
    (∀ pages, gmp.pages = some pages → npages ≤ pages.cap) ∧
    (∀ bitmap, gmp.bitmap = some bitmap → 64 * bitsToLongs nunits ≤ bitmap.cap) ∧
    (∀ allocSz, gmp.allocSz = some allocSz → nunits ≤ allocSz.cap) ∧
    (nunits ≠ 0 → (gmp.bitmap.isSome ∨ r.env.kmallocBitmap.isSome) ∧
      (gmp.allocSz.isSome ∨ r.env.kmallocAllocSz.isSome)) ∧
    (Obtains gmp r.env → ∀ allocSz,
      (gmp.allocSz.map KArray.get <|> r.env.kmallocAllocSz) = some allocSz →
        TailClear nunits allocSz)

/-- The calls may ask for anything. -/
def PoolEventOk (gmp : QhgpuMempool) : PoolEvent → Prop
  | .register r => RegistrationOk gmp r
  | .call _ => True

variable {find : (Nat → Bool) → BitVec 32 → BitVec 32 → Word} {gmp gmp' : QhgpuMempool}
  {r : Registration} {pages : KArray Page} {bitmap : KArray Bool} {allocSz : KArray (BitVec 32)}

/-! ### Calls from a pool whose arrays are long enough -/

/-- The pool has no unit, or both arrays have an entry for each. -/
def QhgpuMempool.InRange (gmp : QhgpuMempool) : Prop :=
  gmp.nunits = 0 ∨ ∃ bitmap allocSz, gmp.Arrays bitmap allocSz

/-- Without units a call changes nothing. -/
private theorem poolStep_of_nunits_eq_zero (h : gmp.nunits = 0) (c : PoolCall) :
    poolStep find gmp c = some gmp := by
  have hnone (idx : Word) : ¬idx < BitVec.setWidth 64 (0 : BitVec 32) := by
    rw [BitVec.lt_def]
    exact Nat.not_lt_zero _
  have hout (idx : Word) : BitVec.setWidth 64 (0 : BitVec 32) ≤ idx := by
    rw [BitVec.le_def]
    exact Nat.zero_le _
  cases c with
  | qhgpuVmalloc nbytes =>
    rw [poolStep, qhgpuVmalloc]
    cases gmp.bitmap with
    | none => simp only [if_pos h, Option.map_some]
    | some bitmap =>
      have hcap : ¬bitmap.cap < (0 : BitVec 32).toNat := Nat.not_lt_zero _
      simp only [h, if_neg hcap, if_neg (hnone _), Option.map_some]
  | qhgpuVfree p =>
    rw [poolStep, qhgpuVfree]
    simp only [h, if_pos (hout _)]

private theorem QhgpuMempool.InRange.poolStep (hfind : FindsZeroArea find) (h : gmp.InRange)
    (c : PoolCall) : ∃ gmp', QHGPU.poolStep find gmp c = some gmp' ∧ gmp'.InRange := by
  rcases h with hzero | ⟨bitmap, allocSz, harrays⟩
  · exact ⟨gmp, poolStep_of_nunits_eq_zero hzero c, Or.inl hzero⟩
  · have hb := harrays.nunits_le_bitmap
    have ha := harrays.nunits_le_allocSz
    cases c with
    | qhgpuVmalloc nbytes =>
      obtain ⟨p, gmp', hcall⟩ := harrays.qhgpuVmalloc hfind nbytes
      refine ⟨gmp', congrArg (Option.map Prod.snd) hcall, Or.inr ?_⟩
      rcases qhgpuVmalloc_cases harrays hcall with ⟨_, _, rfl⟩ | ⟨_, _, rfl⟩
      · exact ⟨bitmap, allocSz, harrays⟩
      · exact ⟨_, _, ⟨rfl, rfl, hb, ha⟩⟩
    | qhgpuVfree p =>
      rcases harrays.qhgpuVfree_cases p with heq | ⟨_, _, heq⟩
      · exact ⟨gmp, heq, Or.inr ⟨bitmap, allocSz, harrays⟩⟩
      · exact ⟨_, heq, Or.inr ⟨_, _, ⟨rfl, rfl, hb, ha⟩⟩⟩

private theorem bitmap_of_poolStep (hne : gmp.nunits ≠ 0)
    (h : poolStep find gmp (.qhgpuVmalloc 1) ≠ none) :
    ∃ bitmap, gmp.bitmap = some bitmap ∧ gmp.nunits.toNat ≤ bitmap.cap := by
  rw [poolStep, qhgpuVmalloc] at h
  cases hbitmap : gmp.bitmap with
  | none =>
    rw [hbitmap] at h
    simp only [if_neg hne, Option.map_none, ne_eq, not_true] at h
  | some bitmap =>
    refine ⟨bitmap, rfl, ?_⟩
    by_contra hlt
    rw [hbitmap] at h
    simp only [if_pos (Nat.lt_of_not_le hlt), Option.map_none, ne_eq, not_true] at h

/-- The address of the last unit reads the last entry of `alloc_sz`. -/
private theorem allocSz_of_poolStep (hne : gmp.nunits ≠ 0)
    (h : poolStep find gmp (.qhgpuVfree (gmp.kva +
      BitVec.ofNat 64 (gmp.nunits.toNat - 1) * BitVec.ofNat 64 qhgpuBufUnitSize)) ≠ none) :
    ∃ allocSz, gmp.allocSz = some allocSz ∧ gmp.nunits.toNat ≤ allocSz.cap := by
  have hlt := gmp.nunits.isLt
  have hpos : 0 < gmp.nunits.toNat := by
    rw [Nat.pos_iff_ne_zero]
    intro htoNat
    exact hne (BitVec.eq_of_toNat_eq htoNat)
  have htoNat : (BitVec.ofNat 64 (gmp.nunits.toNat - 1)).toNat = gmp.nunits.toNat - 1 := by
    rw [BitVec.toNat_ofNat]
    omega
  have hin : ¬gmp.nunits.setWidth 64 ≤ BitVec.ofNat 64 (gmp.nunits.toNat - 1) := by
    rw [BitVec.le_def, toNat_nunits, htoNat]
    omega
  rw [poolStep, qhgpuVfree, unit_index gmp.kva (by omega)] at h
  simp only [if_neg hin] at h
  cases hallocSz : gmp.allocSz with
  | none =>
    rw [hallocSz] at h
    exact absurd rfl h
  | some allocSz =>
    refine ⟨allocSz, rfl, ?_⟩
    by_contra hshort
    rw [hallocSz] at h
    simp only [htoNat, if_neg (show ¬gmp.nunits.toNat - 1 < allocSz.cap by omega),
      ne_eq, not_true] at h

/-- Calls stay inside the arrays exactly when these have an entry for every unit: the search
looks at every bit, and a pointer to the last unit is looked up. -/
theorem callsInRange_iff (hfind : FindsZeroArea find) : CallsInRange find gmp ↔ gmp.InRange := by
  constructor
  · intro h
    have hone (c : PoolCall) : poolStep find gmp c ≠ none := by
      intro hnone
      exact h [c] (by rw [StepRun.run, hnone, Option.bind_none])
    by_cases hzero : gmp.nunits = 0
    · exact Or.inl hzero
    · obtain ⟨bitmap, hbitmap, hb⟩ := bitmap_of_poolStep hzero (hone _)
      obtain ⟨allocSz, hallocSz, ha⟩ := allocSz_of_poolStep hzero (hone _)
      exact Or.inr ⟨bitmap, allocSz, hbitmap, hallocSz, hb, ha⟩
  · intro h calls
    induction calls generalizing gmp with
    | nil => exact Option.some_ne_none gmp
    | cons c calls ih =>
      obtain ⟨gmp', hstep, hin⟩ := h.poolStep hfind c
      rw [StepRun.run, hstep]
      exact ih hin

/-! ### One registration -/

private theorem le_bitsToLongs (n : Nat) : n ≤ 64 * bitsToLongs n := by
  rw [bitsToLongs]
  omega

/-- `memset` over as many bytes as there are entries. -/
theorem memsetZero_eq_zero_iff (n : Nat) (a : Nat → BitVec 32) :
    (∀ i < n, memsetZero n a i = 0) ↔ TailClear n a := by
  refine forall₂_congr fun i hi ↦ ?_
  rw [memsetZero]
  split
  · next hle => exact iff_of_true rfl fun hlt ↦ absurd hlt (by omega)
  · next hlt =>
    simp only [show n < 4 * (i + 1) by omega, forall_const]
    split
    · next hin =>
      constructor
      · intro h
        have htoNat := congrArg BitVec.toNat h
        rw [BitVec.toNat_shiftLeft, BitVec.toNat_ushiftRight, Nat.shiftRight_eq_div_pow,
          Nat.shiftLeft_eq, Nat.mod_eq_of_lt] at htoNat
        · apply BitVec.eq_of_toNat_eq
          rw [BitVec.toNat_ushiftRight, Nat.shiftRight_eq_div_pow]
          exact (Nat.mul_eq_zero.mp htoNat).resolve_right
            (Nat.pos_iff_ne_zero.mp (Nat.two_pow_pos _))
        · exact Nat.lt_of_le_of_lt (Nat.div_mul_le_self _ _) (a i).isLt
      · intro h
        rw [h]
        exact BitVec.zero_shiftLeft _
    · next hout =>
      rw [Nat.sub_eq_zero_of_le (Nat.le_of_not_lt hout), Nat.mul_zero, BitVec.ushiftRight_zero]

/-- The units never take more than the registered bytes. -/
theorem nunitsOf_mul_le (size : Word) : (nunitsOf size).toNat * qhgpuBufUnitSize ≤ size.toNat := by
  have hpage : (BitVec.ofNat 64 pageSize).toNat = 512 := rfl
  have hframes : (BitVec.ofNat 32 qhgpuBufNrFramesPerUnit).toNat = 100 := rfl
  have hunit : qhgpuBufUnitSize = 51200 := rfl
  rw [nunitsOf, npagesOf, BitVec.toNat_udiv, BitVec.toNat_setWidth, BitVec.toNat_udiv, hpage,
    hframes, hunit]
  omega

/-- An array is got when there is one or `kmalloc` succeeds. -/
theorem orElse_isSome_iff {α : Type} {x : Option (KArray α)} {y : Option (Nat → α)} {n : Nat} :
    (x <|> y.map (KArray.mk n)).isSome ↔ x.isSome ∨ y.isSome := by
  cases x <;> cases y <;> simp

/-- No array is got when there is none and `kmalloc` fails. -/
theorem orElse_map_eq_none {α : Type} {x : Option (KArray α)} {y : Option (Nat → α)} {n : Nat} :
    (x <|> y.map (KArray.mk n)) = none ↔ x = none ∧ y = none := by
  cases x <;> cases y <;> simp

/-- A new array is long enough. -/
private theorem cap_iff {α : Type} {x : Option (KArray α)} {y : Option (Nat → α)} {n m : Nat}
    {z : KArray α} (h : (x <|> y.map (KArray.mk n)) = some z) (hm : m ≤ n) :
    m ≤ z.cap ↔ ∀ z', x = some z' → m ≤ z'.cap := by
  cases x with
  | some z' =>
    obtain rfl := Option.some.inj h
    simp
  | none =>
    obtain ⟨a, _, rfl⟩ := Option.map_eq_some_iff.mp h
    simpa using hm

/-- What the array holds, old or new. -/
private theorem get_eq_of_orElse {α : Type} {x : Option (KArray α)} {y : Option (Nat → α)} {n : Nat}
    {z : KArray α} (h : (x <|> y.map (KArray.mk n)) = some z) :
    (x.map KArray.get <|> y) = some z.get := by
  cases x with
  | some z' =>
    obtain rfl := Option.some.inj h
    rfl
  | none =>
    obtain ⟨a, rfl, rfl⟩ := Option.map_eq_some_iff.mp h
    rfl

/-- Without a page list only address and number of pages are stored. -/
theorem setGpuMempool_noPages (hp : r.pages gmp = none) :
    setGpuMempool r.env r.v2page r.gb gmp =
      (-enomem, { gmp with uva := r.gb.uva, npages := npagesOf r.gb.size }) := by
  simp only [Registration.pages, npagesOf] at hp ⊢
  unfold setGpuMempool
  simp only [hp]

/-- Without a bitmap the page list is filled, and the number of units stored. -/
theorem setGpuMempool_noBitmap (hp : r.pages gmp = some pages) (hb : r.bitmap gmp = none) :
    setGpuMempool r.env r.v2page r.gb gmp = (-enomem, { gmp with
      uva := r.gb.uva
      npages := npagesOf r.gb.size
      pages := some { pages with
        get := fillPages r.v2page r.gb.uva (npagesOf r.gb.size).toNat pages.get }
      nunits := nunitsOf r.gb.size }) := by
  simp only [Registration.pages, Registration.bitmap, nunitsOf, npagesOf] at hp hb ⊢
  unfold setGpuMempool
  simp only [hp, hb]

/-- Without block lengths the bitmap is cleared before the call fails. -/
theorem setGpuMempool_noAllocSz (hp : r.pages gmp = some pages)
    (hb : r.bitmap gmp = some bitmap) (ha : r.allocSz gmp = none) :
    setGpuMempool r.env r.v2page r.gb gmp = (-enomem, { gmp with
      uva := r.gb.uva
      npages := npagesOf r.gb.size
      pages := some { pages with
        get := fillPages r.v2page r.gb.uva (npagesOf r.gb.size).toNat pages.get }
      nunits := nunitsOf r.gb.size
      bitmap := some { bitmap with
        get := bitmapZero (nunitsOf r.gb.size).toNat bitmap.get } }) := by
  simp only [Registration.pages, Registration.bitmap, Registration.allocSz, nunitsOf, npagesOf]
    at hp hb ha ⊢
  unfold setGpuMempool
  simp only [hp, hb, ha]

/-- With all arrays everything is stored, and `vmap` decides on the value. -/
theorem setGpuMempool_arrays (hp : r.pages gmp = some pages) (hb : r.bitmap gmp = some bitmap)
    (ha : r.allocSz gmp = some allocSz) :
    setGpuMempool r.env r.v2page r.gb gmp = (if r.env.vmap = 0 then -efault else 0, {
      uva := r.gb.uva
      kva := r.env.vmap
      pages := some { pages with
        get := fillPages r.v2page r.gb.uva (npagesOf r.gb.size).toNat pages.get }
      npages := npagesOf r.gb.size
      nunits := nunitsOf r.gb.size
      bitmap := some { bitmap with get := bitmapZero (nunitsOf r.gb.size).toNat bitmap.get }
      allocSz := some { allocSz with
        get := memsetZero (nunitsOf r.gb.size).toNat allocSz.get } }) := by
  simp only [Registration.pages, Registration.bitmap, Registration.allocSz, nunitsOf, npagesOf]
    at hp hb ha ⊢
  unfold setGpuMempool
  simp only [hp, hb, ha]
  split <;> rfl

/-- `Obtains` in terms of the arrays that the call uses. -/
theorem obtains_iff : Obtains gmp r.env ↔
    (r.pages gmp).isSome ∧ (r.bitmap gmp).isSome ∧ (r.allocSz gmp).isSome ∧ r.env.vmap ≠ 0 := by
  rw [Obtains, Registration.pages, Registration.bitmap, Registration.allocSz, orElse_isSome_iff,
    orElse_isSome_iff, orElse_isSome_iff]

/-- A call returns 0 when it obtains everything. -/
theorem setGpuMempool_eq_zero_iff :
    (setGpuMempool r.env r.v2page r.gb gmp).1 = 0 ↔ Obtains gmp r.env := by
  have hnomem : ¬-enomem = 0 := by decide
  rw [obtains_iff]
  cases hp : r.pages gmp with
  | none => simp [setGpuMempool_noPages hp, hnomem]
  | some pages =>
    cases hb : r.bitmap gmp with
    | none => simp [setGpuMempool_noBitmap hp hb, hnomem]
    | some bitmap =>
      cases ha : r.allocSz gmp with
      | none => simp [setGpuMempool_noAllocSz hp hb ha, hnomem]
      | some allocSz => simp [setGpuMempool_arrays hp hb ha, efault]

/-- Without the page list nothing but address and page count is changed. -/
private theorem registers_noPages (hfind : FindsZeroArea find) (hin : gmp.InRange)
    (hp : r.pages gmp = none) :
    Registers find gmp (.register r) ∧ RegistrationOk gmp r := by
  have hnone := orElse_isSome_iff.not.mp (Option.not_isSome_iff_eq_none.mpr hp)
  refine ⟨?_, fun hsome ↦ absurd hsome hnone⟩
  rw [Registers, setGpuMempool_noPages hp]
  refine ⟨fun hret ↦ absurd hret (by decide), ?_, (callsInRange_iff hfind).mpr ?_⟩
  · intro pages hpages
    rw [hp] at hpages
    cases hpages
  · rcases hin with hzero | ⟨bitmap, allocSz, harrays⟩
    · exact Or.inl hzero
    · exact Or.inr ⟨bitmap, allocSz, harrays.bitmap_eq, harrays.allocSz_eq,
        harrays.nunits_le_bitmap, harrays.nunits_le_allocSz⟩

/-- With a missing array the calls are in range only when there is no unit. -/
private theorem callsInRange_missing (hfind : FindsZeroArea find) (hp : r.pages gmp = some pages)
    (hmissing : ¬((r.bitmap gmp).isSome ∧ (r.allocSz gmp).isSome)) :
    CallsInRange find (setGpuMempool r.env r.v2page r.gb gmp).2 ↔ nunitsOf r.gb.size = 0 := by
  rw [callsInRange_iff hfind]
  cases hb : r.bitmap gmp with
  | none =>
    have hnone := (orElse_map_eq_none.mp hb).1
    rw [setGpuMempool_noBitmap hp hb]
    refine or_iff_left ?_
    rintro ⟨bitmap, allocSz, harrays⟩
    exact Option.some_ne_none bitmap (harrays.bitmap_eq.symm.trans hnone)
  | some bitmap =>
    have ha : r.allocSz gmp = none := by
      rw [← Option.not_isSome_iff_eq_none]
      intro hsome
      exact hmissing ⟨by rw [hb, Option.isSome_some], hsome⟩
    have hnone := (orElse_map_eq_none.mp ha).1
    rw [setGpuMempool_noAllocSz hp hb ha]
    refine or_iff_left ?_
    rintro ⟨bitmap, allocSz, harrays⟩
    exact Option.some_ne_none allocSz (harrays.allocSz_eq.symm.trans hnone)

/-- A registration that fails with the page list, for want of another array. -/
private theorem registers_missing (hfind : FindsZeroArea find) (hp : r.pages gmp = some pages)
    (hmissing : ¬((r.bitmap gmp).isSome ∧ (r.allocSz gmp).isSome)) :
    Registers find gmp (.register r) ↔ RegistrationOk gmp r := by
  have hnot : ¬Obtains gmp r.env := by
    rw [obtains_iff]
    exact fun h ↦ hmissing ⟨h.2.1, h.2.2.1⟩
  have hsome : gmp.pages.isSome ∨ r.env.kmallocPages.isSome :=
    orElse_isSome_iff.mp (by rw [← Registration.pages, hp, Option.isSome_some])
  have hlong : 64 * bitsToLongs (0 : BitVec 32).toNat = 0 := rfl
  have hcap := cap_iff hp (Nat.le_refl _)
  rw [Registers, RegistrationOk]
  dsimp only
  rw [callsInRange_missing hfind hp hmissing, setGpuMempool_eq_zero_iff]
  constructor
  · rintro ⟨-, hstores, hzero⟩ -
    rw [hzero]
    refine ⟨hcap.mp (hstores pages hp).1, ?_, fun _ _ ↦ Nat.zero_le _, fun hne ↦ absurd rfl hne,
      fun h ↦ absurd h hnot⟩
    intro bitmap _
    rw [hlong]
    exact Nat.zero_le _
  · intro h
    obtain ⟨hpages, -, -, hunits, -⟩ := h hsome
    have hzero : nunitsOf r.gb.size = 0 := by
      by_contra hne
      have hgot := hunits fun htoNat ↦ hne (BitVec.eq_of_toNat_eq htoNat)
      rw [Registration.bitmap, Registration.allocSz, orElse_isSome_iff, orElse_isSome_iff]
        at hmissing
      exact hmissing hgot
    refine ⟨fun hobtains ↦ absurd hobtains hnot, ?_, hzero⟩
    intro pages' hp'
    obtain rfl := Option.some.inj (hp.symm.trans hp')
    refine ⟨hcap.mpr hpages, ?_⟩
    rw [hzero, hlong]
    exact fun _ _ ↦ ⟨Nat.zero_le _, fun _ _ ↦ Nat.zero_le _⟩

/-- A registration that has all its arrays, whether or not `vmap` succeeds. -/
private theorem registers_arrays (hfind : FindsZeroArea find) (hp : r.pages gmp = some pages)
    (hb : r.bitmap gmp = some bitmap) (ha : r.allocSz gmp = some allocSz) :
    Registers find gmp (.register r) ↔ RegistrationOk gmp r := by
  have hsome : gmp.pages.isSome ∨ r.env.kmallocPages.isSome :=
    orElse_isSome_iff.mp (by rw [← Registration.pages, hp, Option.isSome_some])
  have hgot : (gmp.bitmap.isSome ∨ r.env.kmallocBitmap.isSome) ∧
      (gmp.allocSz.isSome ∨ r.env.kmallocAllocSz.isSome) :=
    ⟨orElse_isSome_iff.mp (by rw [← Registration.bitmap, hb, Option.isSome_some]),
      orElse_isSome_iff.mp (by rw [← Registration.allocSz, ha, Option.isSome_some])⟩
  have hpcap := cap_iff hp (Nat.le_refl _)
  have hbcap := cap_iff hb (Nat.le_refl _)
  have hacap := cap_iff ha (Nat.le_refl _)
  have hlong := le_bitsToLongs (nunitsOf r.gb.size).toNat
  have hret : (setGpuMempool r.env r.v2page r.gb gmp).1 = 0 ↔ Obtains gmp r.env :=
    setGpuMempool_eq_zero_iff
  rw [Registers, RegistrationOk]
  dsimp only
  rw [callsInRange_iff hfind, hret, setGpuMempool_arrays hp hb ha]
  constructor
  · rintro ⟨hvalid, hstores, hin⟩ -
    obtain ⟨hpages, hrest⟩ := hstores pages hp
    obtain ⟨hbits, hbytes⟩ := hrest bitmap hb
    refine ⟨hpcap.mp hpages, hbcap.mp hbits, hacap.mp ?_, fun _ ↦ hgot, ?_⟩
    · rcases hin with hzero | ⟨bitmap', allocSz', harrays⟩
      · rw [show nunitsOf r.gb.size = 0 from hzero]
        exact Nat.zero_le _
      · obtain rfl := Option.some.inj harrays.allocSz_eq
        exact harrays.nunits_le_allocSz
    · intro hobtains a hold
      obtain rfl := Option.some.inj ((get_eq_of_orElse ha).symm.trans hold)
      obtain ⟨_, allocSz', harrays, _, hsizes⟩ := (hvalid hobtains).cleared
      obtain rfl := Option.some.inj harrays.allocSz_eq
      exact (memsetZero_eq_zero_iff _ allocSz.get).mp hsizes
  · intro h
    obtain ⟨hpages, hbits, hsizes, -, htail⟩ := h hsome
    rw [← hpcap] at hpages
    rw [← hbcap] at hbits
    rw [← hacap] at hsizes
    have harrays := And.intro (Nat.le_trans hlong hbits) hsizes
    refine ⟨?_, ?_, Or.inr ⟨_, _, ⟨rfl, rfl, harrays.1, harrays.2⟩⟩⟩
    · intro hobtains
      refine ⟨⟨_, _, ⟨rfl, rfl, harrays.1, harrays.2⟩, ?_, ?_⟩, ⟨_, rfl, hpages⟩,
        nunitsOf_mul_le r.gb.size⟩
      · intro b hb'
        exact if_pos (Nat.lt_of_lt_of_le hb' hlong)
      · exact (memsetZero_eq_zero_iff _ allocSz.get).mpr
          (htail hobtains allocSz.get (get_eq_of_orElse ha))
    · intro pages' hp'
      obtain rfl := Option.some.inj (hp.symm.trans hp')
      refine ⟨hpages, ?_⟩
      intro bitmap' hb'
      obtain rfl := Option.some.inj (hb.symm.trans hb')
      refine ⟨hbits, ?_⟩
      intro allocSz' ha'
      obtain rfl := Option.some.inj (ha.symm.trans ha')
      omega

/-- One registration. -/
theorem registers_iff_ok (hfind : FindsZeroArea find) (hin : gmp.InRange) :
    Registers find gmp (.register r) ↔ RegistrationOk gmp r := by
  cases hp : r.pages gmp with
  | none =>
    obtain ⟨hregisters, hok⟩ := registers_noPages hfind hin hp
    exact iff_of_true hregisters hok
  | some pages =>
    cases hb : r.bitmap gmp with
    | none => exact registers_missing hfind hp (by simp [hb])
    | some bitmap =>
      cases ha : r.allocSz gmp with
      | none => exact registers_missing hfind hp (by simp [ha])
      | some allocSz => exact registers_arrays hfind hp hb ha

/-- For every sequence of registrations and calls into the pool, whatever fails: each
registration that returns 0 leaves a valid empty pool and every index is in range, exactly when
at each registration the arrays are there and long enough, and the tail of `alloc_sz` is clear. -/
theorem registers_iff (hfind : FindsZeroArea find) (es : List PoolEvent) :
    StepRun.Meets (poolEventStep find) (Registers find) .zeroed es ↔
      StepRun.Meets (poolEventStep find) PoolEventOk .zeroed es := by
  have hin : QhgpuMempool.zeroed.InRange := Or.inl rfl
  generalize QhgpuMempool.zeroed = gmp at hin
  induction es generalizing gmp with
  | nil => exact Iff.rfl
  | cons e es ih =>
    cases e with
    | register r =>
      refine (and_congr_right fun h ↦ forall₂_congr fun gmp' hs ↦ ih gmp' ?_).trans
        (and_congr_left' (registers_iff_ok hfind hin))
      obtain rfl := Option.some.inj hs
      exact (callsInRange_iff hfind).mp h.2.2
    | call c =>
      obtain ⟨gmp', hstep, hin'⟩ := hin.poolStep hfind c
      refine and_congr (iff_of_true ?_ trivial) (forall₂_congr fun gmp'' hs ↦ ih gmp'' ?_)
      · rw [Registers, hstep]
        exact Option.some_ne_none gmp'
      · obtain rfl := Option.some.inj (hstep.symm.trans hs)
        exact hin'

/-- Eight units; the page list and the bitmap hold anything, the block lengths are 0. -/
def eightUnits : Registration where
  env := {
    kmallocPages := some fun _ ↦ 7
    kmallocBitmap := some fun _ ↦ true
    kmallocAllocSz := some fun _ ↦ 0
    vmap := 0xffffc90000400000#64 }
  v2page _ := 0
  gb := ⟨0x7f5a00001000#64, 409600⟩

/-- Four units in the arrays of an earlier call, and `vmap` fails. -/
def fourUnits : Registration where
  env := { kmallocPages := none, kmallocBitmap := none, kmallocAllocSz := none, vmap := 0 }
  v2page _ := 0
  gb := ⟨0x7f5a00001000#64, 204800⟩

/-- A smaller registration fails while a block is in use; the block is freed afterwards. -/
theorem registers_iff_shrink : StepRun.Meets (poolEventStep scanZeroArea) (Registers scanZeroArea)
    .zeroed [.register eightUnits, .call (.qhgpuVmalloc 100000), .register fourUnits,
      .call (.qhgpuVfree 0)] := by
  refine (registers_iff findsZeroArea_scanZeroArea _).mpr ?_
  refine StepRun.meets_cons ?_ rfl (StepRun.meets_cons trivial rfl
    (StepRun.meets_cons ?_ rfl (StepRun.meets_cons trivial rfl trivial)))
  · intro _
    refine ⟨fun _ h ↦ ?_, fun _ h ↦ ?_, fun _ h ↦ ?_, fun _ ↦ ⟨Or.inr rfl, Or.inr rfl⟩, ?_⟩
    · cases h
    · cases h
    · cases h
    · intro _ allocSz h
      obtain rfl := Option.some.inj h
      intro i _ _
      exact BitVec.zero_ushiftRight
  · intro _
    refine ⟨fun _ h ↦ ?_, fun _ h ↦ ?_, fun _ h ↦ ?_, fun _ ↦ ⟨Or.inl rfl, Or.inl rfl⟩,
      fun hobtains ↦ absurd rfl hobtains.2.2.2⟩
    · obtain rfl := Option.some.inj h
      decide
    · obtain rfl := Option.some.inj h
      decide
    · obtain rfl := Option.some.inj h
      decide

/-- Eight units, in memory whose bytes are all 1. -/
def dirtyRegistration : Registration where
  env := {
    kmallocPages := some fun _ ↦ 0
    kmallocBitmap := some fun _ ↦ true
    kmallocAllocSz := some fun _ ↦ 0x01010101
    vmap := 0xffffc90000400000#64 }
  v2page _ := 0
  gb := ⟨0x7f5a00001000#64, 409600⟩

/-- The lengths from the third on are not cleared. -/
theorem not_registers_dirty : ¬∀ find, FindsZeroArea find → ∀ es : List PoolEvent,
    StepRun.Meets (poolEventStep find) (Registers find) .zeroed es := by
  intro hall
  obtain ⟨hvalid, -⟩ := (hall scanZeroArea findsZeroArea_scanZeroArea
    [.register dirtyRegistration]).1
  obtain ⟨_, allocSz, harrays, _, hsizes⟩ := (hvalid (by decide)).cleared
  obtain rfl := Option.some.inj harrays.allocSz_eq
  exact absurd (hsizes 2 (by decide)) (by decide)

end QHGPU
