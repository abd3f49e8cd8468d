import QHGPU.Library.RunTable
import QHGPU.Library.StepRun
import QHGPU.Kernel.Mempool

/-!
# Allocation in the pool

`qhgpu_vmalloc` and `qhgpu_vfree`, `src/qhgpu/main.c:962–1035`. Linux's
`bitmap_find_next_zero_area` is an argument; `none` is an access outside an array.
-/

namespace QHGPU

/-- `bitmap_set`. -/
def bitmapSet (map : Nat → Bool) (start nr b : Nat) : Bool :=
  if start ≤ b ∧ b < start + nr then true else map b

/-- `bitmap_clear`. -/
def bitmapClear (map : Nat → Bool) (start nr b : Nat) : Bool :=
  if start ≤ b ∧ b < start + nr then false else map b

/-- `DIV_ROUND_UP(nbytes, QHGPU_BUF_UNIT_SIZE)` in `unsigned long`, stored in `unsigned int`,
`src/qhgpu/main.c:964`. -/
def reqNunits (nbytes : Word) : BitVec 32 :=
  ((nbytes + BitVec.ofNat 64 qhgpuBufUnitSize - 1) / BitVec.ofNat 64 qhgpuBufUnitSize).setWidth 32

/-- `qhgpu_vmalloc`, `src/qhgpu/main.c:962–1008`. The function `find` is given map, size and
`nr`; the search starts at 0 without alignment. -/
def qhgpuVmalloc (find : (Nat → Bool) → BitVec 32 → BitVec 32 → Word) (gmp : QhgpuMempool)
    (nbytes : Word) : Option (Word × QhgpuMempool) :=
  match gmp.bitmap with
  -- an empty map is not read, so before the registration its null pointer does no harm
  | none => if gmp.nunits = 0 then some (0, gmp) else none
  | some bitmap =>
    if bitmap.cap < gmp.nunits.toNat then none
    else
      let idx := find bitmap.get gmp.nunits (reqNunits nbytes)
      if idx < gmp.nunits.setWidth 64 then
        match gmp.allocSz with
        | none => none
        | some allocSz =>
          if idx.toNat + (reqNunits nbytes).toNat ≤ bitmap.cap ∧ idx.toNat < allocSz.cap then
            some (gmp.kva + idx * BitVec.ofNat 64 qhgpuBufUnitSize,
              { gmp with
                bitmap := some { bitmap with
                  get := bitmapSet bitmap.get idx.toNat (reqNunits nbytes).toNat }
                allocSz := some { allocSz with
                  get := Function.update allocSz.get idx.toNat (reqNunits nbytes) } })
          else none
      else some (0, gmp)

/-- `qhgpu_vfree`, `src/qhgpu/main.c:1011–1035`. -/
def qhgpuVfree (gmp : QhgpuMempool) (p : Word) : Option QhgpuMempool :=
  let idx := (p - gmp.kva) / BitVec.ofNat 64 qhgpuBufUnitSize
  if gmp.nunits.setWidth 64 ≤ idx then some gmp
  else
    match gmp.allocSz with
    | none => none
    | some allocSz =>
      if idx.toNat < allocSz.cap then
        let nunits := allocSz.get idx.toNat
        if nunits = 0 then some gmp
        else if gmp.nunits.setWidth 64 - idx < nunits.setWidth 64 then some gmp
        else
          match gmp.bitmap with
          | none => none
          | some bitmap =>
            if idx.toNat + nunits.toNat ≤ bitmap.cap then
              some { gmp with
                bitmap := some { bitmap with
                  get := bitmapClear bitmap.get idx.toNat nunits.toNat }
                allocSz := some { allocSz with get := Function.update allocSz.get idx.toNat 0 } }
            else none
      else none

/-- One call into the pool. -/
inductive PoolCall where
  | qhgpuVmalloc (nbytes : Word)
  | qhgpuVfree (p : Word)
  deriving DecidableEq, Repr

/-- The pool after one call; the pointer returned is in no one's way. -/
def poolStep (find : (Nat → Bool) → BitVec 32 → BitVec 32 → Word) (gmp : QhgpuMempool) :
    PoolCall → Option QhgpuMempool
  | .qhgpuVmalloc nbytes => (qhgpuVmalloc find gmp nbytes).map Prod.snd
  | .qhgpuVfree p => qhgpuVfree gmp p

/-- What `bitmap_find_next_zero_area` guarantees: the least start of `nr` clear bits inside
the map, or a value not below its size. The search moves from one clear bit to the next, so
the start is a clear bit for `nr = 0` as well. -/
structure FindsZeroArea (find : (Nat → Bool) → BitVec 32 → BitVec 32 → Word) : Prop where
  start_clear : ∀ {map size nr}, (find map size nr).toNat < size.toNat →
    map (find map size nr).toNat = false
  fits : ∀ {map size nr}, (find map size nr).toNat < size.toNat →
    (find map size nr).toNat + nr.toNat ≤ size.toNat
  area_clear : ∀ {map size nr}, (find map size nr).toNat < size.toNat →
    ∀ b, (find map size nr).toNat ≤ b → b < (find map size nr).toNat + nr.toNat → map b = false
  least : ∀ {map size nr}, (find map size nr).toNat < size.toNat →
    ∀ i < (find map size nr).toNat, map i = false → ∃ b, i ≤ b ∧ b < i + nr.toNat ∧ map b = true

/-- Bits and block lengths of a pool with `nunits` units. -/
def poolTable (nunits : Nat) (bitmap : Nat → Bool) (allocSz : Nat → BitVec 32) :
    RunTable.Table where
  bit b := decide (b < nunits) && bitmap b
  size i := if i < nunits then (allocSz i).toNat else 0

/-- The pool owns both arrays, each long enough for its units. -/
structure QhgpuMempool.Arrays (gmp : QhgpuMempool) (bitmap : KArray Bool)
    (allocSz : KArray (BitVec 32)) : Prop where
  bitmap_eq : gmp.bitmap = some bitmap
  allocSz_eq : gmp.allocSz = some allocSz
  nunits_le_bitmap : gmp.nunits.toNat ≤ bitmap.cap
  nunits_le_allocSz : gmp.nunits.toNat ≤ allocSz.cap

/-- All bits clear and all lengths 0. -/
def QhgpuMempool.Cleared (gmp : QhgpuMempool) : Prop :=
  ∃ bitmap allocSz, gmp.Arrays bitmap allocSz ∧
    (∀ b < gmp.nunits.toNat, bitmap.get b = false) ∧
    ∀ i < gmp.nunits.toNat, allocSz.get i = 0

/-- The runs `[i, i + alloc_sz[i])` are disjoint and inside the pool, and the bits set are
theirs. -/
def QhgpuMempool.Represented (gmp : QhgpuMempool) : Prop :=
  ∃ bitmap allocSz, gmp.Arrays bitmap allocSz ∧
    RunTable.Sound gmp.nunits.toNat (poolTable gmp.nunits.toNat bitmap.get allocSz.get)

/-- Both updates of `qhgpu_vmalloc` together claim a block of the table. -/
theorem poolTable_claim {nunits i : Nat} {n : BitVec 32} {bitmap : Nat → Bool}
    {allocSz : Nat → BitVec 32} (hi : i < nunits) (hfit : i + n.toNat ≤ nunits) :
    poolTable nunits (bitmapSet bitmap i n.toNat) (Function.update allocSz i n) =
      (poolTable nunits bitmap allocSz).claim i n.toNat := by
  rw [poolTable, RunTable.Table.claim]
  congr 1
  · funext b
    simp only [poolTable, bitmapSet]
    split
    · next hb => simp [show b < nunits by omega]
    · rfl
  · funext j
    simp only [poolTable]
    by_cases hj : j = i
    · subst hj
      rw [Function.update_self, Function.update_self, if_pos hi]
    · rw [Function.update_of_ne hj, Function.update_of_ne hj]

/-- Both updates of `qhgpu_vfree` together release a block of the table. -/
theorem poolTable_release {nunits i : Nat} {bitmap : Nat → Bool} {allocSz : Nat → BitVec 32}
    (hi : i < nunits) :
    poolTable nunits (bitmapClear bitmap i (allocSz i).toNat) (Function.update allocSz i 0) =
      (poolTable nunits bitmap allocSz).release i := by
  rw [poolTable, RunTable.Table.release]
  congr 1
  · funext b
    simp only [poolTable, bitmapClear, if_pos hi]
    split
    · simp
    · rfl
  · funext j
    simp only [poolTable]
    by_cases hj : j = i
    · subst hj
      rw [Function.update_self, Function.update_self]
      simp
    · rw [Function.update_of_ne hj, Function.update_of_ne hj]

/-- A cleared pool has no block. -/
theorem QhgpuMempool.Cleared.represented {gmp : QhgpuMempool} (h : gmp.Cleared) :
    gmp.Represented := by
  obtain ⟨bitmap, allocSz, harrays, hbits, hsizes⟩ := h
  refine ⟨bitmap, allocSz, harrays, RunTable.sound_empty ?_ ?_⟩
  · intro b
    by_cases hb : b < gmp.nunits.toNat
    · simp [poolTable, hbits b hb]
    · simp [poolTable, hb]
  · intro i
    by_cases hi : i < gmp.nunits.toNat
    · simp [poolTable, hsizes i hi]
    · simp [poolTable, hi]

/-- The comparisons of the driver widen `nunits` to `unsigned long`. -/
theorem toNat_nunits (n : BitVec 32) : (n.setWidth 64).toNat = n.toNat := by
  rw [BitVec.toNat_setWidth]
  omega

/-- `QHGPU_BUF_UNIT_SIZE` is `1024*50`. -/
theorem qhgpuBufUnitSize_eq : qhgpuBufUnitSize = 51200 := rfl

/-- The same as a 64-bit word. -/
theorem toNat_unitSize : (BitVec.ofNat 64 qhgpuBufUnitSize).toNat = 51200 := rfl

/-- Units are found again from their address. -/
theorem unit_offset (kva : Word) {i : Nat} (hi : i < 2 ^ 32) :
    (kva + BitVec.ofNat 64 i * BitVec.ofNat 64 qhgpuBufUnitSize - kva).toNat =
      i * qhgpuBufUnitSize := by
  rw [BitVec.toNat_sub, BitVec.toNat_add, BitVec.toNat_mul, toNat_unitSize, BitVec.toNat_ofNat,
    qhgpuBufUnitSize_eq]
  omega

/-- The driver's division finds the number of a unit. -/
theorem unit_index (kva : Word) {i : Nat} (hi : i < 2 ^ 32) :
    (kva + BitVec.ofNat 64 i * BitVec.ofNat 64 qhgpuBufUnitSize - kva) /
      BitVec.ofNat 64 qhgpuBufUnitSize = BitVec.ofNat 64 i := by
  apply BitVec.eq_of_toNat_eq
  rw [BitVec.toNat_udiv, unit_offset kva hi, toNat_unitSize, qhgpuBufUnitSize_eq,
    BitVec.toNat_ofNat]
  omega

section Calls

variable {find : (Nat → Bool) → BitVec 32 → BitVec 32 → Word} {gmp gmp' : QhgpuMempool}
  {bitmap : KArray Bool} {allocSz : KArray (BitVec 32)}

/-- What a call of `qhgpu_vmalloc` does. -/
theorem qhgpuVmalloc_cases (harrays : gmp.Arrays bitmap allocSz) {nbytes p : Word}
    (h : qhgpuVmalloc find gmp nbytes = some (p, gmp')) :
    let idx := find bitmap.get gmp.nunits (reqNunits nbytes)
    (gmp.nunits.toNat ≤ idx.toNat ∧ p = 0 ∧ gmp' = gmp) ∨
      (idx.toNat < gmp.nunits.toNat ∧ p = gmp.kva + idx * BitVec.ofNat 64 qhgpuBufUnitSize ∧
        gmp' = { gmp with
          bitmap := some { bitmap with
            get := bitmapSet bitmap.get idx.toNat (reqNunits nbytes).toNat }
          allocSz := some { allocSz with
            get := Function.update allocSz.get idx.toNat (reqNunits nbytes) } }) := by
  rw [qhgpuVmalloc, harrays.bitmap_eq] at h
  have hb := harrays.nunits_le_bitmap
  simp only [show ¬bitmap.cap < gmp.nunits.toNat by omega, if_false] at h
  split at h
  · next hidx =>
    rw [BitVec.lt_def, toNat_nunits] at hidx
    rw [harrays.allocSz_eq] at h
    simp only [Option.ite_none_right_eq_some, Option.some.injEq, Prod.mk.injEq] at h
    obtain ⟨_, rfl, rfl⟩ := h
    exact Or.inr ⟨hidx, rfl, rfl⟩
  · next hidx =>
    rw [BitVec.lt_def, toNat_nunits, Nat.not_lt] at hidx
    simp only [Option.some.injEq, Prod.mk.injEq] at h
    obtain ⟨rfl, rfl⟩ := h
    exact Or.inl ⟨hidx, rfl, rfl⟩

/-- `qhgpu_vmalloc` stays inside the arrays, whatever they hold. -/
theorem QhgpuMempool.Arrays.qhgpuVmalloc (hfind : FindsZeroArea find)
    (h : gmp.Arrays bitmap allocSz) (nbytes : Word) :
    ∃ p gmp', qhgpuVmalloc find gmp nbytes = some (p, gmp') := by
  have hb := h.nunits_le_bitmap
  have ha := h.nunits_le_allocSz
  rw [QHGPU.qhgpuVmalloc, h.bitmap_eq]
  simp only [show ¬bitmap.cap < gmp.nunits.toNat by omega, if_false]
  split
  · next hidx =>
    rw [BitVec.lt_def, toNat_nunits] at hidx
    have hfit := hfind.fits hidx
    rw [h.allocSz_eq]
    simp only
    rw [if_pos ⟨by omega, by omega⟩]
    exact ⟨_, _, rfl⟩
  · exact ⟨_, _, rfl⟩

/-- What a call of `qhgpu_vfree` does, whatever the arrays hold. -/
theorem QhgpuMempool.Arrays.qhgpuVfree_cases (h : gmp.Arrays bitmap allocSz) (p : Word) :
    qhgpuVfree gmp p = some gmp ∨ ∃ i < gmp.nunits.toNat, qhgpuVfree gmp p = some { gmp with
      bitmap := some { bitmap with get := bitmapClear bitmap.get i (allocSz.get i).toNat }
      allocSz := some { allocSz with get := Function.update allocSz.get i 0 } } := by
  have hb := h.nunits_le_bitmap
  have ha := h.nunits_le_allocSz
  rw [QHGPU.qhgpuVfree]
  generalize (p - gmp.kva) / BitVec.ofNat 64 qhgpuBufUnitSize = idx
  simp only
  split
  · exact Or.inl rfl
  · next hidx =>
    rw [BitVec.le_def, toNat_nunits, Nat.not_le] at hidx
    rw [h.allocSz_eq]
    simp only
    rw [if_pos (by omega)]
    split
    · exact Or.inl rfl
    · split
      · exact Or.inl rfl
      · next hfits =>
        rw [BitVec.lt_def, toNat_nunits, BitVec.toNat_sub, toNat_nunits] at hfits
        have hlt := gmp.nunits.isLt
        rw [h.bitmap_eq]
        simp only
        rw [if_pos (by omega)]
        exact Or.inr ⟨idx.toNat, hidx, rfl⟩

/-- `qhgpu_vmalloc` keeps the representation, whatever size is asked for. -/
theorem QhgpuMempool.Represented.qhgpuVmalloc (hfind : FindsZeroArea find) (h : gmp.Represented)
    (nbytes : Word) : ∃ p gmp', qhgpuVmalloc find gmp nbytes = some (p, gmp') ∧
      gmp'.nunits = gmp.nunits ∧ gmp'.Represented := by
  obtain ⟨bitmap, allocSz, harrays, hsound⟩ := h
  have hb := harrays.nunits_le_bitmap
  have ha := harrays.nunits_le_allocSz
  obtain ⟨p, gmp', hcall⟩ := harrays.qhgpuVmalloc hfind nbytes
  refine ⟨p, gmp', hcall, ?_⟩
  rcases qhgpuVmalloc_cases harrays hcall with ⟨_, _, rfl⟩ | ⟨hidx, _, rfl⟩
  · exact ⟨rfl, bitmap, allocSz, harrays, hsound⟩
  · have hfit := hfind.fits hidx
    refine ⟨rfl, _, _, ⟨rfl, rfl, hb, ha⟩, ?_⟩
    simp only
    rw [poolTable_claim hidx hfit]
    apply hsound.claim
    · simp [poolTable, hfind.start_clear hidx]
    · exact hfit
    · intro b hle hlt
      simp [poolTable, hfind.area_clear hidx b hle hlt]

/-- `qhgpu_vfree` keeps the representation, whatever pointer it is given. -/
theorem QhgpuMempool.Represented.qhgpuVfree (h : gmp.Represented) (p : Word) :
    ∃ gmp', qhgpuVfree gmp p = some gmp' ∧ gmp'.nunits = gmp.nunits ∧ gmp'.Represented := by
  have hsame : gmp.Represented := h
  obtain ⟨bitmap, allocSz, harrays, hsound⟩ := h
  rcases harrays.qhgpuVfree_cases p with heq | ⟨i, hi, heq⟩
  · exact ⟨gmp, heq, rfl, hsame⟩
  · refine ⟨_, heq, rfl, _, _,
      ⟨rfl, rfl, harrays.nunits_le_bitmap, harrays.nunits_le_allocSz⟩, ?_⟩
    simp only
    rw [poolTable_release hi]
    exact hsound.release i

private theorem QhgpuMempool.Represented.poolStep (hfind : FindsZeroArea find) (h : gmp.Represented)
    (c : PoolCall) :
    ∃ gmp', poolStep find gmp c = some gmp' ∧ gmp'.nunits = gmp.nunits ∧ gmp'.Represented := by
  cases c with
  | qhgpuVmalloc nbytes =>
    obtain ⟨p, gmp', heq, hn, hrep⟩ := h.qhgpuVmalloc hfind nbytes
    refine ⟨gmp', ?_, hn, hrep⟩
    rw [QHGPU.poolStep, heq, Option.map_some]
  | qhgpuVfree p => exact h.qhgpuVfree p

/-- From a cleared pool every sequence of calls runs without a stray access, and the two
arrays describe the same blocks afterwards. -/
theorem represented_of_calls (hfind : FindsZeroArea find) (hcleared : gmp.Cleared)
    (calls : List PoolCall) : ∃ gmp', StepRun.run (poolStep find) gmp calls = some gmp' ∧
      gmp'.nunits = gmp.nunits ∧ gmp'.Represented := by
  have h : gmp.Represented := hcleared.represented
  clear hcleared
  induction calls generalizing gmp with
  | nil => exact ⟨gmp, rfl, rfl, h⟩
  | cons c calls ih =>
    obtain ⟨gmp₁, hstep, hn₁, h₁⟩ := h.poolStep hfind c
    obtain ⟨gmp₂, hrun, hn₂, h₂⟩ := ih h₁
    exact ⟨gmp₂, StepRun.run_cons_iff.mpr ⟨gmp₁, hstep, hrun⟩, hn₂.trans hn₁, h₂⟩

end Calls

/-- `bitmap_find_next_zero_area` as a scan over the start positions. -/
def scanZeroArea (map : Nat → Bool) (size nr : BitVec 32) : Word :=
  let fits i := !map i && decide (i + nr.toNat ≤ size.toNat) &&
    (List.range nr.toNat).all fun k ↦ !map (i + k)
  BitVec.ofNat 64 (((List.range size.toNat).find? fits).getD size.toNat)

/-- The scan finds the first area. -/
theorem findsZeroArea_scanZeroArea : FindsZeroArea scanZeroArea := by
  have hscan {map : Nat → Bool} {size nr : BitVec 32}
      (hlt : (scanZeroArea map size nr).toNat < size.toNat) :
      let i := (scanZeroArea map size nr).toNat
      (map i = false ∧ i + nr.toNat ≤ size.toNat ∧ ∀ k < nr.toNat, map (i + k) = false) ∧
        ∀ j < i, map j = false → j + nr.toNat ≤ size.toNat →
          ∃ k < nr.toNat, map (j + k) = true := by
    rw [scanZeroArea] at hlt ⊢
    simp only at hlt ⊢
    cases hfind : (List.range size.toNat).find? fun i ↦
        !map i && decide (i + nr.toNat ≤ size.toNat) &&
          (List.range nr.toNat).all fun k ↦ !map (i + k) with
    | none =>
      have hsize := size.isLt
      rw [hfind, Option.getD_none, BitVec.toNat_ofNat] at hlt
      omega
    | some i =>
      have hsize := size.isLt
      obtain ⟨hfits, hmem, hleast⟩ := List.find?_range_eq_some.mp hfind
      rw [List.mem_range] at hmem
      rw [Option.getD_some, BitVec.toNat_ofNat, Nat.mod_eq_of_lt (by omega)]
      simp only [Bool.and_eq_true, Bool.not_eq_true', decide_eq_true_eq, List.all_eq_true,
        List.mem_range] at hfits
      refine ⟨⟨hfits.1.1, hfits.1.2, hfits.2⟩, ?_⟩
      intro j hj hclear hfit
      by_contra hnone
      have hbad := hleast j hj
      simp [hclear, hfit] at hbad
      obtain ⟨k, hk, hset⟩ := hbad
      exact hnone ⟨k, hk, hset⟩
  constructor
  · intro map size nr hlt
    exact (hscan hlt).1.1
  · intro map size nr hlt
    exact (hscan hlt).1.2.1
  · intro map size nr hlt b hle hb
    have hclear := (hscan hlt).1.2.2 (b - (scanZeroArea map size nr).toNat) (by omega)
    rwa [Nat.add_sub_of_le hle] at hclear
  · intro map size nr hlt i hi hclear
    have hfit := (hscan hlt).1.2.1
    obtain ⟨k, hk, hset⟩ := (hscan hlt).2 i hi hclear (by omega)
    exact ⟨i + k, by omega, by omega, hset⟩

/-- A cleared pool of eight units. -/
def clearedPool : QhgpuMempool where
  uva := 0x7f5a00001000#64
  kva := 0xffffc90000400000#64
  pages := none
  npages := 800
  nunits := 8
  bitmap := some ⟨64, fun _ ↦ false⟩
  allocSz := some ⟨8, fun _ ↦ 0⟩

/-- `clearedPool` is cleared. -/
theorem clearedPool_cleared : clearedPool.Cleared := by
  refine ⟨⟨64, fun _ ↦ false⟩, ⟨8, fun _ ↦ 0⟩, ⟨rfl, rfl, by decide, by decide⟩, ?_, ?_⟩
  · intro b _
    rfl
  · intro i _
    rfl

/-- A block, an empty request, a request whose unit count wraps, and three frees: inside the
block, below the pool, and at the block. -/
theorem represented_of_calls_eight : ∃ gmp', StepRun.run (poolStep scanZeroArea) clearedPool
    [.qhgpuVmalloc 100000, .qhgpuVmalloc 0, .qhgpuVmalloc 0xffffffffffffffff#64,
      .qhgpuVfree 0xffffc9000040d000#64, .qhgpuVfree 4096, .qhgpuVfree 0xffffc90000400000#64] =
        some gmp' ∧ gmp'.nunits = clearedPool.nunits ∧ gmp'.Represented :=
  represented_of_calls findsZeroArea_scanZeroArea clearedPool_cleared _

end QHGPU
