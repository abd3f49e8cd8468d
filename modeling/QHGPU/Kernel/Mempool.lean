import QHGPU.Base.Header
import Mathlib.Logic.Function.Basic

/-!
# The shared memory pool

`set_gpu_mempool` and `fill_ku_request` of `src/qhgpu/main.c`. The driver redefines
`PAGE_SIZE` as 512 while `PAGE_SHIFT` stays Linux's 12. What Linux answers (`kmalloc`,
`vmap`, the page walk of `qhgpu_v2page`) is an argument.
-/

namespace QHGPU

/-- `PAGE_SIZE` as `src/qhgpu/main.c:36` redefines it. -/
def pageSize : Nat := 512

/-- Linux's `PAGE_SHIFT`; a real page has `2 ^ pageShift` bytes. -/
def pageShift : Nat := 12

/-- `QHGPU_BUF_UNIT_SIZE`, `src/qhgpu/main.c:37`. -/
def qhgpuBufUnitSize : Nat := 1024 * 50

/-- `QHGPU_BUF_NR_FRAMES_PER_UNIT`, `src/qhgpu/main.c:38`. -/
def qhgpuBufNrFramesPerUnit : Nat := qhgpuBufUnitSize / pageSize

/-- A physical page frame, standing for the `struct page *` that describes it. -/
abbrev Page := Nat

/-- A `kmalloc`'ed array: the number of entries asked for, and the memory from its start. -/
structure KArray (α : Type) where
  cap : Nat
  get : Nat → α

/-- `struct _qhgpu_mempool`, `src/qhgpu/main.c:53–61`; `none` is a null pointer. -/
structure QhgpuMempool where
  uva : Word
  kva : Word
  pages : Option (KArray Page)
  npages : BitVec 32
  nunits : BitVec 32
  bitmap : Option (KArray Bool)
  allocSz : Option (KArray (BitVec 32))

/-- The cleared descriptor, `src/qhgpu/main.c:717`. -/
def QhgpuMempool.zeroed : QhgpuMempool := ⟨0, 0, none, 0, 0, none, none⟩

/-- `struct qhgpu_gpu_mem_info`, `src/qhgpu/qhgpu.h:26–29`. -/
structure QhgpuGpuMemInfo where
  uva : Word
  size : Word

/-- What Linux answers during one `set_gpu_mempool`: the uncleared memory of each `kmalloc`
(`none` when it fails) and the address `vmap` returns (0 when it fails). -/
structure MempoolEnv where
  kmallocPages : Option (Nat → Page)
  kmallocBitmap : Option (Nat → Bool)
  kmallocAllocSz : Option (Nat → BitVec 32)
  vmap : Word

/-- `i*PAGE_SIZE` in `int`, converted to `unsigned long`. -/
def pageOffset (i : Nat) : Word := (BitVec.ofNat 32 (i * pageSize)).signExtend 64

/-- The loop `for (i=0; i<npages; i++) pages[i] = qhgpu_v2page(uva + i*PAGE_SIZE)`,
`src/qhgpu/main.c:363–366`. -/
def fillPages (v2page : Word → Page) (uva : Word) : Nat → (Nat → Page) → Nat → Page
  | 0, pages => pages
  | i + 1, pages =>
    Function.update (fillPages v2page uva i pages) i (v2page (uva + pageOffset i))

/-- `BITS_TO_LONGS`. -/
def bitsToLongs (nbits : Nat) : Nat := (nbits + 63) / 64

/-- `bitmap_zero` clears whole longs. -/
def bitmapZero (nbits : Nat) (bitmap : Nat → Bool) (i : Nat) : Bool :=
  if i < 64 * bitsToLongs nbits then false else bitmap i

/-- `memset(alloc_sz, 0, n)` clears `n` bytes of an array of little-endian `u32`. -/
def memsetZero (n : Nat) (a : Nat → BitVec 32) (i : Nat) : BitVec 32 :=
  if 4 * (i + 1) ≤ n then 0
  else if 4 * i < n then (a i >>> (8 * (n - 4 * i))) <<< (8 * (n - 4 * i))
  else a i

/-- `set_gpu_mempool`, `src/qhgpu/main.c:340–407`: the return value and the descriptor it
leaves, which an early exit leaves partly overwritten. -/
def setGpuMempool (env : MempoolEnv) (v2page : Word → Page) (gb : QhgpuGpuMemInfo)
    (gmp : QhgpuMempool) : Int × QhgpuMempool :=
  let npages := (gb.size / BitVec.ofNat 64 pageSize).setWidth 32
  let nunits := npages / BitVec.ofNat 32 qhgpuBufNrFramesPerUnit
  let gmp := { gmp with uva := gb.uva, npages := npages }
  match gmp.pages <|> env.kmallocPages.map (KArray.mk npages.toNat) with
  | none => (-enomem, gmp)
  | some pages =>
    let gmp := { gmp with
      pages := some { pages with get := fillPages v2page gb.uva npages.toNat pages.get }
      nunits := nunits }
    match gmp.bitmap <|> env.kmallocBitmap.map (KArray.mk (64 * bitsToLongs nunits.toNat)) with
    | none => (-enomem, gmp)
    | some bitmap =>
      let gmp := { gmp with
        bitmap := some { bitmap with get := bitmapZero nunits.toNat bitmap.get } }
      match gmp.allocSz <|> env.kmallocAllocSz.map (KArray.mk nunits.toNat) with
      | none => (-enomem, gmp)
      | some allocSz =>
        let gmp := { gmp with
          allocSz := some { allocSz with get := memsetZero nunits.toNat allocSz.get }
          kva := env.vmap }
        if env.vmap = 0 then (-efault, gmp) else (0, gmp)

/-- `npages<<PAGE_SHIFT`, a 32-bit shift widened by `TO_UL`. -/
def QhgpuMempool.byteSize (gmp : QhgpuMempool) : Word := (gmp.npages <<< pageShift).setWidth 64

/-- The test `fill_ku_request` makes on each of its three pointers. -/
def QhgpuMempool.rebases (gmp : QhgpuMempool) (p : Word) : Bool :=
  addrWithin p gmp.kva gmp.byteSize

/-- The rebase-or-copy that `fill_ku_request` repeats for `in`, `out` and `udata`. -/
def QhgpuMempool.rebasePtr (gmp : QhgpuMempool) (p : Word) : Word :=
  if gmp.rebases p then addrRebase gmp.uva gmp.kva p else p

/-- `fill_ku_request`, `src/qhgpu/main.c:275–338`. `mmap_addr` keeps what the caller's stack
held. -/
def fillKuRequest (gmp : QhgpuMempool) (kureq : QhgpuKuRequest) (req : QhgpuRequest) :
    QhgpuKuRequest :=
  { kureq with
    id := req.id
    serviceName := req.serviceName.take qhgpuServiceNameSize
    kmmapAddr := req.kmmapAddr
    mmapSize := req.mmapSize
    batchSize := req.batchSize
    inp := gmp.rebasePtr req.inp
    out := gmp.rebasePtr req.out
    data := gmp.rebasePtr req.udata
    insize := req.insize
    outsize := req.outsize
    datasize := req.udatasize }

end QHGPU
