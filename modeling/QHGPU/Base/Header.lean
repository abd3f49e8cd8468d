import Mathlib.Algebra.Group.Int.Defs
import Mathlib.Algebra.Group.Nat.Defs
import Mathlib.Logic.Basic

/-!
# The shared header

Data of `src/qhgpu/qhgpu.h`: addresses, error codes, the three request records and the
response. Pointers and `unsigned long` are 64-bit words (LP64), `int` is `Int`.
Fields that no modelled function reads or writes are left out.
-/

namespace QHGPU

/-- A pointer value or an `unsigned long`. -/
abbrev Word := BitVec 64

/-- `ADDR_WITHIN`, `src/qhgpu/qhgpu.h:18–20`. The end `base + size` wraps. -/
def addrWithin (pointer base size : Word) : Bool :=
  decide (base ≤ pointer) && decide (pointer < base + size)

/-- `ADDR_REBASE`, `src/qhgpu/qhgpu.h:22–24`. -/
def addrRebase (dstBase srcBase pointer : Word) : Word := dstBase + (pointer - srcBase)

/-- `QHGPU_SERVICE_NAME_SIZE`, `src/qhgpu/qhgpu.h:35`. -/
def qhgpuServiceNameSize : Nat := 32

/-- `_MAX_BATCH_SIZE`, `src/qhgpu/qhgpu.h:34`. -/
def maxBatchSize : Int := 2 ^ 18

/-- `QHGPU_OK`, `src/qhgpu/qhgpu.h:48`. -/
def qhgpuOk : Int := 0

/-- `QHGPU_NO_SERVICE`, `src/qhgpu/qhgpu.h:50`. -/
def qhgpuNoService : Int := 2

/-- `QHGPU_TERMINATED`, `src/qhgpu/qhgpu.h:51`. -/
def qhgpuTerminated : Int := 3

/-- Linux `errno` values the driver returns negated. -/
def enomem : Int := 12
def eagain : Int := 11
def efault : Int := 14
def einval : Int := 22
def erestartsys : Int := 512

/-- The end of user space on x86-64, `TASK_SIZE_MAX`. -/
def taskSizeMax : Nat := 0x7ffffffff000

/-- `access_ok`: the bytes from `addr` on lie in user space. -/
def accessOk (addr : Word) (size : Nat) : Bool := decide (addr.toNat + size ≤ taskSizeMax)

/-- `sizeof(struct qhgpu_gpu_mem_info[QHGPU_BUF_NR])`, the size in the numbers of the commands with
an argument, `src/qhgpu/qhgpu.h:75–82`. -/
def sizeofGpuMemInfo : Nat := 16

/-- The test that `qhgpu_ioctl` makes of the argument before its `switch`,
`src/qhgpu/main.c:482–487`. -/
def ioctlAccepts (arg : Word) : Bool := accessOk arg sizeofGpuMemInfo

/-- The number of a slot, or of slots, is an address in user space. -/
theorem ioctlAccepts_of_lt {arg : Word} (h : arg.toNat < 2 ^ 31) : ioctlAccepts arg = true := by
  rw [ioctlAccepts, accessOk, decide_eq_true_iff, sizeofGpuMemInfo, taskSizeMax]
  omega

/-- What `req->callback` points to: nothing, the driver's own `sync_callback`, or a
function of a client module. -/
inductive Callback where
  | null
  | syncCallback
  | client (fn : Nat)
  deriving DecidableEq, Repr

/-- A function pointer that a client supplied. -/
def Callback.ofClient : Option Nat → Callback
  | none => .null
  | some fn => .client fn

/-- What `req->kdata` points to: client data, or the sync-call data block with that number. -/
inductive Kdata where
  | client (p : Word)
  | sync (data : Nat)
  deriving DecidableEq, Repr

/-- `struct qhgpu_request`, `src/qhgpu/qhgpu.h:163–172`. -/
structure QhgpuRequest where
  id : Int
  inp : Word
  out : Word
  udata : Word
  kdata : Kdata
  kmmapAddr : Word
  insize : Word
  outsize : Word
  udatasize : Word
  mmapSize : Word
  batchSize : Word
  serviceName : List UInt8
  callback : Callback
  errcode : Int
  module : Word
  deriving DecidableEq, Repr

/-- The request with every field zero, as `qhgpu_request_constructor` clears it. -/
def QhgpuRequest.zeroed : QhgpuRequest where
  id := 0
  inp := 0
  out := 0
  udata := 0
  kdata := .client 0
  kmmapAddr := 0
  insize := 0
  outsize := 0
  udatasize := 0
  mmapSize := 0
  batchSize := 0
  serviceName := []
  callback := .null
  errcode := 0
  module := 0

/-- `struct qhgpu_ku_request`, `src/qhgpu/qhgpu.h:39–45`. -/
structure QhgpuKuRequest where
  id : Int
  mmapAddr : Word
  kmmapAddr : Word
  serviceName : List UInt8
  inp : Word
  out : Word
  data : Word
  insize : Word
  outsize : Word
  datasize : Word
  mmapSize : Word
  batchSize : Word
  deriving DecidableEq, Repr

/-- The kernel-user record with every field zero. -/
def QhgpuKuRequest.zeroed : QhgpuKuRequest := ⟨0, 0, 0, [], 0, 0, 0, 0, 0, 0, 0, 0⟩

/-- `sizeof(struct qhgpu_ku_request)` on LP64. -/
def sizeofKuRequest : Nat := 120

/-- `struct qhgpu_ku_response`, `src/qhgpu/qhgpu.h:53–56`. -/
structure QhgpuKuResponse where
  id : Int
  errcode : Int
  deriving DecidableEq, Repr

/-- `sizeof(struct qhgpu_ku_response)`. -/
def sizeofKuResponse : Nat := 8

/-- The request states of `src/qhgpu/qhgpu.h:120–125`; `unset` is the 0 that `memset` leaves. -/
inductive ReqState where
  | unset
  | init
  | memDone
  | prepared
  | running
  | postExec
  | done
  deriving DecidableEq, Repr

/-- `struct qhgpu_service`, `src/qhgpu/connector.h:25–33`. The functions `launch` and `post`
are named by number: the connector only calls them and looks at what they return. -/
structure QhgpuService where
  name : List UInt8
  sid : Int
  launch : Nat
  post : Nat
  deriving DecidableEq, Repr

/-- `struct qhgpu_service_request`, `src/qhgpu/qhgpu.h:101–115`. -/
structure QhgpuServiceRequest where
  id : Int
  hin : Word
  hout : Word
  hdata : Word
  kmmapAddr : Word
  mmapAddr : Word
  insize : Word
  outsize : Word
  datasize : Word
  mmapSize : Word
  batchSize : Word
  errcode : Int
  s : Option QhgpuService
  state : ReqState
  streamId : Int
  devfd : Int
  deriving DecidableEq, Repr

/-- The record after `memset(&item->sr, 0, sizeof(struct qhgpu_service_request))`. -/
def QhgpuServiceRequest.zeroed : QhgpuServiceRequest where
  id := 0
  hin := 0
  hout := 0
  hdata := 0
  kmmapAddr := 0
  mmapAddr := 0
  insize := 0
  outsize := 0
  datasize := 0
  mmapSize := 0
  batchSize := 0
  errcode := 0
  s := none
  state := .unset
  streamId := 0
  devfd := 0

end QHGPU
