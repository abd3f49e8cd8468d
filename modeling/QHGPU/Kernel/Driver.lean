import QHGPU.Kernel.Mempool
import QHGPU.Library.CString

/-!
# The request path of the driver

`src/qhgpu/main.c`, from `qhgpu_alloc_request` to the callback, as a machine that any number
of threads drive. One step is a section under a lock, or one access to memory that other
threads use too. Requests, queue items and sync-call data blocks are numbered in the order of
their allocation; a number is not used again after its object is freed.
-/

namespace QHGPU.Kernel

open CString

abbrev ReqId := Nat
abbrev ItemId := Nat
abbrev DataId := Nat
abbrev Tid := Nat

/-- A byte count as the VFS passes it to `read` and `write`: it fits `ssize_t`. -/
structure Count where
  val : Nat
  fits : val < 2 ^ 63
  deriving DecidableEq

/-- The fields of a request that its client fills in. -/
structure ClientFields where
  inp : Word
  out : Word
  udata : Word
  kdata : Word
  insize : Word
  outsize : Word
  udatasize : Word
  mmapSize : Word
  batchSize : Word
  serviceName : List UInt8
  callback : Option Nat
  module : Word

/-- The client's assignments; `id`, `kmmap_addr` and `errcode` stay. -/
def assign (req : QhgpuRequest) (f : ClientFields) : QhgpuRequest :=
  { req with
    inp := f.inp
    out := f.out
    udata := f.udata
    kdata := .client f.kdata
    insize := f.insize
    outsize := f.outsize
    udatasize := f.udatasize
    mmapSize := f.mmapSize
    batchSize := f.batchSize
    serviceName := f.serviceName
    callback := .ofClient f.callback
    module := f.module }

/-- `struct _qhgpu_sync_call_data`, `src/qhgpu/main.c:107–112`, without its wait queue. -/
structure SyncCallData where
  oldkdata : Kdata
  oldcallback : Callback
  done : Int
  deriving DecidableEq

/-- The locals of one `qhgpu_call_sync`, with what `req->kdata` and `req->callback` were when it
was called, `src/qhgpu/main.c:846–871`. -/
structure SyncCall where
  req : ReqId
  item : ItemId
  data : DataId
  kdata0 : Kdata
  callback0 : Callback
  deriving DecidableEq

/-- What `qhgpu_call_sync` does next, `src/qhgpu/main.c:875–903`. -/
inductive SyncPhase where
  | setKdata
  | setCallback
  | enqueue
  | wait
  | restoreKdata
  | restoreCallback
  | free
  | returnMmap
  | ret
  deriving DecidableEq

/-- What `qhgpu_write` does next with the item it has found, `src/qhgpu/main.c:245–270`. The last
three phases before `free` are those of `sync_callback`. -/
inductive WritePhase where
  | errcode (e : Int)
  | callback
  | client
  | kdata
  | done (data : Kdata)
  | wake (data : Kdata)
  | free
  deriving DecidableEq

/-- Where a thread is. -/
inductive Pc where
  | idle
  | sync (c : SyncCall) (p : SyncPhase)
  | asyncEnqueue (i : ItemId)
  | readLock (count : Count) (nonblock : Bool) (stack : QhgpuKuRequest)
  | readWait (count : Count) (nonblock : Bool) (stack : QhgpuKuRequest)
  | readHand (i : ItemId) (count : Count) (kureq : QhgpuKuRequest)
  | readReturn (ret : Int) (buf : Option QhgpuKuRequest)
  | writeFind (count : Count) (resp : QhgpuKuResponse)
  | write (i : ItemId) (count : Count) (p : WritePhase)
  deriving DecidableEq

/-- `qhgpudev`, the slot table and the objects of the three caches, as far as the request path
uses them, and the threads; then the history of the run: the items in the order of each
event, the values `qhgpu_write` has returned, the requests whose slot was given back, and
whether a sync-call data block was used that is not allocated. -/
structure State where
  devState : Int
  moduleCnt : Nat
  moduleActiveChecker : Int → Int
  kmmapAddrArr : Int → Word
  moduleArr : Int → Word
  gmpool : QhgpuMempool
  reqs : List ItemId
  rtdreqs : List ItemId
  request : ReqId → QhgpuRequest
  nextReq : ReqId
  itemReq : ItemId → ReqId
  nextItem : ItemId
  syncData : DataId → Option SyncCallData
  nextData : DataId
  threads : Tid → Pc
  enqueued : List ItemId
  taken : List ItemId
  dropped : List ItemId
  completed : List ItemId
  called : List ItemId
  finished : List ItemId
  writeReturns : List Int
  released : ReqId → Bool
  staleAccess : Bool

/-- After `mod_init`, `QHGPU_IOC_SET_MMAP(n)` and the mappings: `n` free slots, no request. -/
def State.start (n : Nat) (kmmapAddrArr : Int → Word) (gmpool : QhgpuMempool) : State where
  devState := qhgpuOk
  moduleCnt := n
  moduleActiveChecker _ := 0
  kmmapAddrArr := kmmapAddrArr
  moduleArr _ := 0
  gmpool := gmpool
  reqs := []
  rtdreqs := []
  request _ := .zeroed
  nextReq := 0
  itemReq _ := 0
  nextItem := 0
  syncData _ := none
  nextData := 0
  threads _ := .idle
  enqueued := []
  taken := []
  dropped := []
  completed := []
  called := []
  finished := []
  writeReturns := []
  released _ := false
  staleAccess := false

/-! ### Client calls -/

/-- The thread goes on at `pc`. -/
def State.goto (s : State) (t : Tid) (pc : Pc) : State :=
  { s with threads := Function.update s.threads t pc }

/-- A store to request `r`. -/
def State.setRequest (s : State) (r : ReqId) (req : QhgpuRequest) : State :=
  { s with request := Function.update s.request r req }

/-- `qhgpu_mmap_id`, `src/qhgpu/main.c:1049–1060`. -/
def qhgpuMmapId (s : State) : Int × State :=
  match (List.range s.moduleCnt).find? fun i : Nat ↦ s.moduleActiveChecker i = 0 with
  | some i =>
    (i, { s with moduleActiveChecker := Function.update s.moduleActiveChecker i 1 })
  | none => (0, s)

/-- `qhgpu_return_mmap`, `src/qhgpu/main.c:1063–1068`, called for the id of request `r`. -/
def qhgpuReturnMmap (s : State) (r : ReqId) : State :=
  { s with
    moduleActiveChecker := Function.update s.moduleActiveChecker (s.request r).id 0
    released := Function.update s.released r true }

/-- The batch count of `src/qhgpu/main.c:822`; C division truncates. -/
def batchCount (dataSize : Int) : Int :=
  if dataSize.tmod maxBatchSize = 0 then dataSize.tdiv maxBatchSize
  else dataSize.tdiv maxBatchSize + 1

/-- `qhgpu_alloc_request`, `src/qhgpu/main.c:794–825`. The object holds what the constructor or
its last holder left; `none` is the null pointer, which `strcpy` then writes through. -/
def qhgpuAllocRequest (s : State) (dataSize : Int) (serviceName : List UInt8)
    (obj : Option (ClientFields × Int)) : Option State :=
  match obj with
  | none => none
  | some (f, errcode) =>
    let (id, s) := qhgpuMmapId s
    let req := assign { QhgpuRequest.zeroed with errcode := errcode } f
    some { s.setRequest s.nextReq { req with
        serviceName := strcpy req.serviceName serviceName
        id := id
        kmmapAddr := s.kmmapAddrArr id
        mmapSize := BitVec.ofInt 64 dataSize
        batchSize := BitVec.ofInt 64 (batchCount dataSize) } with
      nextReq := s.nextReq + 1 }

/-- `qhgpu_call_sync`, `src/qhgpu/main.c:845–872`, up to the first store to the request: the code
that it returns, `none` when it goes on, and the state; `dataOk` and `itemOk` say whether the two
allocations succeed. A caller that gets an error is idle again. -/
def qhgpuCallSync (s : State) (t : Tid) (r : ReqId) (dataOk itemOk : Bool) : Option Int × State :=
  if s.devState = qhgpuTerminated then (some qhgpuTerminated, s)
  else if dataOk = false then (some (-enomem), s)
  else if itemOk = false then
    (some (-enomem), { s with
      syncData := Function.update s.syncData s.nextData (some ⟨.client 0, .null, 0⟩)
      nextData := s.nextData + 1 })
  else
    let req := s.request r
    (none, { s with
      itemReq := Function.update s.itemReq s.nextItem r
      nextItem := s.nextItem + 1
      syncData := Function.update s.syncData s.nextData (some ⟨req.kdata, req.callback, 0⟩)
      nextData := s.nextData + 1 }.goto t
        (.sync ⟨r, s.nextItem, s.nextData, req.kdata, req.callback⟩ .setKdata))

/-- `qhgpu_call_async`, `src/qhgpu/main.c:926–941`, likewise. -/
def qhgpuCallAsync (s : State) (t : Tid) (r : ReqId) (itemOk : Bool) : Option Int × State :=
  if s.devState = qhgpuTerminated then (some qhgpuTerminated, s)
  else if itemOk = false then (some (-enomem), s)
  else
    (none, { s with
      itemReq := Function.update s.itemReq s.nextItem r
      nextItem := s.nextItem + 1 }.goto t (.asyncEnqueue s.nextItem))

/-- The section under `reqlock` that both calls share, `src/qhgpu/main.c:881–889`. -/
def State.enqueue (s : State) (i : ItemId) : State :=
  { s with reqs := s.reqs ++ [i], enqueued := s.enqueued ++ [i] }

/-! ### The steps of a thread -/

/-- The live sync-call data block a pointer leads to. -/
def State.syncAt (s : State) : Kdata → Option SyncCallData
  | .sync d => s.syncData d
  | .client _ => none

/-- An access to a sync-call data block. One that finds none is recorded; what it hits
instead is not modelled. -/
def State.withSync (s : State) (data : Kdata) (f : SyncCallData → State) : State :=
  match s.syncAt data with
  | some d => f d
  | none => { s with staleAccess := true }

/-- `wait_event_interruptible(data->queue, (data->done == 1))` finds its condition true,
`src/qhgpu/main.c:891`. -/
def State.isDone (s : State) (data : DataId) : Bool := (s.syncData data).any (·.done == 1)

/-- `src/qhgpu/main.c:875–903`. -/
def stepSync (s : State) (t : Tid) (c : SyncCall) : SyncPhase → Option State
  | .setKdata =>
    some ((s.setRequest c.req { s.request c.req with kdata := .sync c.data }).goto t
      (.sync c .setCallback))
  | .setCallback =>
    let s := s.setRequest c.req { s.request c.req with callback := .syncCallback }
    let req := s.request c.req
    some ({ s with moduleArr := Function.update s.moduleArr req.id req.module }.goto t
      (.sync c .enqueue))
  | .enqueue => some ((s.enqueue c.item).goto t (.sync c .wait))
  | .wait => if s.isDone c.data then some (s.goto t (.sync c .restoreKdata)) else none
  | .restoreKdata =>
    some ((s.withSync (.sync c.data) fun d ↦
      s.setRequest c.req { s.request c.req with kdata := d.oldkdata }).goto t
        (.sync c .restoreCallback))
  | .restoreCallback =>
    some ((s.withSync (.sync c.data) fun d ↦
      s.setRequest c.req { s.request c.req with callback := d.oldcallback }).goto t
        (.sync c .free))
  | .free =>
    some ({ s with syncData := Function.update s.syncData c.data none }.goto t
      (.sync c .returnMmap))
  | .returnMmap => some ((qhgpuReturnMmap s c.req).goto t (.sync c .ret))
  | .ret => some (s.goto t .idle)

/-- `find_request`, `src/qhgpu/main.c:202–218`: the item it returns. -/
def findRequest (s : State) (id : Int) : Option ItemId :=
  s.rtdreqs.find? fun i ↦ (s.request (s.itemReq i)).id = id

/-- `src/qhgpu/main.c:245–268`, with `sync_callback`, `src/qhgpu/main.c:831–840`. A call
through a null callback goes no further. -/
def stepWrite (s : State) (t : Tid) (i : ItemId) (count : Count) : WritePhase → Option State
  | .errcode e =>
    let r := s.itemReq i
    some ((s.setRequest r { s.request r with errcode := e }).goto t (.write i count .callback))
  | .callback =>
    let s' := { s with called := s.called ++ [i] }
    match (s.request (s.itemReq i)).callback with
    | .null => none
    | .client _ => some (s'.goto t (.write i count .client))
    | .syncCallback => some (s'.goto t (.write i count .kdata))
  | .client => some (s.goto t (.write i count .free))
  | .kdata => some (s.goto t (.write i count (.done (s.request (s.itemReq i)).kdata)))
  | .done data =>
    let s' := s.withSync data fun d ↦
      match data with
      | .sync n => { s with syncData := Function.update s.syncData n (some { d with done := 1 }) }
      | .client _ => s
    some (s'.goto t (.write i count (.wake data)))
  | .wake data => some ((s.withSync data fun _ ↦ s).goto t (.write i count .free))
  | .free =>
    some ({ s with
      writeReturns := s.writeReturns ++ [(count.val : Int)]
      finished := s.finished ++ [i] }.goto t .idle)

/-- The next step of a thread; `none` when it is idle, waits, or cannot go on. -/
def stepThread (s : State) (t : Tid) : Option State :=
  match s.threads t with
  | .idle => none
  | .sync c p => stepSync s t c p
  | .asyncEnqueue i => some ((s.enqueue i).goto t .idle)
  | .readLock count nonblock stack =>
    match s.reqs with
    | [] =>
      if nonblock then some (s.goto t (.readReturn (-eagain) none))
      else some (s.goto t (.readWait count nonblock stack))
    | i :: rest =>
      some ({ s with reqs := rest, taken := s.taken ++ [i] }.goto t
        (.readHand i count (fillKuRequest s.gmpool stack (s.request (s.itemReq i)))))
  | .readWait count nonblock stack =>
    if s.reqs = [] then none else some (s.goto t (.readLock count nonblock stack))
  | .readHand i count kureq =>
    let s' := if 0 < count.val then { s with rtdreqs := s.rtdreqs ++ [i] }
      else { s with dropped := s.dropped ++ [i] }
    some (s'.goto t (.readReturn count.val (some kureq)))
  | .readReturn _ _ => some (s.goto t .idle)
  | .writeFind count resp =>
    match findRequest s resp.id with
    | none => some ({ s with writeReturns := s.writeReturns ++ [-efault] }.goto t .idle)
    | some i =>
      some ({ s with rtdreqs := s.rtdreqs.erase i, completed := s.completed ++ [i] }.goto t
        (.write i count (.errcode resp.errcode)))
  | .write i count p => stepWrite s t i count p

/-- A signal ends a wait whose condition is false. `qhgpu_read` returns, `qhgpu_call_sync`
ignores it. -/
def signalThread (s : State) (t : Tid) : Option State :=
  match s.threads t with
  | .sync c .wait => if s.isDone c.data then none else some (s.goto t (.sync c .restoreKdata))
  | .readWait _ _ _ =>
    if s.reqs = [] then some (s.goto t (.readReturn (-erestartsys) none)) else none
  | _ => none

/-! ### The machine -/

/-- What can happen next. `stack` is what `kureq` holds on the stack of `qhgpu_read`. -/
inductive Act where
  | alloc (dataSize : Int) (serviceName : List UInt8) (obj : Option (ClientFields × Int))
  | fill (r : ReqId) (f : ClientFields)
  | returnMmap (r : ReqId)
  | callSync (t : Tid) (r : ReqId) (dataOk itemOk : Bool)
  | callAsync (t : Tid) (r : ReqId) (itemOk : Bool)
  | read (t : Tid) (count : Count) (nonblock : Bool) (stack : QhgpuKuRequest)
  | write (t : Tid) (count : Count) (resp : QhgpuKuResponse)
  | step (t : Tid)
  | signal (t : Tid)

/-- One step. Calls are made by idle threads, on requests that were allocated. -/
def step (s : State) : Act → Option State
  | .alloc dataSize serviceName obj => qhgpuAllocRequest s dataSize serviceName obj
  | .fill r f =>
    if r < s.nextReq then some (s.setRequest r (assign (s.request r) f)) else none
  | .returnMmap r => if r < s.nextReq then some (qhgpuReturnMmap s r) else none
  | .callSync t r dataOk itemOk =>
    if s.threads t = .idle ∧ r < s.nextReq then some (qhgpuCallSync s t r dataOk itemOk).2
    else none
  | .callAsync t r itemOk =>
    if s.threads t = .idle ∧ r < s.nextReq then some (qhgpuCallAsync s t r itemOk).2 else none
  | .read t count nonblock stack =>
    if s.threads t = .idle then some (s.goto t (.readLock count nonblock stack)) else none
  | .write t count resp =>
    if s.threads t = .idle then
      if count.val < sizeofKuResponse then
        some { s with writeReturns := s.writeReturns ++ [-einval] }
      else some (s.goto t (.writeFind count resp))
    else none
  | .step t => stepThread s t
  | .signal t => signalThread s t

/-! ### Small runs -/

/-- A new object to which a client gives callback `fn`. -/
def fieldsWith (fn : Nat) : ClientFields where
  inp := 0
  out := 0
  udata := 0
  kdata := 0
  insize := 0
  outsize := 0
  udatasize := 0
  mmapSize := 0
  batchSize := 0
  serviceName := []
  callback := some fn
  module := 0

/-- `sizeof(struct qhgpu_ku_request)` as a count. -/
def kuRequestCount : Count := ⟨sizeofKuRequest, by decide⟩

/-- `sizeof(struct qhgpu_ku_response)` as a count. -/
def kuResponseCount : Count := ⟨sizeofKuResponse, by decide⟩

/-- A request allocated, submitted by thread 1 with `qhgpu_call_async`, and read by thread 0. -/
def submitAndRead : List Act :=
  [.alloc 1 [] (some (fieldsWith 0, 0)), .callAsync 1 0 true, .step 1,
    .read 0 kuRequestCount false .zeroed, .step 0, .step 0, .step 0]

/-- Thread 0 writes response `resp`, up to the return of `qhgpu_write`. -/
def writeBack (resp : QhgpuKuResponse) : List Act :=
  [.write 0 kuResponseCount resp, .step 0, .step 0, .step 0, .step 0, .step 0]

end QHGPU.Kernel
