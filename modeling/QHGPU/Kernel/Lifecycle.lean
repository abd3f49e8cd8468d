import QHGPU.Kernel.Objects

/-!
# Requests from allocation to `qhgpu_free_request`

`qhgpu_request_cache` around the request path. The cache hands out a new object, on which
`qhgpu_request_constructor` has run, or one that was freed, as its last holder left it. What a
client does to a request after freeing it is not modelled.
-/

namespace QHGPU.Kernel

open CString

/-- The request path, the requests that were freed, and the free objects in the cache. -/
structure Lifecycle where
  kernel : State
  freed : ReqId → Bool
  slab : List QhgpuRequest

/-- `n` free slots, no request, an empty cache. -/
def Lifecycle.start (n : Nat) (kmmapAddrArr : Int → Word) (gmpool : QhgpuMempool) : Lifecycle :=
  ⟨.start n kmmapAddrArr gmpool, fun _ ↦ false, []⟩

/-- `qhgpu_request_constructor`, `src/qhgpu/main.c:151–159`; the id it draws is overwritten by
`qhgpu_alloc_request`. -/
def constructed : QhgpuRequest :=
  { QhgpuRequest.zeroed with serviceName := List.replicate qhgpuServiceNameSize 0 }

/-- `qhgpu_alloc_request`, `src/qhgpu/main.c:794–825`, on the object `o`. -/
def allocFrom (s : State) (dataSize : Int) (serviceName : List UInt8) (o : QhgpuRequest) :
    State :=
  let (id, s) := qhgpuMmapId s
  { s.setRequest s.nextReq { o with
      serviceName := strcpy o.serviceName serviceName
      id := id
      kmmapAddr := s.kmmapAddrArr id
      mmapSize := BitVec.ofInt 64 dataSize
      batchSize := BitVec.ofInt 64 (batchCount dataSize) } with
    nextReq := s.nextReq + 1 }

/-- The call of the request path is the one on an object with the given contents. -/
theorem qhgpuAllocRequest_eq (s : State) (dataSize : Int) (serviceName : List UInt8)
    (f : ClientFields) (errcode : Int) :
    qhgpuAllocRequest s dataSize serviceName (some (f, errcode)) =
      some (allocFrom s dataSize serviceName
        (assign { QhgpuRequest.zeroed with errcode := errcode } f)) := rfl

/-- Where `kmem_cache_alloc` takes the object from. -/
inductive Source where
  | fresh
  | reuse (k : Nat)
  deriving DecidableEq, Repr

/-- What can happen next. `src` is `none` when the cache fails; `strcpy` then writes through
the null pointer. -/
inductive LifeAct where
  | alloc (dataSize : Int) (serviceName : List UInt8) (src : Option Source)
  | free (r : ReqId)
  | kernel (a : Act)

/-- The request that a call of a client is given. -/
def Act.onRequest : Act → Option ReqId
  | .fill r _ | .returnMmap r | .callSync _ r _ _ | .callAsync _ r _ => some r
  | _ => none

/-- One step. Clients use the requests that they have not freed. -/
def lifeStep (l : Lifecycle) : LifeAct → Option Lifecycle
  | .alloc _ _ none => none
  | .alloc dataSize serviceName (some .fresh) =>
    some { l with kernel := allocFrom l.kernel dataSize serviceName constructed }
  | .alloc dataSize serviceName (some (.reuse k)) =>
    l.slab[k]?.map fun o ↦ { l with
      kernel := allocFrom l.kernel dataSize serviceName o
      slab := l.slab.eraseIdx k }
  | .free r =>
    if r < l.kernel.nextReq ∧ l.freed r = false then
      some { l with
        freed := Function.update l.freed r true
        slab := l.kernel.request r :: l.slab }
    else none
  | .kernel a =>
    if a.isAlloc = false ∧ a.onRequest.all (fun r ↦ l.freed r = false) then
      (step l.kernel a).map fun k ↦ { l with kernel := k }
    else none

/-- The steps of the machine. -/
inductive LifeTrans (l : Lifecycle) : LifeAct → Lifecycle → Prop
  | alloc {dataSize serviceName src o slab} (ho : o = constructed ∨ o ∈ l.slab) :
      LifeTrans l (.alloc dataSize serviceName src) { l with
        kernel := allocFrom l.kernel dataSize serviceName o
        slab := slab }
  | free {r} (hr : r < l.kernel.nextReq) : LifeTrans l (.free r) { l with
      freed := Function.update l.freed r true
      slab := l.kernel.request r :: l.slab }
  | kernel {a k} (ha : a.isAlloc = false) (hk : Trans l.kernel a k) :
      LifeTrans l (.kernel a) { l with kernel := k }

/-- Every step is one of `LifeTrans`. -/
theorem lifeTrans_of_step {l l' : Lifecycle} {a : LifeAct} (h : lifeStep l a = some l') :
    LifeTrans l a l' := by
  cases a with
  | alloc dataSize serviceName src =>
    cases src with
    | none => cases h
    | some src =>
      cases src with
      | fresh =>
        obtain rfl := Option.some.inj h
        exact .alloc (Or.inl rfl)
      | reuse k =>
        obtain ⟨o, ho, rfl⟩ := Option.map_eq_some_iff.mp h
        exact .alloc (Or.inr (List.mem_of_getElem? ho))
  | free r =>
    rw [lifeStep, Option.ite_none_right_eq_some] at h
    obtain ⟨⟨hr, _⟩, h⟩ := h
    obtain rfl := Option.some.inj h
    exact .free hr
  | kernel a =>
    rw [lifeStep, Option.ite_none_right_eq_some] at h
    obtain ⟨⟨ha, _⟩, h⟩ := h
    obtain ⟨k, hk, rfl⟩ := Option.map_eq_some_iff.mp h
    exact .kernel ha (trans_of_step hk)

/-! ### Allocation -/

/-- What `qhgpu_alloc_request` does to the slots and the requests. -/
theorem allocFrom_spec (s : State) (dataSize : Int) (serviceName : List UInt8)
    (o : QhgpuRequest) :
    let s' := allocFrom s dataSize serviceName o
    s'.nextReq = s.nextReq + 1 ∧ s'.moduleCnt = s.moduleCnt ∧ s'.released = s.released ∧
      (∀ r < s.nextReq, s'.request r = s.request r) ∧
      (s'.request s.nextReq).id = (qhgpuMmapId s).1 ∧
      s'.moduleActiveChecker = (qhgpuMmapId s).2.moduleActiveChecker := by
  have hold (req : QhgpuRequest) {r : ReqId} (hr : r < s.nextReq) :
      Function.update s.request s.nextReq req r = s.request r :=
    Function.update_of_ne (Nat.ne_of_lt hr) req s.request
  rcases mmapId_cases s with ⟨k, _, _, _, heq⟩ | ⟨_, heq⟩
  · rw [allocFrom, heq]
    refine ⟨rfl, rfl, rfl, fun r hr ↦ hold _ hr, ?_, rfl⟩
    simp only [State.setRequest, Function.update_self]
  · rw [allocFrom, heq]
    refine ⟨rfl, rfl, rfl, fun r hr ↦ hold _ hr, ?_, rfl⟩
    simp only [State.setRequest, Function.update_self]

/-- An allocation touches neither items nor threads. -/
theorem allocFrom_frame (s : State) (dataSize : Int) (serviceName : List UInt8)
    (o : QhgpuRequest) :
    let s' := allocFrom s dataSize serviceName o
    s'.handOff = s.handOff ∧ s'.nextItem = s.nextItem ∧ s'.itemReq = s.itemReq ∧
      s'.threads = s.threads := by
  rcases mmapId_cases s with ⟨k, _, _, _, heq⟩ | ⟨_, heq⟩
  · rw [allocFrom, heq]
    exact ⟨rfl, rfl, rfl, rfl⟩
  · rw [allocFrom, heq]
    exact ⟨rfl, rfl, rfl, rfl⟩

variable {l l' : Lifecycle} {a : LifeAct}

/-- Numbers in use stay those of allocated objects. -/
theorem LifeTrans.numbered (h : LifeTrans l a l') (hn : Numbered l.kernel) :
    Numbered l'.kernel := by
  cases h with
  | @alloc dataSize serviceName src o slab ho =>
    obtain ⟨hhand, hitem, hreq, hthreads⟩ := allocFrom_frame l.kernel dataSize serviceName o
    have hnext := (allocFrom_spec l.kernel dataSize serviceName o).1
    constructor
    · rw [hhand]
      exact hn.conserved
    · intro i hi
      dsimp only at hi ⊢
      rw [hitem] at hi
      rw [hreq, hnext]
      exact Nat.lt_succ_of_lt (hn.itemReq_lt i hi)
    · intro t c hc
      dsimp only at hc ⊢
      rw [hthreads] at hc
      obtain ⟨hlt, hitem', hr⟩ := hn.sync t c hc
      rw [hitem, hreq, hnext]
      exact ⟨Nat.lt_succ_of_lt hlt, hitem', hr⟩
  | free => exact hn
  | kernel _ hk => exact hk.numbered hn

end QHGPU.Kernel
