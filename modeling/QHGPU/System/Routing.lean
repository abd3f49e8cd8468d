import QHGPU.Connector.Fidelity
import QHGPU.Library.StepRun
import QHGPU.System.RoutingSteps

/-!
# Responses reach their own request

A response names its request by the id of a slot only. It completes the right request as long
as no two requests whose items wait share an id; then the launch, the post and the error code
behind a callback are those of the request that is called back.
-/

namespace QHGPU.System

open Kernel (Tid ItemId ReqId Pc Count Numbered)
open Connector (Daemon Loop LoopPc Pass Answer Event LoopInv stepLoop)
open Correlation

variable {d : Daemon} {s s' : State} {a : Act}

/-- The `i`-th request that the daemon has read is `r`. -/
def State.Serial (s : State) (i : Nat) (r : ReqId) : Prop :=
  ∃ j, s.kernel.taken[i]? = some j ∧ s.kernel.itemReq j = r

/-- A `qhgpu_write` that has found item `j` writes the daemon's response for a read of the
request of `j`, whose launch and post have returned 0; and from the store of the error code
on, so when the callback runs, the request has the code recorded for that read. -/
def Routed (s : State) : Prop :=
  ∀ t j count p, s.kernel.threads t = .write j count p →
    ∃ i rest, s.loop.pc = .writing i rest ∧ s.Serial i (s.kernel.itemReq j) ∧
      .launch i 0 ∈ s.loop.st.log ∧ .post i 0 ∈ s.loop.st.log ∧
      ((∀ e, p ≠ .errcode e) →
        (s.kernel.request (s.kernel.itemReq j)).errcode = (s.loop.st.sr i).errcode)

/-- A request is put on `reqs` only while no item of another request with the same id was
enqueued and not yet found by a response. -/
def RouteOk (s : State) : Act → Prop
  | .kernel (.step t) => ∀ i, (s.kernel.threads t).enqueues = some i →
      ∀ j, s.kernel.Waiting j →
        (s.kernel.request (s.kernel.itemReq j)).id = (s.kernel.request (s.kernel.itemReq i)).id →
        s.kernel.itemReq j = s.kernel.itemReq i
  | _ => True

/-- The invariant of runs that meet the condition. -/
structure RoutingInv (d : Daemon) (s : State) : Prop where
  numbered : Numbered s.kernel
  loop : LoopInv d s.loop
  clients : ∀ t ≠ daemonTid, (s.kernel.threads t).ofClient = true
  apart : IdsApart s.kernel
  served : Served s.kernel s.loop (s.kernel.threads daemonTid)

/-- At the start no request is under way. -/
theorem routingInv_start (n : Nat) (arr : Int → Word) (pool : QhgpuMempool) :
    RoutingInv d (.start n arr pool) where
  numbered := Kernel.numbered_start n arr pool
  loop := Connector.loopInv_beginPass .start .serviceDone
  clients _ _ := rfl
  apart _ _ h := absurd h.1 List.not_mem_nil
  served := by
    refine ⟨.walk rfl, ?_, covered_nil _ _⟩
    intro i kureq hi
    cases hi

/-! ### One step -/

/-- Ids stay apart over a step that puts no request next to another with its id. -/
theorem idsApart_trans {k k' : Kernel.State} {a : Kernel.Act} (hn : Numbered k)
    (ht : Kernel.Trans k a k') (ha : IdsApart k)
    (hok : ∀ t, a = .step t → ∀ i, (k.threads t).enqueues = some i → ∀ j, k.Waiting j →
      (k.request (k.itemReq j)).id = (k.request (k.itemReq i)).id →
      k.itemReq j = k.itemReq i) : IdsApart k' := by
  have hlt (j : ItemId) (hj : k'.Waiting j) : j < k.nextItem := by
    rcases ht.waiting hj with hw | ⟨t, -, hen⟩
    · exact hn.lt_of_waiting hw
    · exact hn.lt_of_enqueues hen
  have howner (j : ItemId) (hj : k'.Waiting j) : k'.itemReq j = k.itemReq j :=
    ht.itemReq_eq (hlt j hj)
  have hkey (j : ItemId) (hj : k'.Waiting j) :
      (k'.request (k.itemReq j)).id = (k.request (k.itemReq j)).id :=
    (ht.slot_eq (hn.itemReq_lt j (hlt j hj))).1
  by_cases hnew : ∃ t i, a = .step t ∧ (k.threads t).enqueues = some i
  · obtain ⟨t, i, rfl, hi⟩ := hnew
    refine (ha.insert (hok t rfl i hi)).congr ?_ howner hkey
    intro j hj
    rcases ht.waiting hj with hw | ⟨t', htt, hen⟩
    · exact Or.inl hw
    · obtain rfl := Kernel.Act.step.inj htt
      exact Or.inr (Option.some.inj (hen.symm.trans hi))
  · refine ha.congr ?_ howner hkey
    intro j hj
    rcases ht.waiting hj with hw | ⟨t, htt, hen⟩
    · exact hw
    · exact (hnew ⟨t, j, htt, hen⟩).elim

/-- A thread other than the daemon's makes calls of clients. -/
theorem ofClient_of_permits {ka : Kernel.Act} (hp : s.permits ka = true)
    (hc : ∀ t ≠ daemonTid, (s.kernel.threads t).ofClient = true)
    (ht : ka.tid ≠ some daemonTid) : ka.OfClient s.kernel := by
  cases ka with
  | read => cases hp
  | write => cases hp
  | step t => exact hc t fun heq ↦ ht (congrArg some heq)
  | signal t => exact hc t fun heq ↦ ht (congrArg some heq)
  | _ => trivial

/-- A step inside the driver keeps the invariant. -/
theorem RoutingInv.kernel {ka : Kernel.Act} {k' : Kernel.State} (h : RoutingInv d s)
    (hok : RouteOk s (.kernel ka)) (hp : s.permits ka = true)
    (hk : Kernel.step s.kernel ka = some k') : RoutingInv d ⟨k', s.loop⟩ := by
  have ht := Kernel.trans_of_step hk
  have hapart : IdsApart k' := by
    refine idsApart_trans h.numbered ht h.apart ?_
    rintro t rfl
    exact hok
  by_cases hdaemon : ka.tid = some daemonTid
  · have hclients (t : Tid) (hne : t ≠ daemonTid) : (k'.threads t).ofClient = true := by
      rw [ht.threads_of_ne fun heq ↦ hne (Option.some.inj (heq.symm.trans hdaemon))]
      exact h.clients t hne
    refine ⟨ht.numbered h.numbered, h.loop, hclients, hapart, ?_⟩
    cases ka with
    | step t =>
      obtain rfl := Option.some.inj hdaemon
      refine kernelStep_served h.numbered h.loop h.apart h.served ?_ hk
      intro ret buf hpc
      rw [State.permits, hpc] at hp
      cases hp
    | signal t =>
      obtain rfl := Option.some.inj hdaemon
      exact kernelSignal_served h.numbered h.loop h.served hk
    | callSync t =>
      obtain rfl := Option.some.inj hdaemon
      exact (Bool.false_ne_true hp).elim
    | callAsync t =>
      obtain rfl := Option.some.inj hdaemon
      exact (Bool.false_ne_true hp).elim
    | read => cases hp
    | write => cases hp
    | alloc => cases hdaemon
    | fill => cases hdaemon
    | returnMmap => cases hdaemon
  · have hclient := ht.clientStep (ofClient_of_permits hp h.clients hdaemon)
    refine ⟨ht.numbered h.numbered, h.loop, ?_, hapart, ?_⟩
    · intro t hne
      rcases hclient.threads t with heq | hof
      · exact (congrArg Pc.ofClient heq).trans (h.clients t hne)
      · exact hof
    · change Served k' s.loop (k'.threads daemonTid)
      rw [ht.threads_of_ne hdaemon]
      exact h.served.quiet h.numbered h.loop ht hclient.toQuiet

/-- A step of the daemon keeps the invariant. -/
theorem RoutingInv.daemon {ans : Answer} {stack : QhgpuKuRequest} (h : RoutingInv d s)
    (hs : stepDaemon d s ans stack = some s') : RoutingInv d s' := by
  have hserved := stepDaemon_served h.numbered h.loop h.served hs
  have hloop : LoopInv d s'.loop := by
    obtain ⟨ans', heq⟩ := stepDaemon_loop hs
    rw [heq]
    exact h.loop.step ans'
  rcases stepDaemon_kernel hs with heq | ⟨ka, ht, htid, hen⟩
  · refine ⟨?_, hloop, ?_, ?_, hserved⟩
    · rw [heq]
      exact h.numbered
    · rw [heq]
      exact h.clients
    · rw [heq]
      exact h.apart
  · refine ⟨ht.numbered h.numbered, hloop, ?_, ?_, hserved⟩
    · intro t hne
      rw [ht.threads_of_ne fun heq ↦ hne (Option.some.inj (heq.symm.trans htid))]
      exact h.clients t hne
    · refine idsApart_trans h.numbered ht h.apart ?_
      rintro t rfl i hi
      rw [hen t rfl] at hi
      cases hi

/-- A step that meets `RouteOk` keeps the invariant. -/
theorem RoutingInv.step (h : RoutingInv d s) (hok : RouteOk s a)
    (hs : step d s a = some s') : RoutingInv d s' := by
  cases a with
  | kernel ka =>
    rw [System.step] at hs
    split at hs
    · next hp =>
      obtain ⟨k', hk, rfl⟩ := Option.map_eq_some_iff.mp hs
      exact h.kernel hok hp hk
    · cases hs
  | daemon ans stack => exact h.daemon hs

/-! ### Every run -/

/-- The invariant says where the responses go. -/
theorem RoutingInv.routed (h : RoutingInv d s) : Routed s := by
  intro t j count p ht
  obtain rfl : t = daemonTid := by
    by_contra hne
    have := h.clients t hne
    rw [ht] at this
    cases this
  have hserved := h.served
  have hloop := h.loop
  obtain ⟨k, st, lpc⟩ := s
  dsimp only at ht hserved hloop ⊢
  rw [ht] at hserved
  have hcall := hserved.call
  cases hcall with
  | @write i rest _ _ _ hlen hi hj hreq hcode hstored =>
    obtain ⟨-, -, -, -, hlaunch, hpost⟩ := LoopInv.responding hloop
    have hlt : i < k.taken.length := hlen ▸ hi
    refine ⟨i, rest, rfl, ⟨k.taken[i], List.getElem?_eq_getElem hlt, ?_⟩, hlaunch, hpost, ?_⟩
    · change k.itemReq k.taken[i] = k.itemReq j
      rw [hreq, reqOf, List.getD_eq_getElem _ _ hlt]
    · intro hp
      rw [hreq]
      exact hstored hp

/-- Response routing: from `n` free slots, over any interleaving of clients and daemon in
which a request is put on `reqs` only while no unanswered item of another request has its id,
every response completes an item of the request it was made for, after the launch and the
post of that request, and the callback sees the recorded error code. -/
theorem routed_of_meets (d : Daemon) (n : Nat) (arr : Int → Word) (pool : QhgpuMempool)
    (acts : List Act) (s : State)
    (hm : StepRun.Meets (step d) RouteOk (.start n arr pool) acts)
    (h : StepRun.run (step d) (.start n arr pool) acts = some s) : Routed s :=
  (StepRun.run_invariant (fun _ _ _ hinv hok hs ↦ RoutingInv.step hinv hok hs)
    (routingInv_start n arr pool) hm h).routed

/-- `poll` finds the device readable, or nothing to read. -/
def polled (ready : Int) : Answer :=
  ⟨0, 0, ⟨fun _ ↦ ready, true, true, 0, false, .zeroed⟩⟩

/-- A call of `launch` or `post` that returns `code`. -/
def answered (code : Int) : Answer := { polled 0 with code := code }

/-- The name of `batch_service`. -/
def batchName : List UInt8 := [98, 97, 116, 99, 104, 95, 115, 101, 114, 118, 105, 99, 101]

/-- A client allocates request `r` and submits it from thread 1. -/
def submit (r : ReqId) : List Act :=
  [.kernel (.alloc 0 batchName (some (Kernel.fieldsWith 0, 0))),
    .kernel (.callAsync 1 r true), .kernel (.step 1)]

/-- The daemon goes on; what the system call it begins finds on the stack is cleared. -/
def go (ans : Answer) : Act := .daemon ans .zeroed

/-- The daemon finds a request on the device and takes it in. -/
def takeIn : List Act :=
  [go (polled 1), .kernel (.step 0), .kernel (.step 0), go (polled 0)]

/-- Three empty passes. -/
def idlePasses : List Act := [go (polled 0), go (polled 0), go (polled 0)]

/-- Two requests are submitted and read. The first launch of request 0 fails and is to be
tried again; meanwhile request 1 is launched, posted and answered, up to its callback. -/
def overtaking : List Act :=
  submit 0 ++ submit 1 ++ idlePasses ++ takeIn ++
    [go (polled 0), go (polled 0), go (answered 1), go (polled 0)] ++ takeIn ++
    [go (polled 0), go (polled 0), go (answered 1), go (answered 0), go (polled 0),
      go (polled 0), go (polled 0), go (answered 0), go (answered 1), go (polled 0),
      go (polled 0), go (polled 0), .kernel (.step 0), .kernel (.step 0)]

/-- With two slots the requests have two ids, and the response for request 1 completes its
item while that of request 0 waits. -/
theorem routed_of_meets_overtaking : ∃ s,
    StepRun.run (step Connector.batchDaemon) (.start 2 (fun _ ↦ 0) .zeroed) overtaking = some s ∧
      s.kernel.threads 0 = .write 1 Kernel.kuResponseCount .callback ∧ s.kernel.Waiting 0 ∧
      Routed s := by
  refine ⟨_, rfl, rfl, ?_, routed_of_meets Connector.batchDaemon 2 (fun _ ↦ 0) .zeroed
    overtaking _ ?_ rfl⟩
  · exact ⟨by decide, by decide⟩
  iterate 2 refine StepRun.meets_cons trivial rfl ?_
  refine StepRun.meets_cons ?_ rfl ?_
  · intro i _ j hj
    exact absurd hj.1 List.not_mem_nil
  iterate 2 refine StepRun.meets_cons trivial rfl ?_
  refine StepRun.meets_cons ?_ rfl ?_
  -- item 0 waits when item 1 is put on `reqs`, with another id
  · intro i hi j hj hid
    obtain rfl := Option.some.inj hi
    obtain rfl := List.mem_singleton.mp hj.1
    exact absurd hid (by decide)
  iterate 4 refine StepRun.meets_cons trivial rfl ?_
  iterate 2 refine StepRun.meets_cons (fun i hi ↦ by cases hi) rfl ?_
  iterate 6 refine StepRun.meets_cons trivial rfl ?_
  iterate 2 refine StepRun.meets_cons (fun i hi ↦ by cases hi) rfl ?_
  iterate 13 refine StepRun.meets_cons trivial rfl ?_
  iterate 2 refine StepRun.meets_cons (fun i hi ↦ by cases hi) rfl ?_
  trivial

/-- With one slot the requests share it, and the response for request 1 completes the item of
request 0. -/
theorem not_routed_sharedSlot : ¬∀ (d : Daemon) (n : Nat) (arr : Int → Word)
    (pool : QhgpuMempool) (acts : List Act) (s : State),
    StepRun.run (step d) (.start n arr pool) acts = some s → Routed s := by
  intro hall
  obtain ⟨i, rest, hpc, ⟨j, hj, hreq⟩, -⟩ :=
    hall Connector.batchDaemon 1 (fun _ ↦ 0) .zeroed overtaking _ rfl 0 0 Kernel.kuResponseCount
      .callback rfl
  obtain ⟨rfl, -⟩ := LoopPc.writing.inj hpc
  obtain rfl := Option.some.inj hj
  exact absurd hreq (by decide)

end QHGPU.System
