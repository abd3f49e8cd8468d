import QHGPU.Kernel.OpenItems
import QHGPU.System.ServiceSteps

/-!
# What a call computes

A service works on the buffer of the slot that its request names. In runs in which clients leave
the buffers of open items alone, a client that is called back finds in its buffer what one
successful launch and one successful post of the service have made of what it put there.
-/

namespace QHGPU.System

open Kernel (Tid ItemId ReqId Pc SyncCall SyncPhase Numbered)
open Connector (Daemon Loop LoopPc Pass Answer LoopInv StageInv stepLoop)

/-! ### The machine -/

/-- Clients and daemon, the content of the buffer of each slot, and what the buffer of an item
held when the item was enqueued. -/
structure Remote (α : Type) where
  sys : State
  buffer : Int → α
  submitted : ItemId → α

/-- A step of clients or daemon, in which a call of a service leaves `left` in the buffer; or a
store of a client to the buffer of a request. -/
inductive RemoteAct (α : Type) where
  | sys (a : Act) (left : α)
  | store (r : ReqId) (content : α)

variable {α : Type}

/-- The buffers after a step of the daemon: `sr->mmap_addr` is the daemon's mapping of the slot. -/
def Remote.served (s : Remote α) (left : α) : Int → α :=
  match Loop.serving s.sys.loop with
  | some i => Function.update s.buffer (s.sys.loop.st.sr i).id left
  | none => s.buffer

/-- What was submitted, after a step of thread `t`. -/
def Remote.enqueued (s : Remote α) (t : Tid) : ItemId → α :=
  match (s.sys.kernel.threads t).enqueues with
  | some j => Function.update s.submitted j (s.buffer (s.sys.kernel.slot j))
  | none => s.submitted

/-- One step. -/
def remoteStep (d : Daemon) (s : Remote α) : RemoteAct α → Option (Remote α)
  | .sys (.daemon ans stack) left =>
    (step d s.sys (.daemon ans stack)).map fun t ↦
      { s with sys := t, buffer := s.served left }
  | .sys (.kernel (.step t)) _ =>
    (step d s.sys (.kernel (.step t))).map fun u ↦
      { s with sys := u, submitted := s.enqueued t }
  | .sys a _ => (step d s.sys a).map fun t ↦ { s with sys := t }
  | .store r content =>
    some { s with buffer := Function.update s.buffer (s.sys.kernel.request r).id content }

/-- Before any request. -/
def Remote.start (n : Nat) (arr : Int → Word) (pool : QhgpuMempool) (buffer : Int → α) :
    Remote α := ⟨.start n arr pool, buffer, fun _ ↦ buffer 0⟩

/-- What the request had become when its service was done. -/
def Computed (sv : Services α) (s : Remote α) (j : ItemId) : Prop :=
  let req := s.sys.kernel.request (s.sys.kernel.itemReq j)
  req.errcode = 0 ∧ ∃ (i : Nat) (kureq : QhgpuKuRequest) (stack : QhgpuKuRequest),
    s.sys.kernel.taken[i]? = some j ∧
      s.sys.loop.st.requests[i]? = some kureq ∧
      kureq = fillKuRequest s.sys.kernel.gmpool stack req ∧
      sv.Performed kureq (s.submitted j) (s.buffer req.id)

/-- The call was woken up and has not given its slot back. -/
def SyncPhase.woken : SyncPhase → Bool
  | .restoreKdata | .restoreCallback | .free | .returnMmap => true
  | _ => false

/-- A client has its buffer back: the callback is about to be called, or the caller that waited
goes on. -/
def Remote.HandedBack (s : Remote α) (j : ItemId) : Prop :=
  (∃ t count, s.sys.kernel.threads t = .write j count .callback) ∨
    ∃ t c p, s.sys.kernel.threads t = .sync c p ∧ SyncPhase.woken p = true ∧ c.item = j

/-- Services do what `sv` says. Clients meet `SyncOk`; they enqueue an item only while no open
item has its slot, do not fill in the request of an open item, and do not store to its buffer. -/
def RemoteOk (sv : Services α) (s : Remote α) : RemoteAct α → Prop
  | .sys (.kernel a) _ => Kernel.SyncOk s.sys.kernel a ∧
    (∀ t j, a = .step t → (s.sys.kernel.threads t).enqueues = some j → ∀ j', s.sys.kernel.Open j' →
      s.sys.kernel.slot j' ≠ s.sys.kernel.slot j) ∧
    ∀ r f, a = .fill r f → ∀ j, s.sys.kernel.Open j → s.sys.kernel.itemReq j ≠ r
  | .sys (.daemon ans _) left => ∀ p i rest kureq, s.sys.loop.pc = .walk p (i :: rest) →
    p ≠ .serviceDone → s.sys.loop.st.requests[i]? = some kureq →
    sv.call p kureq ans.code (s.buffer (s.sys.loop.st.sr i).id) left
  | .store r _ => ∀ j, s.sys.kernel.Open j → s.sys.kernel.slot j ≠ (s.sys.kernel.request r).id

variable {sv : Services α} {d : Daemon} {s s' : Remote α} {k k' : Kernel.State}
  {st : Connector.State} {l : Loop} {i j : Nat}

/-! ### The invariant -/

/-- The record was filled in from the request of the item. -/
def Sent (k : Kernel.State) (j : ItemId) (kureq : QhgpuKuRequest) : Prop :=
  ∃ stack, kureq = fillKuRequest k.gmpool stack (k.request (k.itemReq j))

/-- What holds of an open item. Until the daemon has taken its request in, the buffer is as it was
submitted; afterwards it is what the stage of the request says. -/
structure Tracked (sv : Services α) (s : Remote α) (j : ItemId) : Prop where
  unread : (∀ i : Nat, s.sys.kernel.taken[i]? = some j → s.sys.loop.st.requests.length ≤ i) →
    s.buffer (s.sys.kernel.slot j) = s.submitted j
  hand : ∀ kureq, (s.sys.kernel.threads daemonTid).kuRequest = some kureq →
    s.sys.kernel.taken[s.sys.loop.st.requests.length]? = some j → Sent s.sys.kernel j kureq
  read : ∀ (i : Nat) (kureq : QhgpuKuRequest), s.sys.kernel.taken[i]? = some j →
    s.sys.loop.st.requests[i]? = some kureq → Sent s.sys.kernel j kureq ∧
      Content sv s.sys.loop.st i kureq (s.submitted j) (s.buffer (s.sys.kernel.slot j))
  answered : j ∈ s.sys.kernel.completed → ∃ i : Nat, s.sys.kernel.taken[i]? = some j ∧
    i < s.sys.loop.st.requests.length ∧ Posted s.sys.loop.st i
  coded : j ∈ s.sys.kernel.called → (s.sys.kernel.request (s.sys.kernel.itemReq j)).errcode = 0

/-- The invariant of runs that meet `RemoteOk`. -/
structure RemoteInv (sv : Services α) (d : Daemon) (s : Remote α) : Prop where
  routing : RoutingInv d s.sys
  sync : Kernel.SyncInv s.sys.kernel
  apart : ∀ j j', s.sys.kernel.Open j → s.sys.kernel.Open j' →
    s.sys.kernel.slot j = s.sys.kernel.slot j' → j = j'
  owed : ∀ i ∈ owedSerials s.sys.loop.st s.sys.loop.pc (s.sys.kernel.threads daemonTid),
    ∃ j ∈ s.sys.kernel.rtdreqs, s.sys.kernel.taken[i]? = some j
  hand : ∀ j count kureq, s.sys.kernel.threads daemonTid = .readHand j count kureq →
    s.sys.kernel.taken[s.sys.loop.st.requests.length]? = some j
  tracked : ∀ j, s.sys.kernel.Open j → Tracked sv s j

/-- The response is for the slot of the item that the daemon read. -/
theorem slot_of_taken {kureq : QhgpuKuRequest} (hs : Serials k st)
    (hreq : st.requests[i]? = some kureq) (hj : k.taken[i]? = some j) : kureq.id = k.slot j := by
  obtain ⟨hlt, hid⟩ := hs i kureq hreq
  rw [hid, Kernel.State.slot, reqOf, List.getD_eq_getElem?_getD, hj]
  rfl

namespace RemoteInv

/-- The item of a request that is owed an answer is open. -/
theorem open_of_owed (h : RemoteInv sv d s)
    (hi : i ∈ owedSerials s.sys.loop.st s.sys.loop.pc (s.sys.kernel.threads daemonTid)) :
    ∃ j, s.sys.kernel.taken[i]? = some j ∧ s.sys.kernel.Open j := by
  obtain ⟨j, hj, htaken⟩ := h.owed i hi
  have hn := h.sync.numbered
  exact ⟨j, htaken, Kernel.open_of_waiting hn (hn.waiting_of_delivered hj)⟩

/-- The request that is served, its item and its slot. -/
theorem serving (h : RemoteInv sv d s) {p : Pass} {rest : List Nat}
    (hpc : s.sys.loop.pc = .walk p (i :: rest)) (hp : p ≠ .serviceDone) :
    i ∈ s.sys.loop.st.stage p.stage ∧ ∃ j kureq, s.sys.kernel.taken[i]? = some j ∧
      s.sys.kernel.Open j ∧ s.sys.loop.st.requests[i]? = some kureq ∧
      (s.sys.loop.st.sr i).id = s.sys.kernel.slot j := by
  have hi : i ∈ s.sys.loop.st.stage p.stage :=
    (h.routing.loop.walk p _ hpc).subset List.mem_cons_self
  obtain ⟨kureq, hreq, hrec, _⟩ := h.routing.loop.stage.item p.stage i hi
  have hid : (s.sys.loop.st.sr i).id = kureq.id := by
    refine (Connector.Stage.record_found hrec ?_).2.1
    cases p <;> simp [Pass.stage] at hp ⊢
  have howed : i ∈ owedSerials s.sys.loop.st s.sys.loop.pc (s.sys.kernel.threads daemonTid) := by
    rw [hpc]
    exact (h.routing.loop.stage.mem_all i).mpr ⟨_, hi⟩
  obtain ⟨j, htaken, hopen⟩ := h.open_of_owed howed
  exact ⟨hi, j, kureq, htaken, hopen, hreq,
    hid.trans (slot_of_taken h.routing.served.serials hreq htaken)⟩

/-- What a step of the daemon leaves in the buffer of an open item: the serving of its own request
puts there what it puts, any other keeps it. -/
theorem served_eq (h : RemoteInv sv d s) (left : α) (hj : s.sys.kernel.Open j) :
    s.served left (s.sys.kernel.slot j) =
      if ∃ i, Loop.serving s.sys.loop = some i ∧ s.sys.kernel.taken[i]? = some j then left
      else s.buffer (s.sys.kernel.slot j) := by
  rw [Remote.served]
  cases hserving : Loop.serving s.sys.loop with
  | none => simp
  | some i =>
    obtain ⟨p, rest, hpc, hp⟩ := pc_of_serving hserving
    obtain ⟨_, j', _, htaken, hopen, _, hid⟩ := h.serving hpc hp
    dsimp only
    rw [hid, Function.update_apply]
    refine if_congr ?_ rfl rfl
    constructor
    · intro hslot
      obtain rfl := h.apart j j' hj hopen hslot
      exact ⟨i, rfl, htaken⟩
    · rintro ⟨i', hi', htaken'⟩
      obtain rfl := Option.some.inj hi'
      rw [Option.some.inj (htaken'.symm.trans htaken)]

end RemoteInv

/-! ### A step inside the driver -/

private theorem getElem?_extended {xs ys : List ItemId} (h : xs <+: ys) (hi : i < xs.length) :
    ys[i]? = xs[i]? := by
  obtain ⟨rest, rfl⟩ := h
  exact List.getElem?_append_left hi

private theorem Sent.trans {a : Kernel.Act} {kureq : QhgpuKuRequest} (h : Sent k j kureq)
    (hn : Numbered k) (ht : Kernel.Trans k a k') (hj : j < k.nextItem)
    (hfill : ∀ f, a ≠ .fill (k.itemReq j) f) : Sent k' j kureq := by
  obtain ⟨stack, rfl⟩ := h
  refine ⟨stack, ?_⟩
  rw [ht.gmpool_eq, ht.itemReq_eq hj, ht.record_eq (hn.itemReq_lt j hj) hfill]

namespace RemoteInv

variable {a : Kernel.Act} {left : α} {submitted : ItemId → α}

/-- Only the daemon's thread is in `qhgpu_read` or `qhgpu_write`. -/
theorem eq_daemonTid (h : RemoteInv sv d s) {t : Tid}
    (ht : (s.sys.kernel.threads t).ofClient = false) : t = daemonTid := by
  by_contra hne
  rw [h.routing.clients t hne] at ht
  cases ht

/-- A step of another thread takes, delivers and answers nothing. -/
theorem quiet (h : RemoteInv sv d s) (hp : s.sys.permits a = true)
    (ht : Kernel.Trans s.sys.kernel a k') (hne : a.tid ≠ some daemonTid) :
    Kernel.Quiet s.sys.kernel k' :=
  (ht.clientStep (ofClient_of_permits hp h.routing.clients hne)).toQuiet

private theorem routeOk (h : RemoteInv sv d s) (hok : RemoteOk sv s (.sys (.kernel a) left)) :
    RouteOk s.sys (.kernel a) := by
  cases a with
  | step t =>
    intro i hi j hj hid
    have hopen := Kernel.open_of_waiting h.sync.numbered hj
    exact absurd hid (hok.2.1 t i rfl hi j hopen)
  | _ => trivial

/-- The response that finds an item is that for the item's own request. -/
theorem find_writing (h : RemoteInv sv d s) {t : Tid} {count : Kernel.Count}
    {resp : QhgpuKuResponse} (hpc : s.sys.kernel.threads t = .writeFind count resp)
    (hfind : Kernel.findRequest s.sys.kernel resp.id = some j) :
    ∃ i rest, s.sys.loop.pc = .writing i rest ∧ s.sys.kernel.taken[i]? = some j ∧
      i < s.sys.loop.st.requests.length ∧ Posted s.sys.loop.st i := by
  have hn := h.sync.numbered
  obtain rfl := h.eq_daemonTid (t := t) (by rw [hpc]; rfl)
  obtain ⟨i, rest, hloop, rfl⟩ : ∃ i rest, s.sys.loop.pc = .writing i rest ∧
      resp = s.sys.loop.st.response i := by
    have hcall := h.routing.served.call
    rw [hpc] at hcall
    generalize s.sys.loop.pc = lpc at hcall
    cases hcall with
    | writeFind => exact ⟨_, _, rfl, rfl⟩
  have hwriting : LoopInv d ⟨s.sys.loop.st, .writing i rest⟩ := by
    rw [← hloop]
    exact h.routing.loop
  obtain ⟨hall, kureq, hreq, hid, _⟩ := LoopInv.responding hwriting
  have howed : i ∈ owedSerials s.sys.loop.st s.sys.loop.pc (s.sys.kernel.threads daemonTid) := by
    rw [hloop, hpc]
    exact hall
  obtain ⟨j', htaken, hopen⟩ := h.open_of_owed howed
  have hslot : s.sys.kernel.slot j = s.sys.kernel.slot j' := by
    have hfound : s.sys.kernel.slot j = (s.sys.loop.st.response i).id :=
      of_decide_eq_true (List.find?_some hfind :)
    rw [hfound, ← slot_of_taken h.routing.served.serials hreq htaken]
    exact hid
  have hopen' := Kernel.open_of_waiting hn (hn.waiting_of_delivered (Kernel.findRequest_mem hfind))
  obtain rfl := h.apart j j' hopen' hopen hslot
  exact ⟨i, rest, hloop, htaken, (List.getElem?_eq_some_iff.mp hreq).1,
    Or.inl (hwriting.writing i rest rfl |>.subset List.mem_cons_self)⟩

/-- The callback sees the error code 0. -/
theorem errcode_of_callback (h : RemoteInv sv d s) {t : Tid} {count : Kernel.Count}
    (hpc : s.sys.kernel.threads t = .write j count .callback) :
    (s.sys.kernel.request (s.sys.kernel.itemReq j)).errcode = 0 := by
  obtain ⟨i, rest, hloop, _, _, _, hcode⟩ := h.routing.routed t j count .callback hpc
  have hi : i ∈ s.sys.loop.st.stage .postExec :=
    (h.routing.loop.writing i rest hloop).subset List.mem_cons_self
  obtain ⟨kureq, _, hrec, _⟩ := h.routing.loop.stage.item .postExec i hi
  rw [hcode (by simp)]
  exact (Connector.Stage.record_found hrec (by decide)).2.2

/-- What holds of an open item goes on to hold. -/
theorem tracked_kernel (h : RemoteInv sv d s) (hok : RemoteOk sv s (.sys (.kernel a) left))
    (hp : s.sys.permits a = true) (ht : Kernel.Trans s.sys.kernel a k')
    (hj : s.sys.kernel.Open j) (hsub : submitted j = s.submitted j) :
    Tracked sv ⟨⟨k', s.sys.loop⟩, s.buffer, submitted⟩ j := by
  have hn := h.sync.numbered
  have hlt := hn.lt_of_open hj
  have htracked := h.tracked j hj
  have hslot := ht.slot hn hlt
  have hitem := ht.itemReq_eq hlt
  have hkeep {i : Nat} (htaken : s.sys.kernel.taken[i]? = some j) : k'.taken[i]? = some j := by
    rw [getElem?_extended ht.taken_prefix (List.getElem?_eq_some_iff.mp htaken).1]
    exact htaken
  have hsent {kureq : QhgpuKuRequest} (hs : Sent s.sys.kernel j kureq) : Sent k' j kureq := by
    apply hs.trans hn ht hlt
    rintro f rfl
    exact hok.2.2 _ f rfl j hj rfl
  constructor
  · intro hunread
    dsimp only at hunread ⊢
    rw [hslot, hsub]
    exact htracked.unread fun i hi ↦ hunread i (hkeep hi)
  · intro kureq hkureq htaken
    apply hsent
    by_cases htid : a.tid = some daemonTid
    · cases a with
      | step t =>
        obtain rfl := Option.some.inj htid
        rcases ht.hand_cases hkureq with ⟨i, count, hold, _, hsame⟩ |
          ⟨i, count, nonblock, stack, hold, _, hnew, heq⟩
        · dsimp only at htaken
          rw [hsame] at htaken
          exact htracked.hand kureq (by rw [hold]; rfl) htaken
        · -- the item has just been taken
          have hlen : s.sys.kernel.taken.length = s.sys.loop.st.requests.length := by
            have hcall := h.routing.served.call
            rw [hold] at hcall
            generalize s.sys.loop.pc = lpc at hcall
            cases hcall with
            | readLock _ hlen => exact hlen
          dsimp only at htaken
          rw [hnew, ← hlen, List.getElem?_concat_length] at htaken
          obtain rfl := Option.some.inj htaken
          exact ⟨stack, heq⟩
      | signal t =>
        obtain rfl := Option.some.inj htid
        dsimp only at hkureq
        cases ht with
        | signalSync =>
          rw [Kernel.State.threads_goto_self] at hkureq
          cases hkureq
        | signalRead =>
          rw [Kernel.State.threads_goto_self] at hkureq
          cases hkureq
      | callSync | callAsync =>
        obtain rfl := Option.some.inj htid
        cases hp
      | read | write => cases hp
      | alloc | fill | returnMmap => cases htid
    · dsimp only at hkureq htaken
      rw [ht.threads_of_ne htid] at hkureq
      rw [(h.quiet hp ht htid).taken] at htaken
      exact htracked.hand kureq hkureq htaken
  · intro i kureq htaken hreq
    dsimp only at htaken hreq ⊢
    rw [getElem?_extended ht.taken_prefix (h.routing.served.serials i kureq hreq).1] at htaken
    obtain ⟨hs, hcontent⟩ := htracked.read i kureq htaken hreq
    rw [hslot, hsub]
    exact ⟨hsent hs, hcontent⟩
  · intro hcompleted
    have answered (h : ∃ i : Nat, s.sys.kernel.taken[i]? = some j ∧
        i < s.sys.loop.st.requests.length ∧ Posted s.sys.loop.st i) :
        ∃ i : Nat, k'.taken[i]? = some j ∧ i < s.sys.loop.st.requests.length ∧
          Posted s.sys.loop.st i := by
      obtain ⟨i, htaken, hi⟩ := h
      exact ⟨i, hkeep htaken, hi⟩
    apply answered
    dsimp only at hcompleted
    rcases ht.completed_cases with heq | ⟨t, count, resp, i, rfl, hpc, hfind, heq⟩
    · rw [heq] at hcompleted
      exact htracked.answered hcompleted
    · rw [heq] at hcompleted
      rcases List.mem_append.mp hcompleted with hold | hnew
      · exact htracked.answered hold
      · obtain rfl := List.mem_singleton.mp hnew
        obtain ⟨i, _, _, hi⟩ := h.find_writing hpc hfind
        exact ⟨i, hi⟩
  · intro hcalled
    dsimp only at hcalled ⊢
    rw [hitem]
    have hwas : (s.sys.kernel.request (s.sys.kernel.itemReq j)).errcode = 0 ∧
        ∀ t count e, a = .step t → s.sys.kernel.threads t ≠ .write j count (.errcode e) := by
      rcases ht.called_cases with heq | ⟨t, count, i, rfl, hpc, heq⟩
      · rw [heq] at hcalled
        refine ⟨htracked.coded hcalled, ?_⟩
        intro t count e _ hpc
        exact (hn.open_of_removed (t := t) (by rw [hpc]; rfl)).2.1 hcalled
      · rw [heq] at hcalled
        rcases List.mem_append.mp hcalled with hold | hnew
        · refine ⟨htracked.coded hold, ?_⟩
          intro t' count' e heq' hpc'
          obtain rfl := Kernel.Act.step.inj heq'
          cases hpc.symm.trans hpc'
        · obtain rfl := List.mem_singleton.mp hnew
          refine ⟨h.errcode_of_callback hpc, ?_⟩
          intro t' count' e heq' hpc'
          obtain rfl := Kernel.Act.step.inj heq'
          cases hpc.symm.trans hpc'
    rcases ht.errcode_cases (hn.itemReq_lt j hlt) with heq | ⟨t, i, count, e, rfl, hpc, hreq⟩
    · rw [heq]
      exact hwas.1
    · -- another item with this slot is not open
      have hopen := (hn.open_of_removed (t := t) (j := i) (by rw [hpc]; rfl)).2.2
      have heq : i = j := by
        apply h.apart i j hopen hj
        rw [Kernel.State.slot, Kernel.State.slot, hreq]
      subst heq
      exact absurd hpc (hwas.2 t count e rfl)

end RemoteInv

namespace RemoteInv

variable {a : Kernel.Act} {left : α} {submitted : ItemId → α}

/-- What holds of an item that has just been enqueued. -/
theorem tracked_new (h : RemoteInv sv d s) {t : Tid}
    (ht : Kernel.Trans s.sys.kernel (.step t) k') (hj : (s.sys.kernel.threads t).enqueues = some j)
    (hsub : submitted j = s.buffer (s.sys.kernel.slot j)) :
    Tracked sv ⟨⟨k', s.sys.loop⟩, s.buffer, submitted⟩ j := by
  have hn := h.sync.numbered
  have hclient : (s.sys.kernel.threads t).ofClient = true := by
    cases hpc : s.sys.kernel.threads t with
    | sync | asyncEnqueue => rfl
    | _ =>
      rw [hpc] at hj
      cases hj
  have hqueues := ht.client_queues hclient
  have hquiet := (ht.clientStep (a := .step t) hclient).toQuiet
  have hfresh : j ∉ s.sys.kernel.enqueued := hn.not_enqueued hj
  have hcompleted : j ∉ s.sys.kernel.completed :=
    fun hmem ↦ hfresh (hn.conserved.enqueued_of_completed hmem)
  have htaken (i : Nat) : k'.taken[i]? ≠ some j := by
    intro hi
    rw [hquiet.taken] at hi
    apply hfresh
    have hfifo : s.sys.kernel.enqueued = s.sys.kernel.taken ++ s.sys.kernel.reqs :=
      hn.conserved.ordered.fifo
    rw [hfifo]
    exact List.mem_append_left _ (List.mem_of_getElem? hi)
  constructor
  · intro _
    dsimp only
    rw [ht.slot hn (hn.lt_of_enqueues hj), hsub]
  · exact fun _ _ hi ↦ absurd hi (htaken _)
  · exact fun i _ hi ↦ absurd hi (htaken i)
  · intro hmem
    dsimp only at hmem
    rw [hqueues.completed] at hmem
    exact absurd hmem hcompleted
  · intro hmem
    dsimp only at hmem
    rw [hqueues.called] at hmem
    exact absurd (hn.conserved.called hmem).1 hcompleted

/-- The slots of open items stay apart. -/
theorem apart_kernel (h : RemoteInv sv d s) (hok : RemoteOk sv s (.sys (.kernel a) left))
    (ht : Kernel.Trans s.sys.kernel a k') (j j' : ItemId) (hj : k'.Open j) (hj' : k'.Open j')
    (hslot : k'.slot j = k'.slot j') : j = j' := by
  have hn := h.sync.numbered
  have hlt {i : ItemId} (hi : k'.Open i) : i < s.sys.kernel.nextItem := by
    rcases ht.open_cases hn hi with hold | ⟨t, _, hen, _⟩
    · exact hn.lt_of_open hold
    · exact hn.lt_of_enqueues hen
  rw [ht.slot hn (hlt hj), ht.slot hn (hlt hj')] at hslot
  rcases ht.open_cases hn hj with hold | ⟨t, rfl, hen, _⟩
  · rcases ht.open_cases hn hj' with hold' | ⟨t, rfl, hen, _⟩
    · exact h.apart j j' hold hold' hslot
    · exact absurd hslot (hok.2.1 t j' rfl hen j hold)
  · rcases ht.open_cases hn hj' with hold' | ⟨t', heq, hen', _⟩
    · exact absurd hslot.symm (hok.2.1 t j rfl hen j' hold')
    · obtain rfl := Kernel.Act.step.inj heq
      exact Option.some.inj (hen.symm.trans hen')

/-- The item in the daemon's hand is the one it took last. -/
theorem hand_kernel (h : RemoteInv sv d s) (hp : s.sys.permits a = true)
    (ht : Kernel.Trans s.sys.kernel a k') {count : Kernel.Count} {kureq : QhgpuKuRequest}
    (hpc : k'.threads daemonTid = .readHand j count kureq) :
    k'.taken[s.sys.loop.st.requests.length]? = some j := by
  by_cases htid : a.tid = some daemonTid
  · cases a with
    | step t =>
      obtain rfl := Option.some.inj htid
      have hku : (k'.threads daemonTid).kuRequest = some kureq := by
        rw [hpc]
        rfl
      rcases ht.hand_cases hku with ⟨_, _, _, hret, _⟩ |
        ⟨i, _, _, _, hold, hnew, htaken, _⟩
      · cases hpc.symm.trans hret
      · obtain ⟨rfl, _⟩ := Pc.readHand.inj (hpc.symm.trans hnew)
        have hcall := h.routing.served.call
        rw [hold] at hcall
        generalize s.sys.loop.pc = lpc at hcall
        cases hcall with
        | readLock _ hlen => rw [htaken, ← hlen, List.getElem?_concat_length]
    | signal t =>
      obtain rfl := Option.some.inj htid
      cases ht with
      | signalSync =>
        rw [Kernel.State.threads_goto_self] at hpc
        cases hpc
      | signalRead =>
        rw [Kernel.State.threads_goto_self] at hpc
        cases hpc
    | callSync | callAsync =>
      obtain rfl := Option.some.inj htid
      cases hp
    | read | write => cases hp
    | alloc | fill | returnMmap => cases htid
  · rw [ht.threads_of_ne htid] at hpc
    rw [(h.quiet hp ht htid).taken]
    exact h.hand j count kureq hpc

/-- The items of the requests that are owed an answer wait on `rtdreqs`. -/
theorem owed_kernel (h : RemoteInv sv d s) (hp : s.sys.permits a = true)
    (ht : Kernel.Trans s.sys.kernel a k')
    (hi : i ∈ owedSerials s.sys.loop.st s.sys.loop.pc (k'.threads daemonTid)) :
    ∃ j ∈ k'.rtdreqs, k'.taken[i]? = some j := by
  have keep (hrtd : s.sys.kernel.rtdreqs ⊆ k'.rtdreqs)
      (hi : i ∈ owedSerials s.sys.loop.st s.sys.loop.pc (s.sys.kernel.threads daemonTid)) :
      ∃ j ∈ k'.rtdreqs, k'.taken[i]? = some j := by
    obtain ⟨j, hj, htaken⟩ := h.owed i hi
    refine ⟨j, hrtd hj, ?_⟩
    rw [getElem?_extended ht.taken_prefix (List.getElem?_eq_some_iff.mp htaken).1]
    exact htaken
  by_cases htid : a.tid = some daemonTid
  · have hcall := h.routing.served.call
    cases ht with
    | alloc | fill | returnMmap => cases htid
    | syncRefused | syncNoItem | callSync | asyncRefused | callAsync =>
      obtain rfl := Option.some.inj htid
      cases hp
    | read | writeShort | write => cases hp
    | readEmpty hpc _ hpc' =>
      obtain rfl := Option.some.inj htid
      rw [hpc] at keep
      rw [Kernel.State.threads_goto_self] at hi
      apply keep (List.Subset.refl _)
      rcases hpc' with rfl | rfl
      · generalize s.sys.loop.pc = lpc at hi ⊢
        cases lpc <;> exact hi
      · generalize s.sys.loop.pc = lpc at hi ⊢
        cases lpc <;> exact hi
    | readTake hpc | readWake hpc | signalRead hpc =>
      obtain rfl := Option.some.inj htid
      rw [hpc] at keep
      rw [Kernel.State.threads_goto_self] at hi
      apply keep (List.Subset.refl _)
      generalize s.sys.loop.pc = lpc at hi ⊢
      cases lpc <;> exact hi
    | @readPut _ j count kureq hpc hcount =>
      -- the item is put on `rtdreqs`
      obtain rfl := Option.some.inj htid
      have hhand := h.hand j count kureq hpc
      rw [hpc] at keep hcall
      rw [Kernel.State.threads_goto_self] at hi
      generalize hlpc : s.sys.loop.pc = lpc at hi hcall keep
      cases hcall with
      | readHand =>
        rcases List.mem_append.mp hi with hi | hi
        · exact keep (List.subset_append_left _ _) hi
        · rw [List.mem_singleton.mp hi]
          exact ⟨j, List.mem_append_right _ List.mem_cons_self, hhand⟩
    | @readDrop _ _ count _ hpc hcount =>
      obtain rfl := Option.some.inj htid
      rw [hpc] at hcall
      generalize s.sys.loop.pc = lpc at hcall
      cases hcall with
      | readHand hpos => omega
    | readReturn hpc =>
      obtain rfl := Option.some.inj htid
      rw [State.permits, hpc] at hp
      cases hp
    | writeMiss hpc =>
      obtain rfl := Option.some.inj htid
      rw [hpc] at keep
      rw [Kernel.State.threads_goto_self] at hi
      apply keep (List.Subset.refl _)
      generalize s.sys.loop.pc = lpc at hi ⊢
      cases lpc with
      | writing => exact List.mem_of_mem_erase hi
      | _ => exact hi
    | @writeFind _ count resp j hpc hfind =>
      -- the response takes its own item off
      obtain rfl := Option.some.inj htid
      obtain ⟨i', rest, hlpc, htaken', _⟩ := h.find_writing hpc hfind
      rw [hlpc, hpc] at keep
      rw [Kernel.State.threads_goto_self, hlpc] at hi
      have hne : i ≠ i' := by
        rintro rfl
        exact h.routing.loop.stage.all_nodup.not_mem_erase hi
      have howed : i ∈ owedSerials s.sys.loop.st s.sys.loop.pc (s.sys.kernel.threads daemonTid) := by
        rw [hlpc, hpc]
        exact List.mem_of_mem_erase hi
      obtain ⟨j', hj', htaken⟩ := h.owed i howed
      refine ⟨j', ?_, htaken⟩
      have hne' : j' ≠ j := by
        rintro rfl
        apply hne
        have hnodup : s.sys.kernel.taken.Nodup := h.sync.numbered.conserved.taken_nodup
        obtain ⟨hlt, _⟩ := List.getElem?_eq_some_iff.mp htaken
        exact (List.getElem?_inj hlt hnodup).mp (htaken.trans htaken'.symm)
      exact (List.mem_erase_of_ne hne').mpr hj'
    | writeErrcode hpc | callClient hpc | callSyncCallback hpc | clientDone hpc | callbackKdata hpc
    | callbackDone hpc | callbackDoneStale hpc | callbackWake hpc | callbackWakeStale hpc
    | writeReturn hpc =>
      obtain rfl := Option.some.inj htid
      rw [hpc] at keep
      rw [Kernel.State.threads_goto_self] at hi
      apply keep (List.Subset.refl _)
      generalize s.sys.loop.pc = lpc at hi ⊢
      cases lpc <;> exact hi
    | setKdata hpc | setCallback hpc | syncEnqueue hpc | wait hpc | restoreKdata hpc
    | restoreKdataStale hpc | restoreCallback hpc | restoreCallbackStale hpc | free hpc
    | syncReturnMmap hpc | syncReturn hpc | asyncEnqueue hpc | signalSync hpc =>
      obtain rfl := Option.some.inj htid
      rw [hpc] at hcall
      generalize s.sys.loop.pc = lpc at hcall
      cases hcall
  · rw [ht.threads_of_ne htid] at hi
    apply keep _ hi
    rw [(h.quiet hp ht htid).rtdreqs]
    exact List.Subset.refl _

end RemoteInv

namespace RemoteInv

variable {a : Kernel.Act} {left : α} {submitted : ItemId → α}

/-- A step inside the driver keeps the invariant. -/
theorem kernel (h : RemoteInv sv d s) (hok : RemoteOk sv s (.sys (.kernel a) left))
    (hp : s.sys.permits a = true) (hk : Kernel.step s.sys.kernel a = some k')
    (hold : ∀ j, (∀ t, a = .step t → (s.sys.kernel.threads t).enqueues ≠ some j) →
      submitted j = s.submitted j)
    (hnew : ∀ t j, a = .step t → (s.sys.kernel.threads t).enqueues = some j →
      submitted j = s.buffer (s.sys.kernel.slot j)) :
    RemoteInv sv d ⟨⟨k', s.sys.loop⟩, s.buffer, submitted⟩ := by
  have ht := Kernel.trans_of_step hk
  have hn := h.sync.numbered
  refine ⟨h.routing.kernel (h.routeOk hok) hp hk, h.sync.step hok.1 ht, h.apart_kernel hok ht,
    fun i hi ↦ h.owed_kernel hp ht hi, fun j count kureq hpc ↦ h.hand_kernel hp ht hpc, ?_⟩
  intro j hj
  rcases ht.open_cases hn hj with hopen | ⟨t, rfl, hen, _⟩
  · apply h.tracked_kernel hok hp ht hopen
    apply hold
    intro t _ hen
    exact hn.not_enqueued hen hopen.1
  · exact h.tracked_new ht hen (hnew t j rfl hen)

/-! ### A step of the daemon -/

/-- What the loop does to the request of an open item. -/
theorem content_stepLoop (h : RemoteInv sv d s) {ans : Answer} {kureq : QhgpuKuRequest}
    (hok : ∀ p rest, s.sys.loop.pc = .walk p (i :: rest) → p ≠ .serviceDone →
      sv.call p kureq ans.code (s.buffer (s.sys.loop.st.sr i).id) left)
    (hj : s.sys.kernel.Open j) (htaken : s.sys.kernel.taken[i]? = some j)
    (hreq : s.sys.loop.st.requests[i]? = some kureq)
    (hcontent : Content sv s.sys.loop.st i kureq (s.submitted j)
      (s.buffer (s.sys.kernel.slot j))) :
    Content sv (stepLoop d s.sys.loop ans).st i kureq (s.submitted j)
      (s.served left (s.sys.kernel.slot j)) := by
  have hs := h.routing.loop.stage
  have hlt : i < s.sys.loop.st.requests.length := (List.getElem?_eq_some_iff.mp hreq).1
  have hother (hne : Loop.serving s.sys.loop ≠ some i) :
      s.served left (s.sys.kernel.slot j) = s.buffer (s.sys.kernel.slot j) := by
    rw [h.served_eq left hj, if_neg]
    rintro ⟨i', hi', htaken'⟩
    apply hne
    have hnodup : s.sys.kernel.taken.Nodup := h.sync.numbered.conserved.taken_nodup
    obtain ⟨hlt', _⟩ := List.getElem?_eq_some_iff.mp htaken
    rw [hi', (List.getElem?_inj hlt' hnodup).mp (htaken.trans htaken'.symm)]
  rcases stepLoop_cases hs ans with ⟨hserving, b, hst⟩ | ⟨p, i', rest, hpc, hp, hserving, hst⟩ |
    ⟨i', rest, hpc, hserving, hst⟩ | ⟨_, hserving, _, hstop, hst⟩
  · rw [hst, hother (by simp [hserving])]
    refine hcontent.congr (fun g ↦ ?_) Iff.rfl
    cases g <;> rfl
  · rw [hst]
    by_cases heq : i = i'
    · subst heq
      obtain ⟨hstage, j', _, htaken', _, _, hid⟩ := h.serving hpc hp
      obtain rfl := Option.some.inj (htaken.symm.trans htaken')
      have hcall := hok p rest hpc hp
      rw [hid] at hcall
      rw [h.served_eq left hj, if_pos ⟨i, hserving, htaken⟩]
      cases p with
      | serviceDone => exact absurd rfl hp
      | postExec => exact hcontent.post hs hstage hcall
      | launchExec => exact hcontent.launch hs hstage hcall
    · rw [hother (by rw [hserving]; exact fun h ↦ heq (Option.some.inj h).symm)]
      refine hcontent.congr (mem_op_of_ne p ans.code s.sys.loop.st heq) ?_
      rw [(op_keeps hp ans.code s.sys.loop.st i').2]
  · rw [hst, hother (by simp [hserving])]
    by_cases heq : i = i'
    · subst heq
      -- the request has been posted before it is answered
      have hposted : i ∈ s.sys.loop.st.stage .postExec :=
        (h.routing.loop.writing i rest hpc).subset List.mem_cons_self
      have hgone : i ∉ (Connector.qcServiceDone s.sys.loop.st i).1.allReqs :=
        hs.all_nodup.not_mem_erase
      have hs' := hs.qcServiceDone hposted
      exact ⟨fun g hi ↦ absurd ((hs'.mem_all i).mpr ⟨g, hi⟩) hgone,
        fun _ ↦ hcontent.posted (Or.inl hposted)⟩
    · refine hcontent.congr (mem_op_of_ne .serviceDone 0 s.sys.loop.st heq) ?_
      exact List.mem_erase_of_ne heq
  · rw [hst, hother (by simp [hserving])]
    obtain ⟨_, g, _, _, hall, _, _, _, _, hstage⟩ := hs.qcAccept_spec hstop
    have hne : i ≠ s.sys.loop.st.requests.length := Nat.ne_of_lt hlt
    refine hcontent.congr (fun g' ↦ ?_) ?_
    · rw [hstage, List.mem_append]
      split <;> simp [hne]
    · rw [hall, List.mem_append]
      simp [hne]

end RemoteInv

namespace RemoteInv

variable {left : α} {t : State} {ans : Answer} {stack : QhgpuKuRequest}

/-- A `qhgpu_read` that returns no record returns an error. -/
theorem read_failed (h : RemoteInv sv d s) {ret : Int}
    (hpc : s.sys.kernel.threads daemonTid = .readReturn ret none) : ret ≤ 0 := by
  have hcall := h.routing.served.call
  rw [hpc] at hcall
  generalize s.sys.loop.pc = lpc at hcall
  cases hcall with
  | readFailed hret => exact hret

/-- What holds of an open item goes on to hold. -/
theorem tracked_daemon (h : RemoteInv sv d s) (hok : RemoteOk sv s (.sys (.daemon ans stack) left))
    (hstep : DaemonStep d s.sys t ans) (hj : s.sys.kernel.Open j) :
    Tracked sv ⟨t, s.served left, s.submitted⟩ j := by
  obtain ⟨pc, hkernel, hku, _⟩ := hstep.kernel
  obtain ⟨ans', hloop, hcode, hreading⟩ := hstep.loop
  obtain ⟨k', l'⟩ := t
  dsimp only at hkernel hloop
  subst hkernel hloop
  have hs := h.routing.loop.stage
  have htracked := h.tracked j hj
  have hnodup : s.sys.kernel.taken.Nodup := h.sync.numbered.conserved.taken_nodup
  have hle : s.sys.loop.st.requests.length ≤
      (stepLoop d s.sys.loop ans').st.requests.length := by
    rcases requests_stepLoop hs ans' with heq | ⟨_, _, _, _, _, heq⟩
    · rw [heq]
    · rw [heq, List.length_append]
      exact Nat.le_add_right _ _
  constructor
  · intro hunread
    change ∀ i : Nat, s.sys.kernel.taken[i]? = some j → _ at hunread
    show s.served left (s.sys.kernel.slot j) = s.submitted j
    rw [h.served_eq left hj, if_neg]
    · exact htracked.unread fun i hi ↦ hle.trans (hunread i hi)
    · rintro ⟨i, hserving, htaken⟩
      obtain ⟨p, rest, hpc, hp⟩ := pc_of_serving hserving
      obtain ⟨hstage, _⟩ := h.serving hpc hp
      exact Nat.not_le_of_lt (hs.lt_length hstage) (hle.trans (hunread i htaken))
  · intro kureq hkureq
    change ((s.sys.kernel.goto daemonTid pc).threads daemonTid).kuRequest = some kureq at hkureq
    rw [Kernel.State.threads_goto_self, hku] at hkureq
    cases hkureq
  · intro i kureq htaken hreq
    change s.sys.kernel.taken[i]? = some j at htaken
    show Sent s.sys.kernel j kureq ∧ Content sv (stepLoop d s.sys.loop ans').st i kureq
      (s.submitted j) (s.served left (s.sys.kernel.slot j))
    -- a request that was read before
    have old (hreq : s.sys.loop.st.requests[i]? = some kureq) : Sent s.sys.kernel j kureq ∧
        Content sv (stepLoop d s.sys.loop ans').st i kureq (s.submitted j)
          (s.served left (s.sys.kernel.slot j)) := by
      obtain ⟨hsent, hcontent⟩ := htracked.read i kureq htaken hreq
      refine ⟨hsent, h.content_stepLoop ?_ hj htaken hreq hcontent⟩
      intro p rest hpc hp
      rw [hcode]
      exact hok p i rest kureq hpc hp hreq
    dsimp only at hreq
    rcases requests_stepLoop hs ans' with heq | ⟨hpc, hserving, hpos, hstop, hst, heq⟩
    · rw [heq] at hreq
      exact old hreq
    · rw [heq] at hreq
      rcases Nat.lt_or_ge i s.sys.loop.st.requests.length with hlt | hge
      · rw [List.getElem?_append_left hlt] at hreq
        exact old hreq
      · -- the request that is taken in
        obtain ⟨hbound, _⟩ := List.getElem?_eq_some_iff.mp hreq
        rw [List.length_append, List.length_singleton] at hbound
        obtain rfl : i = s.sys.loop.st.requests.length := by omega
        rw [List.getElem?_concat_length] at hreq
        obtain rfl := Option.some.inj hreq
        have hunread : s.buffer (s.sys.kernel.slot j) = s.submitted j := by
          apply htracked.unread
          intro i' htaken'
          obtain ⟨hlt, _⟩ := List.getElem?_eq_some_iff.mp htaken
          exact ((List.getElem?_inj hlt hnodup).mp (htaken.trans htaken'.symm)).le
        obtain ⟨buf, hthread, hbuf⟩ := hreading hpc
        cases buf with
        | none => exact absurd (h.read_failed hthread) (Int.not_le.mpr hpos)
        | some kureq =>
          have hkureq := hbuf kureq rfl
          refine ⟨htracked.hand _ ?_ htaken, ?_⟩
          · rw [hthread, hkureq]
            rfl
          · rw [hst, Remote.served, hserving]
            dsimp only
            rw [hunread]
            exact content_accepted hs hstop _
  · intro hcompleted
    obtain ⟨i, htaken, hlt, hposted⟩ := htracked.answered hcompleted
    exact ⟨i, htaken, hlt.trans_le hle, hposted.stepLoop h.routing.loop hlt ans'⟩
  · exact htracked.coded

/-- A step of the daemon keeps the invariant. -/
theorem daemon (h : RemoteInv sv d s) (hok : RemoteOk sv s (.sys (.daemon ans stack) left))
    (hs : stepDaemon d s.sys ans stack = some t) :
    RemoteInv sv d ⟨t, s.served left, s.submitted⟩ := by
  have hstep := daemonStep_of_stepDaemon h.routing.loop (fun _ ↦ h.read_failed) hs
  obtain ⟨pc, hkernel, hku, hsync⟩ := hstep.kernel
  have hopen {j : ItemId} (hj : t.kernel.Open j) : s.sys.kernel.Open j := by
    rw [hkernel] at hj
    exact Kernel.open_of_goto hsync hj
  have hslot (j : ItemId) : t.kernel.slot j = s.sys.kernel.slot j := by
    rw [hkernel]
    rfl
  refine ⟨h.routing.daemon hs, ?_, ?_, ?_, ?_, fun j hj ↦ h.tracked_daemon hok hstep (hopen hj)⟩
  · rcases hstep.sync with heq | ⟨a, ht, hsyncOk⟩
    · rw [heq]
      exact h.sync
    · exact h.sync.step hsyncOk ht
  · intro j j' hj hj' heq
    dsimp only at heq
    rw [hslot, hslot] at heq
    exact h.apart j j' (hopen hj) (hopen hj') heq
  · intro i hi
    obtain ⟨j, hj, htaken⟩ := h.owed i (hstep.owed i hi)
    refine ⟨j, ?_, ?_⟩
    · dsimp only
      rw [hkernel]
      exact hj
    · dsimp only
      rw [hkernel]
      exact htaken
  · intro j count kureq hpc
    dsimp only at hpc
    rw [hkernel, Kernel.State.threads_goto_self] at hpc
    rw [hpc] at hku
    cases hku

end RemoteInv

namespace RemoteInv

/-- A store of a client to the buffer of no open item. -/
theorem store (h : RemoteInv sv d s) {slot : Int} {content : α}
    (hok : ∀ j, s.sys.kernel.Open j → s.sys.kernel.slot j ≠ slot) :
    RemoteInv sv d { s with buffer := Function.update s.buffer slot content } := by
  refine ⟨h.routing, h.sync, h.apart, h.owed, h.hand, fun j hj ↦ ?_⟩
  have hsame : Function.update s.buffer slot content (s.sys.kernel.slot j) =
      s.buffer (s.sys.kernel.slot j) := Function.update_of_ne (hok j hj) ..
  have htracked := h.tracked j hj
  constructor
  · intro hunread
    dsimp only
    rw [hsame]
    exact htracked.unread hunread
  · exact htracked.hand
  · intro i kureq htaken hreq
    dsimp only
    rw [hsame]
    exact htracked.read i kureq htaken hreq
  · exact htracked.answered
  · exact htracked.coded

end RemoteInv

/-- A step inside the driver records the buffer of the item that it enqueues. -/
theorem remoteStep_kernel {a : Kernel.Act} {left : α}
    (h : remoteStep d s (.sys (.kernel a) left) = some s') :
    s.sys.permits a = true ∧ ∃ k' submitted, Kernel.step s.sys.kernel a = some k' ∧
      s' = ⟨⟨k', s.sys.loop⟩, s.buffer, submitted⟩ ∧
      (∀ j, (∀ t, a = .step t → (s.sys.kernel.threads t).enqueues ≠ some j) →
        submitted j = s.submitted j) ∧
      ∀ t j, a = .step t → (s.sys.kernel.threads t).enqueues = some j →
        submitted j = s.buffer (s.sys.kernel.slot j) := by
  have inside {t : State} (ht : step d s.sys (.kernel a) = some t) :
      s.sys.permits a = true ∧ ∃ k', Kernel.step s.sys.kernel a = some k' ∧
        t = ⟨k', s.sys.loop⟩ := by
    rw [step] at ht
    split at ht
    · next hp =>
      obtain ⟨k', hk, rfl⟩ := Option.map_eq_some_iff.mp ht
      exact ⟨hp, k', hk, rfl⟩
    · cases ht
  cases a with
  | step t =>
    obtain ⟨u, hu, rfl⟩ := Option.map_eq_some_iff.mp h
    obtain ⟨hp, k', hk, rfl⟩ := inside hu
    refine ⟨hp, k', _, hk, rfl, ?_, ?_⟩
    · intro j hj
      rw [Remote.enqueued]
      cases hen : (s.sys.kernel.threads t).enqueues with
      | none => rfl
      | some j' =>
        apply Function.update_of_ne
        rintro rfl
        exact hj t rfl hen
    · intro t' j heq hen
      obtain rfl := Kernel.Act.step.inj heq
      rw [Remote.enqueued, hen]
      exact Function.update_self ..
  | _ =>
    simp only [remoteStep, Option.map_eq_some_iff] at h
    obtain ⟨u, hu, rfl⟩ := h
    obtain ⟨hp, k', hk, rfl⟩ := inside hu
    exact ⟨hp, k', _, hk, rfl, fun _ _ ↦ rfl, by simp⟩

private theorem remoteInv_start (n : Nat) (arr : Int → Word) (pool : QhgpuMempool)
    (buffer : Int → α) :
    RemoteInv sv d (.start n arr pool buffer) where
  routing := routingInv_start n arr pool
  sync := Kernel.syncInv_start n arr pool
  apart _ _ h := absurd h.1 List.not_mem_nil
  owed _ h := absurd h List.not_mem_nil
  hand _ _ _ h := by cases h
  tracked _ h := absurd h.1 List.not_mem_nil

namespace RemoteInv

/-- A step keeps the invariant. -/
theorem step {a : RemoteAct α} (h : RemoteInv sv d s) (hok : RemoteOk sv s a)
    (hs : remoteStep d s a = some s') : RemoteInv sv d s' := by
  cases a with
  | store r content =>
    obtain rfl := Option.some.inj hs
    exact h.store hok
  | sys a left =>
    cases a with
    | daemon ans stack =>
      obtain ⟨t, ht, rfl⟩ := Option.map_eq_some_iff.mp hs
      exact h.daemon hok ht
    | kernel a =>
      obtain ⟨hp, k', submitted, hk, rfl, hold, hnew⟩ := remoteStep_kernel hs
      exact h.kernel hok hp hk hold hnew

/-- An answered item that is still open, once the error code is 0. -/
theorem computed (h : RemoteInv sv d s) (hj : s.sys.kernel.Open j)
    (hanswered : j ∈ s.sys.kernel.completed)
    (hcode : (s.sys.kernel.request (s.sys.kernel.itemReq j)).errcode = 0) : Computed sv s j := by
  have htracked := h.tracked j hj
  obtain ⟨i, htaken, hlt, hposted⟩ := htracked.answered hanswered
  have hreq := List.getElem?_eq_getElem hlt
  obtain ⟨⟨stack, hfill⟩, hcontent⟩ := htracked.read i _ htaken hreq
  exact ⟨hcode, i, _, stack, htaken, hreq, hfill, hcontent.posted hposted⟩

/-- A buffer that is handed back holds what the service has made of it. -/
theorem computed_of_handedBack (h : RemoteInv sv d s) (hj : s.HandedBack j) :
    Computed sv s j := by
  have hn := h.sync.numbered
  rcases hj with ⟨t, count, hpc⟩ | ⟨t, c, p, hpc, hwoken, rfl⟩
  · obtain ⟨hanswered, _, hopen⟩ := hn.open_of_removed (t := t) (j := j) (by rw [hpc]; rfl)
    exact h.computed hopen hanswered (h.errcode_of_callback hpc)
  · obtain ⟨g, hadmits, hreply⟩ := (h.sync.calls t c p hpc).reply
    have hcalled : c.item ∈ s.sys.kernel.called := by
      apply hreply.called
      cases p <;> cases hwoken <;> obtain rfl := hadmits <;> simp [Kernel.Reply.done?]
    have hanswered : c.item ∈ s.sys.kernel.completed := (hn.conserved.called hcalled).1
    have hopen : s.sys.kernel.Open c.item := by
      refine ⟨hn.conserved.enqueued_of_completed hanswered, Or.inr ⟨t, c, p, hpc, ?_, rfl⟩⟩
      rintro rfl
      cases hwoken
    exact h.computed hopen hanswered ((h.tracked c.item hopen).coded hcalled)

end RemoteInv

/-- The invariant holds after every run that keeps to `RemoteOk`. -/
theorem remoteInv_of_run {n : Nat} {arr : Int → Word} {pool : QhgpuMempool} {buffer : Int → α}
    {acts : List (RemoteAct α)}
    (hok : StepRun.Meets (remoteStep d) (RemoteOk sv) (.start n arr pool buffer) acts)
    (h : StepRun.run (remoteStep d) (.start n arr pool buffer) acts = some s) :
    RemoteInv sv d s :=
  StepRun.run_invariant (fun _ _ _ hinv hcond hs ↦ RemoteInv.step hinv hcond hs)
    (remoteInv_start n arr pool buffer) hok h

/-- From `n` free slots, over any interleaving of clients and daemon that meets `RemoteOk`: a
client has its buffer back once one successful launch and one successful post of the service have
made the content from what was submitted. -/
theorem computed_of_meets (sv : Services α) (d : Daemon) (n : Nat) (arr : Int → Word)
    (pool : QhgpuMempool) (buffer : Int → α) (acts : List (RemoteAct α)) (s : Remote α)
    (hok : StepRun.Meets (remoteStep d) (RemoteOk sv) (.start n arr pool buffer) acts)
    (h : StepRun.run (remoteStep d) (.start n arr pool buffer) acts = some s) :
    ∀ j, s.HandedBack j → Computed sv s j :=
  fun _ ↦ (remoteInv_of_run hok h).computed_of_handedBack

/-- A thread that neither enqueues an item nor frees the block of its call. -/
def Pc.unconditional : Pc → Bool
  | .sync _ .enqueue | .sync _ .free | .asyncEnqueue _ => false
  | _ => true

/-- Such a thread meets the condition. -/
theorem remoteOk_step {t : Tid} {left : α}
    (h : Pc.unconditional (s.sys.kernel.threads t) = true) :
    RemoteOk sv s (.sys (.kernel (.step t)) left) := by
  refine ⟨?_, ?_, by simp⟩
  · intro c hc
    rw [hc] at h
    cases h
  · intro t' j heq hen
    obtain rfl := Kernel.Act.step.inj heq
    cases hpc : s.sys.kernel.threads t with
    | sync c p =>
      rw [hpc] at h hen
      cases p <;> simp [Pc.unconditional, Pc.enqueues] at h hen
    | asyncEnqueue =>
      rw [hpc] at h
      cases h
    | _ =>
      rw [hpc] at hen
      cases hen

/-- So does the first thread that enqueues an item. -/
theorem remoteOk_first {t : Tid} {left : α} {j : ItemId}
    (hen : (s.sys.kernel.threads t).enqueues = some j) (hnil : s.sys.kernel.enqueued = []) :
    RemoteOk sv s (.sys (.kernel (.step t)) left) := by
  refine ⟨?_, ?_, by simp⟩
  · intro c hc
    rw [hc] at hen
    cases hen
  · intro t' j _ _ j' hj'
    rw [Kernel.State.Open, hnil] at hj'
    exact absurd hj'.1 List.not_mem_nil

/-- So does the daemon outside `launch` and `post`. -/
theorem remoteOk_daemon {ans : Answer} {stack : QhgpuKuRequest} {left : α}
    (h : Loop.serving s.sys.loop = none) : RemoteOk sv s (.sys (.daemon ans stack) left) := by
  intro p i rest kureq hpc hp
  rw [Loop.serving, hpc] at h
  cases p with
  | serviceDone => exact absurd rfl hp
  | launchExec | postExec => cases h

/-- Steps in which no service is called. -/
def plain (left : α) (acts : List Act) : List (RemoteAct α) := acts.map fun a ↦ .sys a left

/-- A client fills its buffer and calls, up to the wait. -/
def fillAndCall (dataSize : Int) (serviceName : List UInt8) (b : α) : List (RemoteAct α) :=
  .sys (.kernel (.alloc dataSize serviceName (some (Kernel.fieldsWith 0, 0)))) b :: .store 0 b ::
    plain b [.kernel (.callSync 1 0 true true), .kernel (.step 1), .kernel (.step 1),
      .kernel (.step 1)]

/-- The daemon takes the request in, `launch` leaves `b` and `post` `b'`, the response is written,
and the caller is woken up. -/
def serveAndWake (b b' : α) : List (RemoteAct α) :=
  plain b (idlePasses ++ takeIn ++ [go (polled 0), go (polled 0)]) ++ (.sys (go (answered 0)) b ::
    (plain b [go (polled 0), go (polled 0), go (polled 0)] ++ (.sys (go (answered 0)) b' ::
      plain b' ([go (polled 0), go (polled 0), go (polled 0)] ++
        List.replicate 6 (.kernel (.step 0)) ++ [.kernel (.step 1)]))))

/-- A service whose `launch` adds one and whose `post` doubles. -/
def incDouble : Services Nat where
  launch _ _ b b' := b' = b + 1
  post _ _ b b' := b' = 2 * b

/-- The caller that stored 5 finds 12. -/
theorem computed_of_meets_incDouble : ∃ s,
    StepRun.run (remoteStep Connector.batchDaemon) (.start 1 (fun _ ↦ 0) .zeroed fun _ ↦ 0)
      (fillAndCall 0 batchName 5 ++ serveAndWake 6 12) = some s ∧
      s.sys.kernel.threads 1 = .sync ⟨0, 0, 0, .client 0, .client 0⟩ .restoreKdata ∧
      s.buffer 0 = 12 ∧ ∀ j, s.HandedBack j → Computed incDouble s j := by
  refine ⟨_, rfl, rfl, rfl, computed_of_meets incDouble Connector.batchDaemon 1 (fun _ ↦ 0)
    .zeroed (fun _ ↦ 0) (fillAndCall 0 batchName 5 ++ serveAndWake 6 12) _ ?_ rfl⟩
  -- the client
  refine StepRun.meets_cons ⟨trivial, by simp, by simp⟩ rfl ?_
  refine StepRun.meets_cons (fun j hj ↦ absurd hj.1 List.not_mem_nil) rfl ?_
  refine StepRun.meets_cons ⟨⟨?_, ?_⟩, by simp, by simp⟩ rfl ?_
  · rintro ⟨t, c, hc, _⟩
    cases hc
  · exact fun i hi ↦ absurd hi.1 (Nat.not_lt_zero i)
  iterate 2 refine StepRun.meets_cons (remoteOk_step rfl) rfl ?_
  refine StepRun.meets_cons (remoteOk_first rfl rfl) rfl ?_
  -- the daemon
  iterate 4 refine StepRun.meets_cons (remoteOk_daemon rfl) rfl ?_
  iterate 2 refine StepRun.meets_cons (remoteOk_step rfl) rfl ?_
  iterate 3 refine StepRun.meets_cons (remoteOk_daemon rfl) rfl ?_
  refine StepRun.meets_cons ?_ rfl ?_
  · intro p i rest kureq hpc _ _
    cases hpc
    rfl
  iterate 3 refine StepRun.meets_cons (remoteOk_daemon rfl) rfl ?_
  refine StepRun.meets_cons ?_ rfl ?_
  · intro p i rest kureq hpc _ _
    cases hpc
    rfl
  iterate 3 refine StepRun.meets_cons (remoteOk_daemon rfl) rfl ?_
  iterate 7 refine StepRun.meets_cons (remoteOk_step rfl) rfl ?_
  trivial

end QHGPU.System
