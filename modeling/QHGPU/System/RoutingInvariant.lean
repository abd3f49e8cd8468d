import Mathlib.Data.List.GetD
import QHGPU.Library.Correlation
import QHGPU.Kernel.Frames
import QHGPU.System.Machine

/-!
# Which answers are owed

The daemon numbers the requests it reads; the driver numbers the items it hands out. The
`i`-th request read is that of the `i`-th item taken off `reqs`. A request that the daemon
has read and not answered is owed an answer, and an item of it waits on `rtdreqs`.
-/

namespace QHGPU.System

open Kernel (Tid ItemId ReqId Pc Count Numbered)
open Connector (Daemon Loop LoopPc Pass LoopInv)
open Correlation

variable {d : Daemon} {k k' : Kernel.State} {st : Connector.State} {l : Loop} {pc : Pc}
  {a : Kernel.Act} {i : Nat}

/-- The request that the daemon read as its `i`-th. -/
def reqOf (k : Kernel.State) (i : Nat) : ReqId := k.itemReq (k.taken.getD i 0)

/-- Where the daemon is in the driver at each point of its loop, and what is known then of
the request that the call is about. -/
inductive InCall (k : Kernel.State) (st : Connector.State) : LoopPc → Pc → Prop
  | stopped : InCall k st .stopped .idle
  | walk {p rest} (hlen : k.taken.length = st.requests.length) :
      InCall k st (.walk p rest) .idle
  | getNext (hlen : k.taken.length = st.requests.length) : InCall k st .getNext .idle
  | readLock {count nonblock stack} (hcount : 0 < count.val)
      (hlen : k.taken.length = st.requests.length) :
      InCall k st .reading (.readLock count nonblock stack)
  | readWait {count nonblock stack} (hcount : 0 < count.val)
      (hlen : k.taken.length = st.requests.length) :
      InCall k st .reading (.readWait count nonblock stack)
  | readFailed {ret} (hret : ret ≤ 0) (hlen : k.taken.length = st.requests.length) :
      InCall k st .reading (.readReturn ret none)
  | readHand {j count kureq} (hcount : 0 < count.val)
      (hlen : k.taken.length = st.requests.length + 1)
      (hj : j < k.nextItem) (hreq : k.itemReq j = reqOf k st.requests.length)
      (hid : kureq.id = (k.request (reqOf k st.requests.length)).id) :
      InCall k st .reading (.readHand j count kureq)
  | readReturn {ret kureq} (hret : 0 < ret) (hlen : k.taken.length = st.requests.length + 1)
      (hid : kureq.id = (k.request (reqOf k st.requests.length)).id) :
      InCall k st .reading (.readReturn ret (some kureq))
  | writeFind {i rest count} (hlen : k.taken.length = st.requests.length) :
      InCall k st (.writing i rest) (.writeFind count (st.response i))
  | write {i rest j count p} (hlen : k.taken.length = st.requests.length)
      (hi : i < st.requests.length) (hj : j < k.nextItem) (hreq : k.itemReq j = reqOf k i)
      (hcode : ∀ e, p = .errcode e → e = (st.sr i).errcode)
      (hstored : (∀ e, p ≠ .errcode e) →
        (k.request (reqOf k i)).errcode = (st.sr i).errcode) :
      InCall k st (.writing i rest) (.write j count p)
  | written {i rest} (hlen : k.taken.length = st.requests.length) :
      InCall k st (.writing i rest) .idle

/-- The reads of the daemon that are owed an answer. One is added when its item is put on
`rtdreqs`, and taken away when its response has found an item. -/
def owedSerials (st : Connector.State) : LoopPc → Pc → List Nat
  | .stopped, _ => []
  | .writing _ _, .writeFind _ _ => st.allReqs
  | .writing i _, _ => st.allReqs.erase i
  | .reading, .readReturn _ (some _) => st.allReqs ++ [st.requests.length]
  | _, _ => st.allReqs

/-- Every request read by the daemon came off `reqs` and carries the id of its request. -/
def Serials (k : Kernel.State) (st : Connector.State) : Prop :=
  ∀ i kureq, st.requests[i]? = some kureq →
    i < k.taken.length ∧ kureq.id = (k.request (reqOf k i)).id

/-- What holds between the driver and a daemon whose thread is at `pc` in the driver. -/
structure Served (k : Kernel.State) (l : Loop) (pc : Pc) : Prop where
  call : InCall k l.st l.pc pc
  serials : Serials k l.st
  covered : Covered k.itemReq ((owedSerials l.st l.pc pc).map (reqOf k)) k.rtdreqs

/-! ### What the driver does not change -/

private theorem reqOf_lt (hn : Numbered k) (hi : i < k.taken.length) : reqOf k i < k.nextReq := by
  rw [reqOf, List.getD_eq_getElem _ _ hi]
  exact hn.itemReq_lt _ (hn.lt_of_taken (List.getElem_mem hi))

/-- A request that was read stays the one that was read. -/
theorem reqOf_eq (hn : Numbered k) (ht : Kernel.Trans k a k') (hi : i < k.taken.length) :
    reqOf k' i = reqOf k i := by
  obtain ⟨rest, hrest⟩ := ht.taken_prefix
  rw [reqOf, reqOf, ← hrest, List.getD_append _ _ _ _ hi, List.getD_eq_getElem _ _ hi]
  exact ht.itemReq_eq (hn.lt_of_taken (List.getElem_mem hi))

/-- It keeps its id. -/
theorem id_reqOf (hn : Numbered k) (ht : Kernel.Trans k a k') (hi : i < k.taken.length) :
    (k'.request (reqOf k' i)).id = (k.request (reqOf k i)).id := by
  rw [reqOf_eq hn ht hi]
  exact (ht.slot_eq (reqOf_lt hn hi)).1

/-- Records keep the ids of their requests. -/
theorem Serials.trans (h : Serials k st) (hn : Numbered k) (ht : Kernel.Trans k a k') :
    Serials k' st := by
  intro i kureq hi
  obtain ⟨hlt, hid⟩ := h i kureq hi
  refine ⟨Nat.lt_of_lt_of_le hlt ht.taken_prefix.length_le, ?_⟩
  rw [id_reqOf hn ht hlt]
  exact hid

/-- The items on `rtdreqs` wait for the same requests after a step. -/
theorem covered_trans (hn : Numbered k) (ht : Kernel.Trans k a k') {owed : List Nat}
    (howed : ∀ i ∈ owed, i < k.taken.length)
    (hc : Covered k.itemReq (owed.map (reqOf k)) k.rtdreqs) :
    Covered k'.itemReq (owed.map (reqOf k')) k.rtdreqs := by
  rw [List.map_congr_left fun i hi ↦ reqOf_eq hn ht (howed i hi)]
  refine hc.congr ?_
  intro j hj
  exact ht.itemReq_eq (hn.lt_of_waiting (hn.waiting_of_delivered hj))

/-! ### Requests that stay as they are -/

private theorem InCall.quiet (h : InCall k st l.pc pc) (hn : Numbered k) (ht : Kernel.Trans k a k')
    (hq : Kernel.Quiet k k') : InCall k' st l.pc pc := by
  have hlt (i : Nat) (hi : i < st.requests.length)
      (hlen : k.taken.length = st.requests.length) : i < k.taken.length := hlen ▸ hi
  generalize l.pc = lpc at h ⊢
  cases h with
  | stopped => exact .stopped
  | walk hlen => exact .walk (hq.taken ▸ hlen)
  | getNext hlen => exact .getNext (hq.taken ▸ hlen)
  | readLock hcount hlen => exact .readLock hcount (hq.taken ▸ hlen)
  | readWait hcount hlen => exact .readWait hcount (hq.taken ▸ hlen)
  | readFailed hret hlen => exact .readFailed hret (hq.taken ▸ hlen)
  | readHand hcount hlen hj hreq hid =>
    have hlast : st.requests.length < k.taken.length := hlen ▸ Nat.lt_succ_self _
    refine .readHand hcount (hq.taken ▸ hlen) (Nat.lt_of_lt_of_le hj ht.nextItem_le) ?_ ?_
    · rw [ht.itemReq_eq hj, reqOf_eq hn ht hlast, hreq]
    · rw [id_reqOf hn ht hlast, hid]
  | readReturn hret hlen hid =>
    refine .readReturn hret (hq.taken ▸ hlen) ?_
    rw [id_reqOf hn ht (hlen ▸ Nat.lt_succ_self _), hid]
  | writeFind hlen => exact .writeFind (hq.taken ▸ hlen)
  | write hlen hi hj hreq hcode hstored =>
    refine .write (hq.taken ▸ hlen) hi (Nat.lt_of_lt_of_le hj ht.nextItem_le) ?_ hcode ?_
    · rw [ht.itemReq_eq hj, reqOf_eq hn ht (hlt _ hi hlen), hreq]
    · intro hp
      rw [reqOf_eq hn ht (hlt _ hi hlen), hq.errcode _ (reqOf_lt hn (hlt _ hi hlen))]
      exact hstored hp
  | written hlen => exact .written (hq.taken ▸ hlen)

/-- Every read that is owed an answer has its item. -/
theorem InCall.owed_lt (h : InCall k l.st l.pc pc) (hl : LoopInv d l)
    (hi : i ∈ owedSerials l.st l.pc pc) : i < k.taken.length := by
  have hall (hmem : i ∈ l.st.allReqs) : i < l.st.requests.length := by
    obtain ⟨g, hg⟩ := (hl.stage.mem_all i).mp hmem
    exact hl.stage.lt_length hg
  generalize l.pc = lpc at h hi
  cases h with
  | stopped => cases hi
  | walk hlen => exact hlen ▸ hall hi
  | getNext hlen => exact hlen ▸ hall hi
  | readLock _ hlen => exact hlen ▸ hall hi
  | readWait _ hlen => exact hlen ▸ hall hi
  | readFailed _ hlen => exact hlen ▸ hall hi
  | readHand _ hlen => exact hlen ▸ Nat.lt_succ_of_lt (hall hi)
  | readReturn _ hlen =>
    rw [hlen]
    rcases List.mem_append.mp hi with hi | hi
    · exact Nat.lt_succ_of_lt (hall hi)
    · rw [List.mem_singleton.mp hi]
      exact Nat.lt_succ_self _
  | writeFind hlen => exact hlen ▸ hall hi
  | write hlen => exact hlen ▸ hall (List.mem_of_mem_erase hi)
  | written hlen => exact hlen ▸ hall (List.mem_of_mem_erase hi)

/-- A step in which the driver is quiet changes nothing for the daemon. -/
theorem Served.quiet (h : Served k l pc) (hn : Numbered k) (hl : LoopInv d l)
    (ht : Kernel.Trans k a k') (hq : Kernel.Quiet k k') : Served k' l pc := by
  refine ⟨h.call.quiet hn ht hq, h.serials.trans hn ht, ?_⟩
  rw [hq.rtdreqs]
  exact covered_trans hn ht (fun i hi ↦ h.call.owed_lt hl hi) h.covered

/-! ### Between two calls -/

/-- What holds while the daemon is in no call. -/
structure Between (k : Kernel.State) (st : Connector.State) : Prop where
  len : k.taken.length = st.requests.length
  serials : Serials k st
  covered : Covered k.itemReq (st.allReqs.map (reqOf k)) k.rtdreqs

/-- A daemon that has stopped is owed nothing. -/
theorem served_stop (h : Serials k st) : Served k (.stop st) .idle :=
  ⟨.stopped, h, covered_nil _ _⟩

namespace Between

/-- A walk begins outside the driver. -/
theorem walk (h : Between k st) (p : Pass) (rest : List Nat) :
    Served k ⟨st, .walk p rest⟩ .idle := ⟨.walk h.len, h.serials, h.covered⟩

/-- So does what follows a pass. -/
theorem endPass (h : Between k st) (p : Pass) : Served k (.endPass st p) .idle := by
  cases p with
  | serviceDone => exact h.walk .postExec st.runningReqs
  | postExec => exact h.walk .launchExec st.initReqs
  | launchExec => exact ⟨.getNext h.len, h.serials, h.covered⟩

/-- So does the rest of a walk. -/
theorem visited (h : Between k st) (p : Pass) (rest : List Nat) (r : Int) :
    Served k (.visited st p rest r) .idle := by
  rw [Loop.visited]
  split
  · exact h.endPass p
  · exact h.walk p rest

end Between

/-- Only the response pass takes requests off `all_reqs`. -/
theorem op_keeps {p : Pass} (hp : p ≠ .serviceDone) (code : Int) (st : Connector.State)
    (i : Nat) : (p.op code st i).1.requests = st.requests ∧
      (p.op code st i).1.allReqs = st.allReqs := by
  cases p with
  | serviceDone => exact absurd rfl hp
  | postExec =>
    rw [Pass.op, Connector.qcPostExec]
    split <;> exact ⟨rfl, rfl⟩
  | launchExec =>
    rw [Pass.op, Connector.qcLaunchExec]
    split <;> exact ⟨rfl, rfl⟩

/-- `launch` and `post` leave alone what is owed. -/
theorem Between.op (h : Between k st) {p : Pass} (hp : p ≠ .serviceDone) (code : Int) (i : Nat) :
    Between k (p.op code st i).1 := by
  obtain ⟨hreq, hall⟩ := op_keeps hp code st i
  constructor
  · rw [hreq]
    exact h.len
  · rw [Serials, hreq]
    exact h.serials
  · rw [hall]
    exact h.covered

/-- The response of serial `i` has been dealt with. -/
theorem Between.of_written {rest : List Nat} (h : Served k ⟨st, .writing i rest⟩ .idle) :
    Between k (Connector.qcServiceDone st i).1 := by
  obtain ⟨hcall, hserials, hcovered⟩ := h
  cases hcall with
  | written hlen => exact ⟨hlen, hserials, hcovered⟩

/-- A daemon outside the driver, unless it has stopped or is about to write. -/
theorem Between.of_idle (h : Served k ⟨st, l.pc⟩ .idle) (hne : l.pc ≠ .stopped)
    (hw : ∀ i rest, l.pc ≠ .writing i rest) : Between k st := by
  obtain ⟨hcall, hserials, hcovered⟩ := h
  generalize l.pc = lpc at hcall hcovered hne hw
  cases hcall with
  | stopped => exact absurd rfl hne
  | walk hlen => exact ⟨hlen, hserials, hcovered⟩
  | getNext hlen => exact ⟨hlen, hserials, hcovered⟩
  | written => exact absurd rfl (hw _ _)

/-- A request that was read is taken in. -/
theorem Between.accept (hs : Connector.StageInv d st) {ret : Int} {kureq : QhgpuKuRequest}
    (h : Served k ⟨st, .reading⟩ (.readReturn ret (some kureq)))
    (hstop : Connector.isStopRequest kureq = false) :
    Between k (Connector.qcAccept d st kureq).2 := by
  obtain ⟨hcall, hserials, hcovered⟩ := h
  cases hcall with
  | readReturn hret hlen hid =>
    obtain ⟨_, g, sr, hreq, hall, -⟩ := hs.qcAccept_spec hstop
    constructor
    · rw [hreq, List.length_append]
      exact hlen
    · intro i kureq' hi
      rw [hreq] at hi
      rcases Nat.lt_or_ge i st.requests.length with hlt | hge
      · rw [List.getElem?_append_left hlt] at hi
        exact hserials i kureq' hi
      · obtain ⟨hbound, -⟩ := List.getElem?_eq_some_iff.mp hi
        rw [List.length_append, List.length_singleton] at hbound
        obtain rfl : i = st.requests.length := by omega
        rw [List.getElem?_concat_length] at hi
        obtain rfl := Option.some.inj hi
        exact ⟨hlen ▸ Nat.lt_succ_self _, hid⟩
    · rw [hall]
      exact hcovered

end QHGPU.System
