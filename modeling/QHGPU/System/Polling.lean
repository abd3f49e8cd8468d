import QHGPU.System.Routing

/-!
# What polling is good for

The daemon reads only after `poll` has found the device readable, and it is the only reader.
So its `read` never sleeps and never fails, what it has on `all_reqs` is what the driver has
on `rtdreqs`, and each response finds an item.
-/

namespace QHGPU.System

open Kernel (Tid ItemId Pc Numbered)
open Connector (Daemon Loop LoopPc Pass Answer LoopInv StageInv stepLoop)
open Correlation

variable {d : Daemon} {s s' : State} {k k' : Kernel.State} {st : Connector.State} {l : Loop}
  {pc : Pc} {a : Act}

/-! ### The device is polled -/

/-- The events that `qhgpu_poll` reports: `POLLIN | POLLRDNORM` and `POLLOUT | POLLWRNORM`. -/
structure PollMask where
  readable : Bool
  writable : Bool
  deriving DecidableEq

/-- `qhgpu_poll`, `src/qhgpu/main.c:643–655`. The second `mask |=` stands under no `if`. -/
def qhgpuPoll (k : Kernel.State) : PollMask := ⟨!k.reqs.isEmpty, true⟩

/-- The value of `poll` on the one descriptor, asked for `POLLIN` only, and whether it sets
`POLLIN`. While the device is not readable it sleeps, unless the timeout is 0 or a signal
comes. -/
inductive Polls (mask : PollMask) (timeout : Int) : Int → Bool → Prop
  | ready (h : mask.readable = true) : Polls mask timeout 1 true
  | expired (h : mask.readable = false) (ht : timeout = 0) : Polls mask timeout 0 false
  | interrupted : Polls mask timeout (-1) false

/-- The timeout that the loop asks for, `src/qhgpu/connector.c:598`. -/
def pollTimeout (st : Connector.State) : Int := if st.allReqs = [] then -1 else 0

/-- What `poll` answers to the daemon comes from the driver. -/
def PollOk (s : State) : Act → Prop
  | .daemon ans _ => s.loop.pc = .getNext →
      Polls (qhgpuPoll s.kernel) (pollTimeout s.loop.st)
        (ans.env.poll (pollTimeout s.loop.st)) ans.env.pollin
  | .kernel _ => True

/-! ### The invariant -/

/-- The id of the request that the item is for. -/
def idOf (k : Kernel.State) (j : ItemId) : Int := (k.request (k.itemReq j)).id

/-- The ids of the daemon's requests, the one it reads or answers included as long as its item
is on `rtdreqs`. -/
def heldIds (st : Connector.State) : LoopPc → Pc → List Int
  | .writing _ _, .writeFind _ _ => st.allReqs.map fun i ↦ (st.sr i).id
  | .writing i _, _ => (st.allReqs.erase i).map fun i ↦ (st.sr i).id
  | .reading, .readReturn _ (some kureq) =>
    (st.allReqs.map fun i ↦ (st.sr i).id) ++ [kureq.id]
  | _, _ => st.allReqs.map fun i ↦ (st.sr i).id

/-- Where the daemon is in the driver at each point of its loop. A `read` waits for nothing,
and a `write` that has returned has succeeded. -/
inductive Paired (k : Kernel.State) (st : Connector.State) : LoopPc → Pc → Prop
  | walk {p rest} : Paired k st (.walk p rest) .idle
  | getNext : Paired k st .getNext .idle
  | readLock {stack} (hreqs : k.reqs ≠ []) :
      Paired k st .reading (.readLock Kernel.kuRequestCount false stack)
  | readHand {j kureq} (hj : j < k.nextItem) (hid : kureq.id = idOf k j) :
      Paired k st .reading (.readHand j Kernel.kuRequestCount kureq)
  | readReturn {kureq} : Paired k st .reading (.readReturn sizeofKuRequest (some kureq))
  | writeFind {i rest} :
      Paired k st (.writing i rest) (.writeFind Kernel.kuResponseCount (st.response i))
  | write {i rest j p} : Paired k st (.writing i rest) (.write j Kernel.kuResponseCount p)
  | written {i rest} (hret : k.writeReturns ≠ []) : Paired k st (.writing i rest) .idle

namespace Paired

variable {lpc : LoopPc}

private theorem awake (h : Paired k st lpc pc) (count : Kernel.Count) (nonblock : Bool)
    (stack : QhgpuKuRequest) : pc ≠ .readWait count nonblock stack := by
  cases h <;> exact nofun

private theorem ready (h : Paired k st lpc pc) {count : Kernel.Count} {nonblock : Bool}
    {stack : QhgpuKuRequest} (hpc : pc = .readLock count nonblock stack) : k.reqs ≠ [] := by
  cases h with
  | readLock hreqs => exact hreqs
  | _ => cases hpc

/-- A `read` that returns has a record. -/
theorem reads (h : Paired k st lpc pc) (ret : Int) : pc ≠ .readReturn ret none := by
  cases h <;> exact nofun

/-- The loop has not stopped. -/
theorem runs (h : Paired k st lpc pc) : lpc ≠ .stopped := by
  cases h <;> exact nofun

/-- The daemon waits in no call, so no signal ends a wait. -/
theorem no_signal (h : Paired k st lpc (k.threads daemonTid)) :
    Kernel.signalThread k daemonTid ≠ some k' := by
  unfold Kernel.signalThread
  generalize k.threads daemonTid = pc at h
  cases h <;> exact nofun

end Paired

/-- What holds between the driver and a daemon whose thread is at `pc` in the driver. -/
structure Agreed (k : Kernel.State) (l : Loop) (pc : Pc) : Prop where
  call : Paired k l.st l.pc pc
  ids : Matched (idOf k) (heldIds l.st l.pc pc) k.rtdreqs

/-- The response that the daemon writes has the id of an item on `rtdreqs`. -/
theorem Agreed.finds {count : Kernel.Count} {resp : QhgpuKuResponse}
    (h : Agreed k l (.writeFind count resp)) (hl : LoopInv d l) :
    ∃ j, Kernel.findRequest k resp.id = some j ∧ idOf k j = resp.id := by
  obtain ⟨st, lpc⟩ := l
  have hcall := h.call
  cases hcall with
  | @writeFind i rest =>
    have hi := (LoopInv.responding hl).1
    exact h.ids.find (List.mem_map.mpr ⟨i, hi, rfl⟩)

/-- Every `write` to the device so far has returned the size of a response, and no `read` has
dropped an item. -/
structure Clean (k : Kernel.State) : Prop where
  written : ∀ v ∈ k.writeReturns, v = sizeofKuResponse
  dropped : k.dropped = []

private theorem idOf_trans (hn : Numbered k) {ka : Kernel.Act} (ht : Kernel.Trans k ka k')
    {j : ItemId}
    (hj : j < k.nextItem) : idOf k' j = idOf k j := by
  rw [idOf, ht.itemReq_eq hj]
  exact (ht.slot_eq (hn.itemReq_lt j hj)).1

/-- The ids of the delivered items stay the same. -/
theorem matched_trans (hn : Numbered k) {ka : Kernel.Act} (ht : Kernel.Trans k ka k')
    {ids : List Int} (hm : Matched (idOf k) ids k.rtdreqs) :
    Matched (idOf k') ids k.rtdreqs := by
  apply hm.congr
  intro j hj
  exact idOf_trans hn ht (hn.lt_of_waiting (hn.waiting_of_delivered hj))

/-- A step of a client changes nothing for the daemon. -/
theorem Agreed.client (h : Agreed k l pc) (hn : Numbered k) {ka : Kernel.Act}
    (ht : Kernel.Trans k ka k') (hc : ka.OfClient k) : Agreed k' l pc := by
  have hquiet := (ht.clientStep hc).toQuiet
  have hqueues := ht.client_queues hc
  constructor
  · have hcall := h.call
    generalize l.pc = lpc at hcall ⊢
    cases hcall with
    | walk => exact .walk
    | getNext => exact .getNext
    | readLock hne =>
      apply Paired.readLock
      intro hnil
      have hreqs := hqueues.reqs
      rw [hnil] at hreqs
      exact hne (List.prefix_nil.mp hreqs)
    | readHand hj hid =>
      apply Paired.readHand (Nat.lt_of_lt_of_le hj ht.nextItem_le)
      rw [hid, idOf_trans hn ht hj]
    | readReturn => exact .readReturn
    | writeFind => exact .writeFind
    | write => exact .write
    | written hne =>
      apply Paired.written
      rw [hqueues.writeReturns]
      exact hne
  · rw [hquiet.rtdreqs]
    exact matched_trans hn ht h.ids

/-! ### Inside the driver -/

/-- A step of the daemon inside the driver. -/
theorem Agreed.kernel (h : Agreed k l (k.threads daemonTid)) (hn : Numbered k)
    (hl : LoopInv d l) (hw : Clean k)
    (hread : ∀ ret buf, k.threads daemonTid ≠ .readReturn ret buf)
    (hk : Kernel.step k (.step daemonTid) = some k') :
    Agreed k' l (k'.threads daemonTid) ∧ Clean k' := by
  obtain ⟨st, lpc⟩ := l
  have ht := Kernel.trans_of_step hk
  have goes {pc' : Pc} (hpc : k'.threads daemonTid = pc') (ha : Agreed k' ⟨st, lpc⟩ pc')
      (hw' : Clean k') : Agreed k' ⟨st, lpc⟩ (k'.threads daemonTid) ∧ Clean k' := by
    rw [hpc]
    exact ⟨ha, hw'⟩
  change Kernel.stepThread k daemonTid = some k' at hk
  generalize hpc : k.threads daemonTid = pc at h hread
  have hcall := h.call
  have hids := matched_trans hn ht h.ids
  cases hcall with
  | walk | getNext | written =>
    rw [Kernel.stepThread, hpc] at hk
    cases hk
  | readLock hreqs =>
    obtain ⟨j, rest, hcons⟩ := List.exists_cons_of_ne_nil hreqs
    simp only [Kernel.stepThread, hpc, hcons] at hk
    obtain rfl := Option.some.inj hk
    have hj : j < k.nextItem := by
      apply hn.lt_of_enqueued
      have hfifo : k.enqueued = k.taken ++ k.reqs := hn.conserved.ordered.fifo
      rw [hfifo, hcons]
      exact List.mem_append_right _ List.mem_cons_self
    exact goes (Kernel.State.threads_goto_self ..) ⟨.readHand hj rfl, hids⟩ ⟨hw.1, hw.2⟩
  | @readHand j kureq hj hid =>
    have hcount : 0 < Kernel.kuRequestCount.val := by decide
    simp only [Kernel.stepThread, hpc, if_pos hcount] at hk
    obtain rfl := Option.some.inj hk
    have hdeliver := Matched.deliver h.ids j
    rw [← hid] at hdeliver
    exact goes (Kernel.State.threads_goto_self ..) ⟨.readReturn, hdeliver⟩ ⟨hw.1, hw.2⟩
  | readReturn => exact absurd rfl (hread _ _)
  | @writeFind i rest =>
    have hi := (LoopInv.responding hl).1
    obtain ⟨j, hfind, hkey⟩ := h.finds hl
    simp only [Kernel.stepThread, hpc, hfind] at hk
    obtain rfl := Option.some.inj hk
    have hanswer := h.ids.answer (List.mem_of_find?_eq_some hfind)
    rw [hkey] at hanswer
    refine goes (Kernel.State.threads_goto_self ..) ⟨.write, hanswer.perm ?_⟩ ⟨hw.1, hw.2⟩
    have hcons := (List.perm_cons_erase hi).map fun i ↦ (st.sr i).id
    exact (List.Perm.erase _ hcons).trans (by simp [Connector.State.response, heldIds])
  | @write i rest j p =>
    have hstep := ht.writeStep hpc
    have hids' : Matched (idOf k') ((st.allReqs.erase i).map fun i ↦ (st.sr i).id)
        k'.rtdreqs := by
      rw [hstep.rtdreqs]
      exact hids
    obtain ⟨hdropped, hcases⟩ := ht.writeReturns_cases hpc
    rcases hcases with ⟨hidle, hret⟩ | ⟨p', hp', hret⟩
    · refine goes hidle ⟨.written ?_, hids'⟩ ⟨?_, hdropped.trans hw.dropped⟩
      · rw [hret]
        exact List.append_ne_nil_of_right_ne_nil _ (List.cons_ne_nil _ _)
      · intro v hv
        rw [hret] at hv
        rcases List.mem_append.mp hv with hv | hv
        · exact hw.written v hv
        · exact List.mem_singleton.mp hv
    · refine goes hp' ⟨.write, hids'⟩ ⟨?_, hdropped.trans hw.dropped⟩
      rw [hret]
      exact hw.written

/-! ### Outside the driver -/

/-- A record keeps the id of the request it was copied from. -/
theorem record_id {kureq : QhgpuKuRequest} {g : Connector.Stage} {sr : QhgpuServiceRequest}
    (h : g.record d kureq = some sr) : sr.id = kureq.id := by
  unfold Connector.Stage.record at h
  cases hl : Connector.qcLookupService d.services kureq.serviceName <;> cases g <;>
    simp only [hl, reduceCtorEq, Option.some.injEq] at h <;> subst h <;> rfl

/-- No operation of a pass changes the id in a record. -/
theorem id_op (p : Pass) (code : Int) (st : Connector.State) (i j : Nat) :
    ((p.op code st i).1.sr j).id = (st.sr j).id := by
  have hupdate (r : ReqState) :
      (Function.update st.sr i { st.sr i with state := r } j).id = (st.sr j).id := by
    rw [Function.update_apply]
    split
    · next heq =>
      rw [heq]
    · rfl
  cases p with
  | serviceDone => rfl
  | postExec =>
    rw [Pass.op, Connector.qcPostExec]
    split
    · exact hupdate .postExec
    · rfl
  | launchExec =>
    rw [Pass.op, Connector.qcLaunchExec]
    split
    · exact hupdate .running
    · rfl

/-- The two lists agree while the daemon is in no call. -/
def Level (k : Kernel.State) (st : Connector.State) : Prop :=
  Matched (idOf k) (st.allReqs.map fun i ↦ (st.sr i).id) k.rtdreqs

namespace Level

/-- A walk begins outside the driver. -/
theorem walk (h : Level k st) (p : Pass) (rest : List Nat) :
    Agreed k ⟨st, .walk p rest⟩ .idle := ⟨.walk, h⟩

/-- So does what follows a pass. -/
theorem endPass (h : Level k st) (p : Pass) : Agreed k (.endPass st p) .idle := by
  cases p with
  | serviceDone => exact h.walk .postExec st.runningReqs
  | postExec => exact h.walk .launchExec st.initReqs
  | launchExec => exact ⟨.getNext, h⟩

/-- So does the rest of a walk. -/
theorem visited (h : Level k st) (p : Pass) (rest : List Nat) (r : Int) :
    Agreed k (.visited st p rest r) .idle := by
  rw [Loop.visited]
  split
  · exact h.endPass p
  · exact h.walk p rest

/-- `launch` and `post` change neither list. -/
theorem op (h : Level k st) {p : Pass} (hp : p ≠ .serviceDone) (code : Int) (i : Nat) :
    Level k (p.op code st i).1 := by
  unfold Level
  rw [(op_keeps hp code st i).2]
  simp only [id_op]
  exact h

/-- A request that was read is taken in. -/
theorem accept (hs : StageInv d st) {ret : Int} {kureq : QhgpuKuRequest}
    (h : Agreed k ⟨st, .reading⟩ (.readReturn ret (some kureq)))
    (hstop : Connector.isStopRequest kureq = false) :
    Level k (Connector.qcAccept d st kureq).2 := by
  obtain ⟨-, g, sr, -, hall, -, hsr, hrec, -⟩ := hs.qcAccept_spec hstop
  have hold (i : Nat) (hi : i ∈ st.allReqs) :
      ((Connector.qcAccept d st kureq).2.sr i).id = (st.sr i).id := by
    obtain ⟨g, hg⟩ := (hs.mem_all i).mp hi
    rw [hsr, Function.update_of_ne (Nat.ne_of_lt (hs.lt_length hg))]
  unfold Level
  rw [hall, List.map_append, List.map_congr_left hold, List.map_singleton, hsr,
    Function.update_self, record_id hrec]
  exact h.ids

end Level

/-- The steps of the loop between two calls. -/
theorem Level.stepLoop (h : Level k st) {p : Pass} {rest : List Nat} (ans : Answer)
    (hp : p = .serviceDone → rest = []) :
    Agreed k (stepLoop d ⟨st, .walk p rest⟩ ans) .idle := by
  cases rest with
  | nil => exact h.endPass p
  | cons i rest =>
    cases p with
    | serviceDone => exact absurd (hp rfl) (List.cons_ne_nil i rest)
    | postExec => exact (h.op (p := .postExec) (by decide) ans.code i).visited .postExec rest _
    | launchExec =>
      exact (h.op (p := .launchExec) (by decide) ans.code i).visited .launchExec rest _

/-- `poll` leads to a `read` only when there is a request to read, and never to an end. -/
theorem pollDevice_polled {env : Connector.PollRead} {mask : PollMask}
    (hp : Polls mask (pollTimeout st) (env.poll (pollTimeout st)) env.pollin) :
    Connector.pollDevice env st = .beginPass st .serviceDone ∨
      (mask.readable = true ∧ Connector.pollDevice env st = ⟨st, .reading⟩) := by
  have htimeout : Connector.pollDevice env st =
      (let err := env.poll (pollTimeout st)
      if err = 0 ∨ (err ≠ 0 ∧ env.pollin = false) then .beginPass st .serviceDone
      else if err = 1 ∧ env.pollin = true then
        if env.alloc = false then .beginPass st .serviceDone else ⟨st, .reading⟩
      else .stop st) := rfl
  rw [htimeout]
  generalize env.poll (pollTimeout st) = err at hp ⊢
  generalize env.pollin = pollin at hp ⊢
  cases hp with
  | ready h =>
    cases halloc : env.alloc with
    | false => exact Or.inl rfl
    | true => exact Or.inr ⟨h, rfl⟩
  | expired => exact Or.inl rfl
  | interrupted => exact Or.inl rfl

/-- The value of a `read` that has succeeded leads to an end only for the request that asks
for one. -/
theorem readDevice_read (kureq : QhgpuKuRequest) (hs : StageInv d st)
    {env : Connector.PollRead} (hret : env.read = sizeofKuRequest) (hk : env.kureq = kureq) :
    Connector.readDevice d env st = if Connector.isStopRequest kureq = true then .stop st
      else .beginPass (Connector.qcAccept d st kureq).2 .serviceDone := by
  subst hk
  have hpos : ¬env.read ≤ 0 := by
    rw [hret]
    decide
  have hdev : Connector.readDevice d env st = if (Connector.qcAccept d st env.kureq).1 = -123
      then .stop (Connector.qcAccept d st env.kureq).2
      else .beginPass (Connector.qcAccept d st env.kureq).2 .serviceDone := by
    rw [Connector.readDevice, if_neg hpos]
  rw [hdev]
  cases hstop : Connector.isStopRequest env.kureq with
  | true =>
    have haccept : Connector.qcAccept d st env.kureq = (-123, st) := by
      rw [Connector.qcAccept, if_pos hstop]
    rw [haccept]
    rfl
  | false =>
    rw [(hs.qcAccept_spec hstop).1]
    rfl

/-- After a `write` that has returned, the walk goes on. -/
theorem stepLoop_written {i : Nat} {rest : List Nat} (hret : k.writeReturns ≠ [])
    (hw : Clean k) (ans : Answer) :
    stepLoop d ⟨st, .writing i rest⟩ { ans with written := k.writeReturns.getLastD 0 } =
      ⟨(Connector.qcServiceDone st i).1, .walk .serviceDone rest⟩ := by
  have hlast : k.writeReturns.getLastD 0 = sizeofKuResponse := by
    apply hw.written
    rw [List.getLastD_eq_getLast?, List.getLast?_eq_some_getLast hret]
    exact List.getLast_mem hret
  rw [hlast]
  rfl

/-- The daemon's thread is out of the loop, which a request has asked for. -/
def StopAsked (s s' : State) : Prop :=
  s'.loop.pc = .stopped ∧ s'.kernel.threads daemonTid = .idle ∧
    ∃ kureq, s.kernel.threads daemonTid = .readReturn sizeofKuRequest (some kureq) ∧
      Connector.isStopRequest kureq = true

/-- A step of the daemon outside the driver. -/
theorem Agreed.daemon {ans : Answer} {stack : QhgpuKuRequest}
    (h : Agreed s.kernel s.loop (s.kernel.threads daemonTid)) (hl : LoopInv d s.loop)
    (hw : Clean s.kernel) (hok : PollOk s (.daemon ans stack))
    (hs : stepDaemon d s ans stack = some s') :
    Clean s'.kernel ∧
      (Agreed s'.kernel s'.loop (s'.kernel.threads daemonTid) ∨ StopAsked s s') := by
  obtain ⟨k, st, lpc⟩ := s
  dsimp only at h hl hw
  -- the driver stays, and the daemon stays out of it
  have stays {u : Loop} (hu : Agreed k u .idle) (hpc : k.threads daemonTid = .idle)
      (heq : some (⟨k, u⟩ : State) = some s') : Clean s'.kernel ∧
        (Agreed s'.kernel s'.loop (s'.kernel.threads daemonTid) ∨ StopAsked ⟨k, st, lpc⟩ s') := by
    obtain rfl := Option.some.inj heq
    refine ⟨hw, Or.inl ?_⟩
    rw [hpc]
    exact hu
  -- the daemon enters the driver
  have enters (u : Loop) (pc : Pc) (hu : Agreed (k.goto daemonTid pc) u pc)
      (heq : (⟨k.goto daemonTid pc, u⟩ : State) = s') : Clean s'.kernel ∧
        (Agreed s'.kernel s'.loop (s'.kernel.threads daemonTid) ∨ StopAsked ⟨k, st, lpc⟩ s') := by
    subst heq
    refine ⟨⟨hw.1, hw.2⟩, Or.inl ?_⟩
    rw [Kernel.State.threads_goto_self]
    exact hu
  unfold stepDaemon at hs
  dsimp only at hs
  split at hs
  · next i rest hpc =>
    rw [hpc] at h
    have hbegin : Kernel.step k (.write daemonTid Kernel.kuResponseCount (st.response i)) =
        some (k.goto daemonTid (.writeFind Kernel.kuResponseCount (st.response i))) := by
      rw [Kernel.step, if_pos hpc]
      rfl
    rw [hbegin] at hs
    exact enters ⟨st, .writing i rest⟩ _ ⟨.writeFind, h.ids⟩ (Option.some.inj hs)
  · next i rest hpc =>
    rw [hpc] at h
    have hcall := h.call
    cases hcall with
    | written hret =>
      have hlevel : Level k (Connector.qcServiceDone st i).1 := h.ids
      rw [stepLoop_written hret hw ans] at hs
      exact stays (hlevel.walk .serviceDone rest) hpc hs
  · next hpc =>
    rw [hpc] at h
    have hlevel : Level k st := h.ids
    have hpoll : stepLoop d ⟨st, .getNext⟩ ans = Connector.pollDevice ans.env st := rfl
    rw [hpoll] at hs
    rcases pollDevice_polled (hok rfl) with hp | ⟨hready, hp⟩
    · rw [hp] at hs
      exact stays (hlevel.walk .serviceDone st.postExecReqs) hpc hs
    · rw [hp] at hs
      have hbegin : Kernel.step k (.read daemonTid Kernel.kuRequestCount false stack) =
          some (k.goto daemonTid (.readLock Kernel.kuRequestCount false stack)) := by
        rw [Kernel.step, if_pos hpc]
      have hreqs : k.reqs ≠ [] := by
        intro hnil
        rw [qhgpuPoll, hnil] at hready
        cases hready
      dsimp only at hs
      rw [hbegin] at hs
      exact enters ⟨st, .reading⟩ _ ⟨.readLock hreqs, h.ids⟩ (Option.some.inj hs)
  · next ret buf hpc =>
    rw [hpc] at h
    have hend : Kernel.step k (.step daemonTid) = some (k.goto daemonTid .idle) := by
      rw [Kernel.step, Kernel.stepThread, hpc]
    rw [hend] at hs
    have hcall := h.call
    cases hcall with
    | @readReturn kureq =>
      obtain rfl := Option.some.inj hs
      refine ⟨⟨hw.1, hw.2⟩, ?_⟩
      rw [Kernel.State.threads_goto_self]
      rw [show stepLoop d ⟨st, .reading⟩ _ = Connector.readDevice d _ st from rfl,
        readDevice_read kureq hl.stage rfl rfl]
      cases hstop : Connector.isStopRequest kureq with
      | true =>
        exact Or.inr ⟨rfl, Kernel.State.threads_goto_self .., kureq, hpc, hstop⟩
      | false =>
        have hlevel : Level k (Connector.qcAccept d st kureq).2 := Level.accept hl.stage h hstop
        exact Or.inl ⟨.walk, hlevel⟩
  · next p rest hne hpc =>
    rw [hpc] at h
    have hlevel : Level k st := h.ids
    refine stays (hlevel.stepLoop ans ?_) hpc hs
    rintro rfl
    cases rest with
    | nil => rfl
    | cons i rest => exact (hne i rest rfl rfl).elim
  · next hpc =>
    have hcall := h.call
    cases hcall
  · cases hs

/-! ### Every run -/

/-- The invariant of runs in which `poll` comes from the driver. -/
structure PollInv (d : Daemon) (s : State) : Prop where
  numbered : Numbered s.kernel
  loop : LoopInv d s.loop
  clients : ∀ t ≠ daemonTid, (s.kernel.threads t).ofClient = true
  clean : Clean s.kernel
  agreed : Agreed s.kernel s.loop (s.kernel.threads daemonTid) ∨
    (s.loop.pc = .stopped ∧ s.kernel.threads daemonTid = .idle)

private theorem pollInv_start (n : Nat) (arr : Int → Word) (pool : QhgpuMempool) :
    PollInv d (.start n arr pool) where
  numbered := Kernel.numbered_start n arr pool
  loop := Connector.loopInv_beginPass .start .serviceDone
  clients _ _ := rfl
  clean := ⟨fun _ hv ↦ absurd hv List.not_mem_nil, rfl⟩
  agreed := Or.inl ⟨.walk, List.Perm.nil⟩

/-- A step inside the driver keeps the invariant. -/
theorem PollInv.kernel {ka : Kernel.Act} (h : PollInv d s) (hp : s.permits ka = true)
    (hk : Kernel.step s.kernel ka = some k') : PollInv d ⟨k', s.loop⟩ := by
  have ht := Kernel.trans_of_step hk
  by_cases hdaemon : ka.tid = some daemonTid
  · have hclients (t : Tid) (hne : t ≠ daemonTid) : (k'.threads t).ofClient = true := by
      rw [ht.threads_of_ne fun heq ↦ hne (Option.some.inj (heq.symm.trans hdaemon))]
      exact h.clients t hne
    -- a stopped daemon is in no call
    have running (hmoves : s.kernel.threads daemonTid ≠ .idle) :
        Agreed s.kernel s.loop (s.kernel.threads daemonTid) := by
      rcases h.agreed with hagreed | ⟨-, hidle⟩
      · exact hagreed
      · exact absurd hidle hmoves
    cases ka with
    | step t =>
      obtain rfl := Option.some.inj hdaemon
      have hagreed := running fun hidle ↦ by
        rw [Kernel.step, Kernel.stepThread, hidle] at hk
        cases hk
      have hread (ret : Int) (buf : Option QhgpuKuRequest) :
          s.kernel.threads daemonTid ≠ .readReturn ret buf := by
        intro hpc
        rw [State.permits, hpc] at hp
        cases hp
      obtain ⟨hagreed', hw⟩ := hagreed.kernel h.numbered h.loop h.clean hread hk
      exact ⟨ht.numbered h.numbered, h.loop, hclients, hw, Or.inl hagreed'⟩
    | signal t =>
      -- the daemon waits in no call
      obtain rfl := Option.some.inj hdaemon
      change Kernel.signalThread s.kernel daemonTid = some k' at hk
      have hagreed := running fun hidle ↦ by
        rw [Kernel.signalThread, hidle] at hk
        cases hk
      exact absurd hk hagreed.call.no_signal
    | callSync t =>
      obtain rfl := Option.some.inj hdaemon
      exact (Bool.false_ne_true hp).elim
    | callAsync t =>
      obtain rfl := Option.some.inj hdaemon
      exact (Bool.false_ne_true hp).elim
    | read => cases hp
    | write => cases hp
    | alloc => cases hdaemon
    | fill => cases hdaemon
    | returnMmap => cases hdaemon
  · have hof := ofClient_of_permits hp h.clients hdaemon
    have hclient := ht.clientStep hof
    constructor
    · exact ht.numbered h.numbered
    · exact h.loop
    · intro t hne
      rcases hclient.threads t with heq | hof
      · exact (congrArg Pc.ofClient heq).trans (h.clients t hne)
      · exact hof
    · have hqueues := ht.client_queues hof
      refine ⟨?_, hqueues.dropped.trans h.clean.dropped⟩
      rw [hqueues.writeReturns]
      exact h.clean.written
    · dsimp only
      rw [ht.threads_of_ne hdaemon]
      rcases h.agreed with hagreed | hstopped
      · exact Or.inl (hagreed.client h.numbered ht hof)
      · exact Or.inr hstopped

/-- A stopped daemon stays stopped. -/
theorem stepDaemon_stopped {ans : Answer} {stack : QhgpuKuRequest}
    (hpc : s.loop.pc = .stopped) (hs : stepDaemon d s ans stack = some s') : s' = s := by
  obtain ⟨k, st, lpc⟩ := s
  obtain rfl : lpc = .stopped := hpc
  unfold stepDaemon at hs
  dsimp only at hs
  split at hs <;> first
    | exact (Option.some.inj hs).symm
    | cases hs
    | contradiction

/-- A step of the daemon keeps the invariant. -/
theorem PollInv.daemon {ans : Answer} {stack : QhgpuKuRequest} (h : PollInv d s)
    (hok : PollOk s (.daemon ans stack)) (hs : stepDaemon d s ans stack = some s') :
    PollInv d s' := by
  rcases h.agreed with hagreed | hstopped
  · obtain ⟨hw, hagreed'⟩ := hagreed.daemon h.loop h.clean hok hs
    have hloop : LoopInv d s'.loop := by
      obtain ⟨ans', heq⟩ := stepDaemon_loop hs
      rw [heq]
      exact h.loop.step ans'
    have hagreed'' : Agreed s'.kernel s'.loop (s'.kernel.threads daemonTid) ∨
        (s'.loop.pc = .stopped ∧ s'.kernel.threads daemonTid = .idle) := by
      rcases hagreed' with hagreed' | hstop
      · exact Or.inl hagreed'
      · exact Or.inr ⟨hstop.1, hstop.2.1⟩
    rcases stepDaemon_kernel hs with heq | ⟨ka, ht, htid, -⟩
    · refine ⟨?_, hloop, ?_, hw, hagreed''⟩
      · rw [heq]
        exact h.numbered
      · rw [heq]
        exact h.clients
    · refine ⟨ht.numbered h.numbered, hloop, ?_, hw, hagreed''⟩
      intro t hne
      rw [ht.threads_of_ne fun heq ↦ hne (Option.some.inj (heq.symm.trans htid))]
      exact h.clients t hne
  · obtain rfl := stepDaemon_stopped hstopped.1 hs
    exact h

/-- A step keeps the invariant. -/
theorem PollInv.step (h : PollInv d s) (hok : PollOk s a) (hs : step d s a = some s') :
    PollInv d s' := by
  cases a with
  | kernel ka =>
    rw [System.step] at hs
    split at hs
    · next hp =>
      obtain ⟨k', hk, rfl⟩ := Option.map_eq_some_iff.mp hs
      exact h.kernel hp hk
    · cases hs
  | daemon ans stack => exact h.daemon hok hs

/-- The invariant of every run. -/
theorem pollInv_of_run {n : Nat} {arr : Int → Word} {pool : QhgpuMempool} {acts : List Act}
    (hm : StepRun.Meets (step d) PollOk (.start n arr pool) acts)
    (h : StepRun.run (step d) (.start n arr pool) acts = some s) : PollInv d s :=
  StepRun.run_invariant (fun _ _ _ hinv hok hs ↦ PollInv.step hinv hok hs)
    (pollInv_start n arr pool) hm h

/-- `poll` finds nothing to read. -/
def expired : Answer := ⟨0, 0, ⟨fun _ ↦ 0, false, true, 0, false, .zeroed⟩⟩

/-- One request is submitted, read, launched, posted and answered. -/
def oneAnswered : List Act :=
  submit 0 ++ idlePasses ++ takeIn ++
    [go expired, go expired, go expired, go expired, go expired, go expired, go expired,
      go expired, go expired, go expired, .kernel (.step 0), .kernel (.step 0),
      .kernel (.step 0), .kernel (.step 0), .kernel (.step 0)]

private theorem meets_oneAnswered : StepRun.Meets (step Connector.batchDaemon) PollOk
    (.start 1 (fun _ ↦ 0) .zeroed) oneAnswered := by
  iterate 3 refine StepRun.meets_cons trivial rfl ?_
  iterate 3 refine StepRun.meets_cons nofun rfl ?_
  refine StepRun.meets_cons (fun _ ↦ .ready rfl) rfl ?_
  iterate 2 refine StepRun.meets_cons trivial rfl ?_
  iterate 5 refine StepRun.meets_cons nofun rfl ?_
  refine StepRun.meets_cons (fun _ ↦ .expired rfl rfl) rfl ?_
  iterate 3 refine StepRun.meets_cons nofun rfl ?_
  refine StepRun.meets_cons (fun _ ↦ .expired rfl rfl) rfl ?_
  refine StepRun.meets_cons nofun rfl ?_
  iterate 5 refine StepRun.meets_cons trivial rfl ?_
  trivial

/-- A `read` of the daemon finds an item on `reqs`, does not sleep and returns a record; a
`write` finds an item with the id of its response, and what it returns is the size of a
response; and the loop ends for a request that asks for it only. -/
structure NeverFails (d : Daemon) (s : State) : Prop where
  ready : ∀ count nonblock stack,
    s.kernel.threads daemonTid = .readLock count nonblock stack → s.kernel.reqs ≠ []
  awake : ∀ count nonblock stack, s.kernel.threads daemonTid ≠ .readWait count nonblock stack
  read : ∀ ret, s.kernel.threads daemonTid ≠ .readReturn ret none
  found : ∀ count resp, s.kernel.threads daemonTid = .writeFind count resp →
    ∃ j, Kernel.findRequest s.kernel resp.id = some j ∧ idOf s.kernel j = resp.id
  written : ∀ v ∈ s.kernel.writeReturns, v = sizeofKuResponse
  stops : ∀ ans stack s', PollOk s (.daemon ans stack) → stepDaemon d s ans stack = some s' →
    s'.loop.pc = .stopped → s.loop.pc ≠ .stopped →
      ∃ kureq, s.kernel.threads daemonTid = .readReturn sizeofKuRequest (some kureq) ∧
        Connector.isStopRequest kureq = true

/-- Over any interleaving of clients and daemon in which the answers of `poll` come from the
driver, whatever requests share a slot and whatever the services return: no `read` of the
daemon sleeps or fails, every `write` finds an item, and the loop ends only on request. -/
theorem neverFails_of_meets (d : Daemon) (n : Nat) (arr : Int → Word) (pool : QhgpuMempool)
    (acts : List Act) (s : State) (hm : StepRun.Meets (step d) PollOk (.start n arr pool) acts)
    (h : StepRun.run (step d) (.start n arr pool) acts = some s) : NeverFails d s := by
  have hinv := pollInv_of_run hm h
  -- a daemon that has stopped is in no call
  have calls {pc : Pc} (hpc : s.kernel.threads daemonTid = pc) (hne : pc ≠ .idle) :
      Agreed s.kernel s.loop pc := by
    rcases hinv.agreed with hagreed | ⟨-, hidle⟩
    · exact hpc ▸ hagreed
    · exact absurd (hpc.symm.trans hidle) hne
  constructor
  · exact fun _ _ _ hpc ↦ (calls hpc (by simp)).call.ready rfl
  · exact fun count nonblock stack hpc ↦ (calls hpc (by simp)).call.awake count nonblock stack rfl
  · exact fun ret hpc ↦ (calls hpc (by simp)).call.reads ret rfl
  · exact fun _ _ hpc ↦ (calls hpc (by simp)).finds hinv.loop
  · exact hinv.clean.written
  · intro ans stack s' hok hs hpc hne
    rcases hinv.agreed with hagreed | ⟨hstopped, -⟩
    · rcases (hagreed.daemon hinv.loop hinv.clean hok hs).2 with hagreed' | hstop
      · exact absurd hpc hagreed'.call.runs
      · exact hstop.2.2
    · exact absurd hstopped hne

/-- The response to the only request has been written. -/
theorem neverFails_of_meets_oneAnswered : ∃ s,
    StepRun.run (step Connector.batchDaemon) (.start 1 (fun _ ↦ 0) .zeroed) oneAnswered =
      some s ∧ s.kernel.writeReturns = [8] ∧ NeverFails Connector.batchDaemon s :=
  ⟨_, rfl, rfl, neverFails_of_meets Connector.batchDaemon 1 (fun _ ↦ 0) .zeroed oneAnswered _
    meets_oneAnswered rfl⟩

/-- While the loop goes on, the ids on the driver's `rtdreqs` are those on the daemon's
`all_reqs`, each as often; a request between the two is counted where it is. -/
theorem matched_of_meets (d : Daemon) (n : Nat) (arr : Int → Word) (pool : QhgpuMempool)
    (acts : List Act) (s : State) (hm : StepRun.Meets (step d) PollOk (.start n arr pool) acts)
    (h : StepRun.run (step d) (.start n arr pool) acts = some s) (hpc : s.loop.pc ≠ .stopped) :
    Matched (idOf s.kernel) (heldIds s.loop.st s.loop.pc (s.kernel.threads daemonTid))
      s.kernel.rtdreqs := by
  rcases (pollInv_of_run hm h).agreed with hagreed | ⟨hstopped, -⟩
  · exact hagreed.ids
  · exact absurd hstopped hpc

/-- The daemon writes the response of its only request, whose item is off `rtdreqs`. -/
theorem matched_of_meets_oneAnswered : ∃ s,
    StepRun.run (step Connector.batchDaemon) (.start 1 (fun _ ↦ 0) .zeroed) oneAnswered =
      some s ∧ s.loop.pc = .writing 0 [] ∧ s.loop.st.allReqs = [0] ∧
        Matched (idOf s.kernel) (heldIds s.loop.st s.loop.pc (s.kernel.threads daemonTid))
          s.kernel.rtdreqs :=
  ⟨_, rfl, rfl, rfl, matched_of_meets Connector.batchDaemon 1 (fun _ ↦ 0) .zeroed oneAnswered _
    meets_oneAnswered rfl nofun⟩

end QHGPU.System
