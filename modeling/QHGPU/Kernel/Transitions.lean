import QHGPU.Kernel.Driver

/-!
# What a step of the driver can do

The step function taken apart: one rule for each branch, with its guard and the state it
leaves. Results about runs go by cases on these rules.
-/

namespace QHGPU.Kernel

/-- The steps of the machine. -/
inductive Trans (s : State) : Act → State → Prop
  | alloc {dataSize serviceName obj} {req : QhgpuRequest} {checker : Int → Int}
      (hid : (∃ k : Nat, k < s.moduleCnt ∧ s.moduleActiveChecker k = 0 ∧ req.id = k ∧
          checker = Function.update s.moduleActiveChecker k 1) ∨
        ((∀ k : Nat, k < s.moduleCnt → s.moduleActiveChecker k ≠ 0) ∧ req.id = 0 ∧
          checker = s.moduleActiveChecker))
      (haddr : req.kmmapAddr = s.kmmapAddrArr req.id)
      (hcallback : req.callback ≠ .syncCallback) :
      Trans s (.alloc dataSize serviceName obj) { s with
        moduleActiveChecker := checker
        request := Function.update s.request s.nextReq req
        nextReq := s.nextReq + 1 }
  | fill {r f} (hr : r < s.nextReq) :
      Trans s (.fill r f) (s.setRequest r (assign (s.request r) f))
  | returnMmap {r} (hr : r < s.nextReq) : Trans s (.returnMmap r) (qhgpuReturnMmap s r)
  | syncRefused {t r dataOk itemOk} (ht : s.threads t = .idle) :
      Trans s (.callSync t r dataOk itemOk) s
  | syncNoItem {t r dataOk itemOk d} (ht : s.threads t = .idle) :
      Trans s (.callSync t r dataOk itemOk) { s with
        syncData := Function.update s.syncData s.nextData (some d)
        nextData := s.nextData + 1 }
  | callSync {t r dataOk itemOk} {c : SyncCall} (ht : s.threads t = .idle)
      (hr : r < s.nextReq) (hc : c = ⟨r, s.nextItem, s.nextData, (s.request r).kdata,
        (s.request r).callback⟩) :
      Trans s (.callSync t r dataOk itemOk) ({ s with
        itemReq := Function.update s.itemReq s.nextItem r
        nextItem := s.nextItem + 1
        syncData := Function.update s.syncData s.nextData (some ⟨c.kdata0, c.callback0, 0⟩)
        nextData := s.nextData + 1 }.goto t (.sync c .setKdata))
  | asyncRefused {t r itemOk} (ht : s.threads t = .idle) : Trans s (.callAsync t r itemOk) s
  | callAsync {t r itemOk} (ht : s.threads t = .idle) (hr : r < s.nextReq) :
      Trans s (.callAsync t r itemOk) ({ s with
        itemReq := Function.update s.itemReq s.nextItem r
        nextItem := s.nextItem + 1 }.goto t (.asyncEnqueue s.nextItem))
  | read {t count nonblock stack} (ht : s.threads t = .idle) :
      Trans s (.read t count nonblock stack) (s.goto t (.readLock count nonblock stack))
  | writeShort {t resp} {count : Count} (ht : s.threads t = .idle) :
      Trans s (.write t count resp) { s with writeReturns := s.writeReturns ++ [-einval] }
  | write {t resp} {count : Count} (ht : s.threads t = .idle)
      (hcount : sizeofKuResponse ≤ count.val) :
      Trans s (.write t count resp) (s.goto t (.writeFind count resp))
  | setKdata {t c} (ht : s.threads t = .sync c .setKdata) :
      Trans s (.step t) ((s.setRequest c.req { s.request c.req with kdata := .sync c.data }).goto t
        (.sync c .setCallback))
  | setCallback {t c moduleArr} (ht : s.threads t = .sync c .setCallback) :
      Trans s (.step t) ({ s with
        request := Function.update s.request c.req
          { s.request c.req with callback := .syncCallback }
        moduleArr := moduleArr }.goto t (.sync c .enqueue))
  | syncEnqueue {t c} (ht : s.threads t = .sync c .enqueue) :
      Trans s (.step t) ((s.enqueue c.item).goto t (.sync c .wait))
  | wait {t c} (ht : s.threads t = .sync c .wait) (hd : s.isDone c.data = true) :
      Trans s (.step t) (s.goto t (.sync c .restoreKdata))
  | restoreKdata {t c d} (ht : s.threads t = .sync c .restoreKdata)
      (hd : s.syncData c.data = some d) :
      Trans s (.step t) ((s.setRequest c.req
        { s.request c.req with kdata := d.oldkdata }).goto t (.sync c .restoreCallback))
  | restoreKdataStale {t c} (ht : s.threads t = .sync c .restoreKdata)
      (hd : s.syncData c.data = none) :
      Trans s (.step t) ({ s with staleAccess := true }.goto t (.sync c .restoreCallback))
  | restoreCallback {t c d} (ht : s.threads t = .sync c .restoreCallback)
      (hd : s.syncData c.data = some d) :
      Trans s (.step t) ((s.setRequest c.req
        { s.request c.req with callback := d.oldcallback }).goto t (.sync c .free))
  | restoreCallbackStale {t c} (ht : s.threads t = .sync c .restoreCallback)
      (hd : s.syncData c.data = none) :
      Trans s (.step t) ({ s with staleAccess := true }.goto t (.sync c .free))
  | free {t c} (ht : s.threads t = .sync c .free) :
      Trans s (.step t) ({ s with
        syncData := Function.update s.syncData c.data none }.goto t (.sync c .returnMmap))
  | syncReturnMmap {t c} (ht : s.threads t = .sync c .returnMmap) :
      Trans s (.step t) ((qhgpuReturnMmap s c.req).goto t (.sync c .ret))
  | syncReturn {t c} (ht : s.threads t = .sync c .ret) : Trans s (.step t) (s.goto t .idle)
  | asyncEnqueue {t i} (ht : s.threads t = .asyncEnqueue i) :
      Trans s (.step t) ((s.enqueue i).goto t .idle)
  | readEmpty {t count nonblock stack pc} (ht : s.threads t = .readLock count nonblock stack)
      (hreqs : s.reqs = [])
      (hpc : pc = .readReturn (-eagain) none ∨ pc = .readWait count nonblock stack) :
      Trans s (.step t) (s.goto t pc)
  | readTake {t count nonblock stack i rest kureq}
      (ht : s.threads t = .readLock count nonblock stack) (hreqs : s.reqs = i :: rest)
      (hkureq : kureq = fillKuRequest s.gmpool stack (s.request (s.itemReq i))) :
      Trans s (.step t) ({ s with reqs := rest, taken := s.taken ++ [i] }.goto t
        (.readHand i count kureq))
  | readWake {t count nonblock stack} (ht : s.threads t = .readWait count nonblock stack)
      (hreqs : s.reqs ≠ []) : Trans s (.step t) (s.goto t (.readLock count nonblock stack))
  | readPut {t i count kureq} (ht : s.threads t = .readHand i count kureq)
      (hcount : 0 < count.val) :
      Trans s (.step t) ({ s with rtdreqs := s.rtdreqs ++ [i] }.goto t
        (.readReturn count.val (some kureq)))
  | readDrop {t i count kureq} (ht : s.threads t = .readHand i count kureq)
      (hcount : count.val = 0) :
      Trans s (.step t) ({ s with dropped := s.dropped ++ [i] }.goto t
        (.readReturn count.val (some kureq)))
  | readReturn {t ret buf} (ht : s.threads t = .readReturn ret buf) :
      Trans s (.step t) (s.goto t .idle)
  | writeMiss {t count resp} (ht : s.threads t = .writeFind count resp)
      (hfind : findRequest s resp.id = none) :
      Trans s (.step t) ({ s with writeReturns := s.writeReturns ++ [-efault] }.goto t .idle)
  | writeFind {t count resp i} (ht : s.threads t = .writeFind count resp)
      (hfind : findRequest s resp.id = some i) :
      Trans s (.step t) ({ s with
        rtdreqs := s.rtdreqs.erase i
        completed := s.completed ++ [i] }.goto t (.write i count (.errcode resp.errcode)))
  | writeErrcode {t i count e} (ht : s.threads t = .write i count (.errcode e)) :
      Trans s (.step t) ((s.setRequest (s.itemReq i)
        { s.request (s.itemReq i) with errcode := e }).goto t (.write i count .callback))
  | callClient {t i count fn} (ht : s.threads t = .write i count .callback)
      (hcb : (s.request (s.itemReq i)).callback = .client fn) :
      Trans s (.step t) ({ s with called := s.called ++ [i] }.goto t (.write i count .client))
  | callSyncCallback {t i count} (ht : s.threads t = .write i count .callback)
      (hcb : (s.request (s.itemReq i)).callback = .syncCallback) :
      Trans s (.step t) ({ s with called := s.called ++ [i] }.goto t (.write i count .kdata))
  | clientDone {t i count} (ht : s.threads t = .write i count .client) :
      Trans s (.step t) (s.goto t (.write i count .free))
  | callbackKdata {t i count} (ht : s.threads t = .write i count .kdata) :
      Trans s (.step t) (s.goto t (.write i count (.done (s.request (s.itemReq i)).kdata)))
  | callbackDone {t i count n d} (ht : s.threads t = .write i count (.done (.sync n)))
      (hd : s.syncData n = some d) :
      Trans s (.step t) ({ s with
        syncData := Function.update s.syncData n (some { d with done := 1 }) }.goto t
          (.write i count (.wake (.sync n))))
  | callbackDoneStale {t i count data} (ht : s.threads t = .write i count (.done data))
      (hd : s.syncAt data = none) :
      Trans s (.step t) ({ s with staleAccess := true }.goto t (.write i count (.wake data)))
  | callbackWake {t i count data d} (ht : s.threads t = .write i count (.wake data))
      (hd : s.syncAt data = some d) : Trans s (.step t) (s.goto t (.write i count .free))
  | callbackWakeStale {t i count data} (ht : s.threads t = .write i count (.wake data))
      (hd : s.syncAt data = none) :
      Trans s (.step t) ({ s with staleAccess := true }.goto t (.write i count .free))
  | writeReturn {t i} {count : Count} (ht : s.threads t = .write i count .free) :
      Trans s (.step t) ({ s with
        writeReturns := s.writeReturns ++ [(count.val : Int)]
        finished := s.finished ++ [i] }.goto t .idle)
  | signalSync {t c} (ht : s.threads t = .sync c .wait) (hd : s.isDone c.data = false) :
      Trans s (.signal t) (s.goto t (.sync c .restoreKdata))
  | signalRead {t count nonblock stack} (ht : s.threads t = .readWait count nonblock stack)
      (hreqs : s.reqs = []) :
      Trans s (.signal t) (s.goto t (.readReturn (-erestartsys) none))

variable {s s' : State}

/-- The thread is where it goes on. -/
@[simp] theorem State.threads_goto_self (s : State) (t : Tid) (pc : Pc) :
    (s.goto t pc).threads t = pc := Function.update_self (f := s.threads) ..

/-- Where the threads are when one goes on. -/
theorem State.threads_goto (s : State) (t u : Tid) (pc : Pc) :
    (s.goto t pc).threads u = if u = t then pc else s.threads u := Function.update_apply ..

/-- The other threads stay where they are. -/
theorem State.threads_goto_of_ne {t u : Tid} (h : u ≠ t) (s : State) (pc : Pc) :
    (s.goto t pc).threads u = s.threads u := Function.update_of_ne h ..

/-- A client never supplies `sync_callback`. -/
theorem Callback.ofClient_ne_syncCallback (f : Option Nat) :
    Callback.ofClient f ≠ .syncCallback := by
  cases f <;> exact nofun

/-- An allocation claims the first free slot, or hands out slot 0 when there is none. -/
private theorem trans_of_alloc {dataSize : Int} {serviceName : List UInt8}
    {obj : Option (ClientFields × Int)}
    (h : qhgpuAllocRequest s dataSize serviceName obj = some s') :
    Trans s (.alloc dataSize serviceName obj) s' := by
  unfold qhgpuAllocRequest at h
  match obj, h with
  | some (f, errcode), h =>
    unfold qhgpuMmapId at h
    cases hfind : (List.range s.moduleCnt).find? fun i : Nat ↦
        s.moduleActiveChecker i = 0 with
    | none =>
      rw [hfind] at h
      obtain rfl := Option.some.inj h
      refine .alloc (Or.inr ⟨?_, rfl, rfl⟩) rfl (Callback.ofClient_ne_syncCallback f.callback)
      intro k hk hz
      have := List.find?_eq_none.mp hfind k (List.mem_range.mpr hk)
      simp [hz] at this
    | some k =>
      rw [hfind] at h
      obtain rfl := Option.some.inj h
      refine .alloc (Or.inl ⟨k, ?_, ?_, rfl, rfl⟩) rfl
        (Callback.ofClient_ne_syncCallback f.callback)
      · exact List.mem_range.mp (List.mem_of_find?_eq_some hfind)
      · have hfree := List.find?_some hfind
        exact of_decide_eq_true hfree

private theorem trans_of_callSync {t : Tid} {r : ReqId} {dataOk itemOk : Bool}
    (ht : s.threads t = .idle) (hr : r < s.nextReq) :
    Trans s (.callSync t r dataOk itemOk) (qhgpuCallSync s t r dataOk itemOk).2 := by
  unfold qhgpuCallSync
  split
  · exact .syncRefused ht
  split
  · exact .syncRefused ht
  split
  · exact .syncNoItem ht
  · exact .callSync ht hr rfl

private theorem trans_of_callAsync {t : Tid} {r : ReqId} {itemOk : Bool}
    (ht : s.threads t = .idle) (hr : r < s.nextReq) :
    Trans s (.callAsync t r itemOk) (qhgpuCallAsync s t r itemOk).2 := by
  unfold qhgpuCallAsync
  split
  · exact .asyncRefused ht
  split
  · exact .asyncRefused ht
  · exact .callAsync ht hr

private theorem trans_of_stepSync {t : Tid} {c : SyncCall} {p : SyncPhase}
    (ht : s.threads t = .sync c p) (h : stepSync s t c p = some s') : Trans s (.step t) s' := by
  cases p with
  | setKdata =>
    obtain rfl := Option.some.inj h
    exact .setKdata ht
  | setCallback =>
    obtain rfl := Option.some.inj h
    exact .setCallback ht
  | enqueue =>
    obtain rfl := Option.some.inj h
    exact .syncEnqueue ht
  | wait =>
    simp only [stepSync] at h
    split at h
    · next hd =>
      obtain rfl := Option.some.inj h
      exact .wait ht hd
    · cases h
  | restoreKdata =>
    simp only [stepSync, State.withSync, State.syncAt] at h
    cases hd : s.syncData c.data with
    | none =>
      rw [hd] at h
      obtain rfl := Option.some.inj h
      exact .restoreKdataStale ht hd
    | some d =>
      rw [hd] at h
      obtain rfl := Option.some.inj h
      exact .restoreKdata ht hd
  | restoreCallback =>
    simp only [stepSync, State.withSync, State.syncAt] at h
    cases hd : s.syncData c.data with
    | none =>
      rw [hd] at h
      obtain rfl := Option.some.inj h
      exact .restoreCallbackStale ht hd
    | some d =>
      rw [hd] at h
      obtain rfl := Option.some.inj h
      exact .restoreCallback ht hd
  | free =>
    obtain rfl := Option.some.inj h
    exact .free ht
  | returnMmap =>
    obtain rfl := Option.some.inj h
    exact .syncReturnMmap ht
  | ret =>
    obtain rfl := Option.some.inj h
    exact .syncReturn ht

private theorem trans_of_stepWrite {t : Tid} {i : ItemId} {count : Count} {p : WritePhase}
    (ht : s.threads t = .write i count p) (h : stepWrite s t i count p = some s') :
    Trans s (.step t) s' := by
  cases p with
  | errcode e =>
    obtain rfl := Option.some.inj h
    exact .writeErrcode ht
  | callback =>
    simp only [stepWrite] at h
    cases hcb : (s.request (s.itemReq i)).callback with
    | null =>
      rw [hcb] at h
      cases h
    | client fn =>
      rw [hcb] at h
      obtain rfl := Option.some.inj h
      exact .callClient ht hcb
    | syncCallback =>
      rw [hcb] at h
      obtain rfl := Option.some.inj h
      exact .callSyncCallback ht hcb
  | client =>
    obtain rfl := Option.some.inj h
    exact .clientDone ht
  | kdata =>
    obtain rfl := Option.some.inj h
    exact .callbackKdata ht
  | done data =>
    simp only [stepWrite, State.withSync] at h
    cases hd : s.syncAt data with
    | none =>
      rw [hd] at h
      obtain rfl := Option.some.inj h
      exact .callbackDoneStale ht hd
    | some d =>
      rw [hd] at h
      obtain rfl := Option.some.inj h
      cases data with
      | client p => cases hd
      | sync n => exact .callbackDone ht hd
  | wake data =>
    simp only [stepWrite, State.withSync] at h
    cases hd : s.syncAt data with
    | none =>
      rw [hd] at h
      obtain rfl := Option.some.inj h
      exact .callbackWakeStale ht hd
    | some d =>
      rw [hd] at h
      obtain rfl := Option.some.inj h
      exact .callbackWake ht hd
  | free =>
    obtain rfl := Option.some.inj h
    exact .writeReturn ht

private theorem trans_of_stepThread {t : Tid} (h : stepThread s t = some s') :
    Trans s (.step t) s' := by
  unfold stepThread at h
  cases ht : s.threads t with
  | idle =>
    rw [ht] at h
    cases h
  | sync c p =>
    rw [ht] at h
    exact trans_of_stepSync ht h
  | asyncEnqueue i =>
    rw [ht] at h
    obtain rfl := Option.some.inj h
    exact .asyncEnqueue ht
  | readLock count nonblock stack =>
    simp only [ht] at h
    cases hreqs : s.reqs with
    | nil =>
      simp only [hreqs] at h
      split at h
      · obtain rfl := Option.some.inj h
        exact .readEmpty ht hreqs (Or.inl rfl)
      · obtain rfl := Option.some.inj h
        exact .readEmpty ht hreqs (Or.inr rfl)
    | cons i rest =>
      simp only [hreqs] at h
      obtain rfl := Option.some.inj h
      exact .readTake ht hreqs rfl
  | readWait count nonblock stack =>
    simp only [ht] at h
    split at h
    · cases h
    · next hreqs =>
      obtain rfl := Option.some.inj h
      exact .readWake ht hreqs
  | readHand i count kureq =>
    simp only [ht] at h
    obtain rfl := Option.some.inj h
    split
    · next hcount => exact .readPut ht hcount
    · next hcount => exact .readDrop ht (Nat.eq_zero_of_not_pos hcount)
  | readReturn ret buf =>
    rw [ht] at h
    obtain rfl := Option.some.inj h
    exact .readReturn ht
  | writeFind count resp =>
    simp only [ht] at h
    cases hfind : findRequest s resp.id with
    | none =>
      rw [hfind] at h
      obtain rfl := Option.some.inj h
      exact .writeMiss ht hfind
    | some i =>
      rw [hfind] at h
      obtain rfl := Option.some.inj h
      exact .writeFind ht hfind
  | write i count p =>
    rw [ht] at h
    exact trans_of_stepWrite ht h

private theorem trans_of_signal {t : Tid} (h : signalThread s t = some s') :
    Trans s (.signal t) s' := by
  unfold signalThread at h
  split at h
  · next c ht =>
    split at h
    · cases h
    · next hd =>
      obtain rfl := Option.some.inj h
      exact .signalSync ht (Bool.eq_false_iff.mpr hd)
  · next count nonblock stack ht =>
    split at h
    · next hreqs =>
      obtain rfl := Option.some.inj h
      exact .signalRead ht hreqs
    · cases h
  · cases h

/-- Every step follows one of the rules. -/
theorem trans_of_step {a : Act} (h : step s a = some s') : Trans s a s' := by
  cases a with
  | alloc dataSize serviceName obj => exact trans_of_alloc h
  | fill r f =>
    simp only [step] at h
    split at h
    · next hr =>
      obtain rfl := Option.some.inj h
      exact .fill hr
    · cases h
  | returnMmap r =>
    simp only [step] at h
    split at h
    · next hr =>
      obtain rfl := Option.some.inj h
      exact .returnMmap hr
    · cases h
  | callSync t r dataOk itemOk =>
    simp only [step] at h
    split at h
    · next hg =>
      obtain rfl := Option.some.inj h
      exact trans_of_callSync hg.1 hg.2
    · cases h
  | callAsync t r itemOk =>
    simp only [step] at h
    split at h
    · next hg =>
      obtain rfl := Option.some.inj h
      exact trans_of_callAsync hg.1 hg.2
    · cases h
  | read t count nonblock stack =>
    simp only [step] at h
    split at h
    · next ht =>
      obtain rfl := Option.some.inj h
      exact .read ht
    · cases h
  | write t count resp =>
    simp only [step] at h
    split at h
    · next ht =>
      split at h
      · obtain rfl := Option.some.inj h
        exact .writeShort ht
      · next hcount =>
        obtain rfl := Option.some.inj h
        exact .write ht (Nat.not_lt.mp hcount)
    · cases h
  | step t => exact trans_of_stepThread h
  | signal t => exact trans_of_signal h

end QHGPU.Kernel
