import QHGPU.Kernel.Objects

/-!
# When `qhgpu_call_sync` is safe

A caller, the writer that runs `sync_callback` and the freed data block: the invariant says,
for each call, which of the two has the block and what the request holds. It is kept by every
step but those that `SyncOk` names.
-/

namespace QHGPU.Kernel

/-- Whenever `qhgpu_call_sync` is about to return 0, its item has been answered and is on no
list, and the request is as it was before the call; no freed block was ever used. -/
structure SyncSafe (s : State) : Prop where
  answered : ∀ t c, s.threads t = .sync c .ret →
    c.item ∈ s.completed ∧ c.item ∉ s.reqs ∧ c.item ∉ s.rtdreqs
  restored : ∀ t c, s.threads t = .sync c .ret →
    (s.request c.req).kdata = c.kdata0 ∧ (s.request c.req).callback = c.callback0
  noStale : s.staleAccess = false

/-- An item was allocated, and neither dropped nor called back. -/
def State.InFlight (s : State) (i : ItemId) : Prop :=
  i < s.nextItem ∧ i ∉ s.called ∧ i ∉ s.dropped

/-- A thread is inside `qhgpu_call_sync` with the request. -/
def State.SyncBusy (s : State) (r : ReqId) : Prop :=
  ∃ t c, (s.threads t).syncCall = some c ∧ c.req = r

/-- A request belongs to one call at a time; no wait ends before `done` is set; and the block
is not freed between `done = 1` and the wake-up that follows. -/
def SyncOk (s : State) : Act → Prop
  | .fill r _ => ¬s.SyncBusy r
  | .callSync _ r _ _ => ¬s.SyncBusy r ∧ ∀ i, s.InFlight i → s.itemReq i ≠ r
  | .callAsync _ r _ => ¬s.SyncBusy r
  | .signal t => ∀ c, s.threads t ≠ .sync c .wait
  | .step t => ∀ c, s.threads t = .sync c .free →
    ∀ t' i count, s.threads t' ≠ .write i count (.wake (.sync c.data))
  | _ => True

/-! ### One call -/

/-- What `req->kdata` holds in each phase of the call. -/
def SyncCall.kdataIn (c : SyncCall) : SyncPhase → Kdata
  | .setKdata | .restoreCallback | .free | .returnMmap | .ret => c.kdata0
  | .setCallback | .enqueue | .wait | .restoreKdata => .sync c.data

/-- What `req->callback` holds in each phase of the call. -/
def SyncCall.callbackIn (c : SyncCall) : SyncPhase → Callback
  | .setKdata | .setCallback | .free | .returnMmap | .ret => c.callback0
  | .enqueue | .wait | .restoreKdata | .restoreCallback => .syncCallback

/-- How far the answer to a call has come: the item is not enqueued, `done` is 0, `done` is 1,
or the block is freed. -/
inductive Reply where
  | fresh
  | unanswered
  | answered
  | closed

/-- Where the caller can be. -/
def SyncPhase.Admits : SyncPhase → Reply → Prop
  | .setKdata, g | .setCallback, g | .enqueue, g => g = .fresh
  | .wait, g => g = .unanswered ∨ g = .answered
  | .restoreKdata, g | .restoreCallback, g | .free, g => g = .answered
  | .returnMmap, g | .ret, g => g = .closed

/-- Where a writer can be that has the call's item, `data` being the call's block. -/
def WritePhase.Admits (data : DataId) : WritePhase → Reply → Prop
  | .errcode _, g | .callback, g | .kdata, g => g = .unanswered
  | .client, _ => False
  | .done k, g => g = .unanswered ∧ k = .sync data
  | .wake k, g => g = .answered ∧ k = .sync data
  | .free, g => g = .answered ∨ g = .closed

/-- The `done` flag of the block while the caller has it. -/
def Reply.done? : Reply → Option Int
  | .fresh | .unanswered => some 0
  | .answered => some 1
  | .closed => none

/-- The block, the item and the writers agree with the reply. -/
structure ReplyOk (s : State) (c : SyncCall) (g : Reply) : Prop where
  block : ∀ n, g.done? = some n → s.syncData c.data = some ⟨c.kdata0, c.callback0, n⟩
  called : g.done? ≠ some 0 → c.item ∈ s.called
  writers : ∀ t count q, s.threads t = .write c.item count q → q.Admits c.data g

/-- The invariant of a call whose thread is in phase `p`. -/
structure CallOk (s : State) (c : SyncCall) (p : SyncPhase) : Prop where
  kdata : (s.request c.req).kdata = c.kdataIn p
  callback : (s.request c.req).callback = c.callbackIn p
  reply : ∃ g, p.Admits g ∧ ReplyOk s c g

/-- The writer is between the call of `sync_callback` and its return. -/
def WritePhase.inCallback : WritePhase → Prop
  | .kdata | .done _ | .wake _ => True
  | _ => False

/-- The invariant of all calls. -/
structure SyncInv (s : State) : Prop where
  numbered : Numbered s
  data_lt : ∀ t c, (s.threads t).syncCall = some c → c.data < s.nextData
  apart : ∀ t t' c c', (s.threads t).syncCall = some c → (s.threads t').syncCall = some c' →
    c.req = c'.req ∨ c.data = c'.data → t = t'
  own : ∀ t c i, (s.threads t).syncCall = some c → s.InFlight i → s.itemReq i = c.req →
    i = c.item
  plain : ∀ t c, (s.threads t).syncCall = some c → c.callback0 ≠ .syncCallback
  calls : ∀ t c p, s.threads t = .sync c p → CallOk s c p
  writers : ∀ t i count q, s.threads t = .write i count q → q.inCallback →
    ∃ t' c, (s.threads t').syncCall = some c ∧ c.item = i
  callbacks : ∀ r, (s.request r).callback = .syncCallback → s.SyncBusy r
  noStale : s.staleAccess = false

variable {s s' u : State} {a : Act} {t T : Tid} {c : SyncCall} {p : SyncPhase} {pc : Pc}

/-- The thread is in one of the phases of the call. -/
theorem syncCall_eq_some (h : (s.threads t).syncCall = some c) :
    ∃ p, s.threads t = .sync c p := by
  cases hpc : s.threads t with
  | sync c' p =>
    rw [hpc] at h
    obtain rfl := Option.some.inj h
    exact ⟨p, rfl⟩
  | _ =>
    rw [hpc] at h
    cases h

/-- A call that is about to return was answered. -/
theorem SyncInv.safe (h : SyncInv s) : SyncSafe s := by
  refine ⟨?_, ?_, h.noStale⟩
  · intro t c ht
    obtain ⟨_, _, g, hg, hreply⟩ := h.calls t c .ret ht
    obtain rfl : g = .closed := hg
    exact h.numbered.conserved.called (hreply.called nofun)
  · intro t c ht
    have hcall := h.calls t c .ret ht
    exact ⟨hcall.kdata, hcall.callback⟩

/-! ### Steps that leave a call alone -/

/-- What a step to state `u`, after which one thread goes on at `pc`, must leave of a call. -/
structure Undisturbed (s u : State) (c : SyncCall) (p : SyncPhase) (pc : Pc) : Prop where
  threads : u.threads = s.threads
  kdata : (u.request c.req).kdata = (s.request c.req).kdata
  callback : (u.request c.req).callback = (s.request c.req).callback
  data : u.syncData c.data = s.syncData c.data
  called : s.called ⊆ u.called
  writers : ∀ count q, pc = .write c.item count q →
    ∀ g, p.Admits g → ReplyOk s c g → q.Admits c.data g

private theorem CallOk.goto (h : CallOk s c p) (hu : Undisturbed s u c p pc) :
    CallOk (u.goto T pc) c p := by
  obtain ⟨g, hg, hreply⟩ := h.reply
  refine ⟨hu.kdata.trans h.kdata, hu.callback.trans h.callback, g, hg, ?_, ?_, ?_⟩
  · intro n hn
    exact hu.data.trans (hreply.block n hn)
  · intro hn
    exact hu.called (hreply.called hn)
  · intro t count q ht
    rw [State.threads_goto, hu.threads] at ht
    split at ht
    · exact hu.writers count q ht g hg hreply
    · exact hreply.writers t count q ht

/-- The call of a thread after one thread, perhaps another, has moved. -/
private theorem calls_goto (h : SyncInv s) (ht : (u.goto T pc).threads t = .sync c p)
    (hthreads : u.threads = s.threads) (hself : ∀ c p, pc = .sync c p → CallOk (u.goto T pc) c p)
    (hother : t ≠ T → s.threads t = .sync c p → Undisturbed s u c p pc) :
    CallOk (u.goto T pc) c p := by
  rw [State.threads_goto, hthreads] at ht
  split at ht
  · exact hself c p ht
  · next hne => exact (h.calls t c p ht).goto (hother hne ht)

/-! ### What a step changes -/

/-- Block numbers are not given back. -/
theorem Trans.nextData_le (h : Trans s a s') : s.nextData ≤ s'.nextData := by
  cases h with
  | syncNoItem | callSync => exact Nat.le_succ _
  | _ => exact Nat.le_refl _

/-- An item in flight was in flight before, or is that of the call just made. -/
theorem Trans.inFlight (h : Trans s a s') {i : ItemId} (hi : s'.InFlight i) : s.InFlight i ∨
    (i = s.nextItem ∧ ((∃ t dataOk itemOk, a = .callSync t (s'.itemReq i) dataOk itemOk) ∨
      ∃ t itemOk, a = .callAsync t (s'.itemReq i) itemOk)) := by
  obtain ⟨hlt, hcalled, hdropped⟩ := hi
  cases h with
  | @callSync t r dataOk itemOk =>
    rcases Nat.lt_succ_iff_lt_or_eq.mp hlt with hlt | rfl
    · exact Or.inl ⟨hlt, hcalled, hdropped⟩
    · refine Or.inr ⟨rfl, Or.inl ⟨t, dataOk, itemOk, ?_⟩⟩
      change _ = Act.callSync t (Function.update s.itemReq s.nextItem r s.nextItem) dataOk itemOk
      rw [Function.update_self]
  | @callAsync t r itemOk =>
    rcases Nat.lt_succ_iff_lt_or_eq.mp hlt with hlt | rfl
    · exact Or.inl ⟨hlt, hcalled, hdropped⟩
    · refine Or.inr ⟨rfl, Or.inr ⟨t, itemOk, ?_⟩⟩
      change _ = Act.callAsync t (Function.update s.itemReq s.nextItem r s.nextItem) itemOk
      rw [Function.update_self]
  | callClient | callSyncCallback =>
    exact Or.inl ⟨hlt, fun hmem ↦ hcalled (List.mem_append_left _ hmem), hdropped⟩
  | readDrop =>
    exact Or.inl ⟨hlt, hcalled, fun hmem ↦ hdropped (List.mem_append_left _ hmem)⟩
  | _ => exact Or.inl ⟨hlt, hcalled, hdropped⟩

/-- A call goes on until it returns, which changes no request. -/
theorem Trans.syncCall_stays (h : Trans s a s') (ht : (s.threads t).syncCall = some c) :
    (s'.threads t).syncCall = some c ∨
      (s.threads t = .sync c .ret ∧ s'.request = s.request) := by
  have goto {u : State} {T : Tid} {old pc : Pc} (hold : s.threads T = old)
      (hpc : old.syncCall = pc.syncCall ∨ old.syncCall = none) (hu : u.threads = s.threads) :
      ((u.goto T pc).threads t).syncCall = some c := by
    rw [State.threads_goto, hu]
    split
    · next heq =>
      subst heq
      rw [hold] at ht
      rcases hpc with hpc | hpc
      · exact hpc.symm.trans ht
      · exact absurd (hpc.symm.trans ht) (Option.some_ne_none c).symm
    · exact ht
  cases h with
  | alloc | fill | returnMmap | syncRefused | syncNoItem | asyncRefused | writeShort =>
    exact Or.inl ht
  | @syncReturn T c' hT =>
    by_cases heq : t = T
    · subst heq
      rw [hT] at ht
      obtain rfl := Option.some.inj ht
      exact Or.inr ⟨hT, rfl⟩
    · refine Or.inl ?_
      rw [State.threads_goto_of_ne heq]
      exact ht
  | setKdata hT | setCallback hT | syncEnqueue hT | wait hT | restoreKdata hT
  | restoreKdataStale hT | restoreCallback hT | restoreCallbackStale hT | free hT
  | syncReturnMmap hT | signalSync hT =>
    exact Or.inl (goto hT (Or.inl rfl) rfl)
  | readEmpty hT _ hpc =>
    rcases hpc with rfl | rfl
    · exact Or.inl (goto hT (Or.inr rfl) rfl)
    · exact Or.inl (goto hT (Or.inr rfl) rfl)
  | callSync hT | callAsync hT | read hT | write hT | asyncEnqueue hT | readTake hT
  | readWake hT | readPut hT | readDrop hT | readReturn hT | writeMiss hT | writeFind hT
  | writeErrcode hT | callClient hT | callSyncCallback hT | clientDone hT | callbackKdata hT
  | callbackDone hT | callbackDoneStale hT | callbackWake hT | callbackWakeStale hT
  | writeReturn hT | signalRead hT =>
    exact Or.inl (goto hT (Or.inr rfl) rfl)

/-- A writer inside `sync_callback` was there before, or has just called it. -/
theorem Trans.writer (h : Trans s a s') {i : ItemId} {count : Count} {q : WritePhase}
    (ht : s'.threads t = .write i count q) (hq : q.inCallback) :
    (∃ q', s.threads t = .write i count q' ∧ q'.inCallback) ∨
      (s.threads t = .write i count .callback ∧
        (s.request (s.itemReq i)).callback = .syncCallback) := by
  have goto {u : State} {T : Tid} {pc : Pc} (ht : (u.goto T pc).threads t = .write i count q)
      (hpc : t = T → pc = .write i count q → (∃ q', s.threads T = .write i count q' ∧
        q'.inCallback) ∨ (s.threads T = .write i count .callback ∧
          (s.request (s.itemReq i)).callback = .syncCallback)) (hu : u.threads = s.threads) :
      (∃ q', s.threads t = .write i count q' ∧ q'.inCallback) ∨
        (s.threads t = .write i count .callback ∧
          (s.request (s.itemReq i)).callback = .syncCallback) := by
    rw [State.threads_goto, hu] at ht
    split at ht
    · next heq =>
      subst heq
      exact hpc rfl ht
    · exact Or.inl ⟨q, ht, hq⟩
  cases h with
  | alloc | fill | returnMmap | syncRefused | syncNoItem | asyncRefused | writeShort =>
    exact Or.inl ⟨q, ht, hq⟩
  | readEmpty _ _ hpc =>
    rcases hpc with rfl | rfl
    · exact goto ht (fun _ heq ↦ by cases heq) rfl
    · exact goto ht (fun _ heq ↦ by cases heq) rfl
  | callSyncCallback hT hcb =>
    refine goto ht (fun _ heq ↦ ?_) rfl
    obtain ⟨rfl, rfl, _⟩ := Pc.write.inj heq
    exact Or.inr ⟨hT, hcb⟩
  | callbackKdata hT | callbackDone hT | callbackDoneStale hT =>
    refine goto ht (fun _ heq ↦ ?_) rfl
    obtain ⟨rfl, rfl, _⟩ := Pc.write.inj heq
    exact Or.inl ⟨_, hT, trivial⟩
  | writeFind | writeErrcode | callClient | clientDone | callbackWake | callbackWakeStale =>
    refine goto ht (fun _ heq ↦ ?_) rfl
    obtain ⟨_, _, rfl⟩ := Pc.write.inj heq
    exact absurd hq id
  | _ => exact goto ht (fun _ heq ↦ by cases heq) rfl

/-- `req->callback` is set to `sync_callback` by a call in that phase only. -/
theorem SyncInv.callback_step (hs : SyncInv s) (h : Trans s a s') {r : ReqId}
    (hr : (s'.request r).callback = .syncCallback) : s.SyncBusy r := by
  have store {r' : ReqId} {req : QhgpuRequest}
      (hr : (Function.update s.request r' req r).callback = .syncCallback)
      (hreq : req.callback = .syncCallback → s.SyncBusy r') : s.SyncBusy r := by
    rw [Function.update_apply] at hr
    split at hr
    · next heq =>
      subst heq
      exact hreq hr
    · exact hs.callbacks r hr
  cases h with
  | alloc _ _ hcallback => exact store hr (absurd · hcallback)
  | @fill r f =>
    refine store hr (absurd · ?_)
    exact Callback.ofClient_ne_syncCallback f.callback
  | setKdata => exact store hr (hs.callbacks _)
  | @setCallback t c _ ht =>
    exact store hr fun _ ↦ ⟨t, c, by rw [ht]; rfl, rfl⟩
  | restoreKdata => exact store hr (hs.callbacks _)
  | @restoreCallback t c d ht => exact store hr fun _ ↦ ⟨t, c, by rw [ht]; rfl, rfl⟩
  | writeErrcode => exact store hr (hs.callbacks _)
  | _ => exact hs.callbacks r hr

/-- The call that a writer inside `sync_callback` works for, and how far it has come. -/
theorem SyncInv.call_of_writer (hs : SyncInv s) {i : ItemId} {count : Count} {q : WritePhase}
    (ht : s.threads T = .write i count q) (hq : q.inCallback) :
    ∃ t c p g, s.threads t = .sync c p ∧ c.item = i ∧ CallOk s c p ∧ p.Admits g ∧
      ReplyOk s c g ∧ q.Admits c.data g := by
  obtain ⟨t, c, hc, rfl⟩ := hs.writers T i count q ht hq
  obtain ⟨p, hp⟩ := syncCall_eq_some hc
  have hcall := hs.calls t c p hp
  obtain ⟨g, hg, hreply⟩ := hcall.reply
  exact ⟨t, c, p, g, hp, rfl, hcall, hg, hreply, hreply.writers T count q ht⟩

/-- The block is there when the caller restores the request from it. -/
theorem SyncInv.block_of_restore (hs : SyncInv s) (ht : s.threads t = .sync c p)
    (hp : p = .restoreKdata ∨ p = .restoreCallback) : s.syncData c.data ≠ none := by
  obtain ⟨_, _, g, hg, hreply⟩ := hs.calls t c p ht
  have : g = .answered := by rcases hp with rfl | rfl <;> exact hg
  subst this
  rw [hreply.block 1 rfl]
  exact Option.some_ne_none _

/-- The block is there when `sync_callback` sets `done` in it, and when it wakes the caller. -/
theorem SyncInv.block_of_writer (hs : SyncInv s) {i : ItemId} {count : Count}
    {q : WritePhase} {data : Kdata} (ht : s.threads T = .write i count q)
    (hq : q = .done data ∨ q = .wake data) : s.syncAt data ≠ none := by
  have hin : q.inCallback := by rcases hq with rfl | rfl <;> trivial
  obtain ⟨_, c, _, g, _, _, _, _, hreply, hadm⟩ := hs.call_of_writer ht hin
  rcases hq with rfl | rfl <;> obtain ⟨rfl, rfl⟩ := hadm
  · rw [State.syncAt, hreply.block 0 rfl]
    exact Option.some_ne_none _
  · rw [State.syncAt, hreply.block 1 rfl]
    exact Option.some_ne_none _

/-- Where the answer is still open, the caller waits. -/
theorem SyncPhase.eq_wait (h : p.Admits .unanswered) : p = .wait := by
  cases p <;> simp [SyncPhase.Admits] at h ⊢

/-- A call that is not enqueued yet has its item pending. -/
theorem pending_of_fresh (h : p.Admits .fresh) (ht : s.threads t = .sync c p) :
    (s.threads t).pending = some c.item := by
  rw [ht]
  cases p <;> first | rfl | simp [SyncPhase.Admits] at h

/-- A store to another request. -/
private theorem update_other {f : ReqId → QhgpuRequest} {r r' : ReqId} {req : QhgpuRequest}
    (hne : r ≠ r') : (Function.update f r' req r).kdata = (f r).kdata ∧
      (Function.update f r' req r).callback = (f r).callback := by
  rw [Function.update_of_ne hne]
  exact ⟨rfl, rfl⟩

/-- A store of an error code. -/
private theorem update_errcode (f : ReqId → QhgpuRequest) (r r' : ReqId) (e : Int) :
    (Function.update f r' { f r' with errcode := e } r).kdata = (f r).kdata ∧
      (Function.update f r' { f r' with errcode := e } r).callback = (f r).callback := by
  by_cases hr : r = r'
  · subst hr
    rw [Function.update_self]
    exact ⟨rfl, rfl⟩
  · exact update_other hr

/-- A step of no thread leaves a call alone that it does not concern. -/
private theorem CallOk.frame (h : CallOk s c p) (hthreads : u.threads = s.threads)
    (hreq : (u.request c.req).kdata = (s.request c.req).kdata ∧
      (u.request c.req).callback = (s.request c.req).callback)
    (hdata : u.syncData c.data = s.syncData c.data) (hcalled : u.called = s.called) :
    CallOk u c p := by
  obtain ⟨g, hg, hreply⟩ := h.reply
  refine ⟨hreq.1.trans h.kdata, hreq.2.trans h.callback, g, hg, ?_, ?_, ?_⟩
  · intro n hn
    exact hdata.trans (hreply.block n hn)
  · rw [hcalled]
    exact hreply.called
  · rw [hthreads]
    exact hreply.writers

/-- The rules about no thread, or about a refused call. -/
private theorem calls_still (hs : SyncInv s) (ht : s.threads t = .sync c p)
    (hthreads : u.threads = s.threads)
    (hreq : ∀ r < s.nextReq, ¬(¬s.SyncBusy r) → (u.request r).kdata = (s.request r).kdata ∧
      (u.request r).callback = (s.request r).callback)
    (hdata : ∀ d < s.nextData, u.syncData d = s.syncData d) (hcalled : u.called = s.called) :
    CallOk u c p := by
  have hcall : (s.threads t).syncCall = some c := by rw [ht]; rfl
  exact (hs.calls t c p ht).frame hthreads
    (hreq c.req (hs.numbered.sync t c hcall).1 fun hn ↦ hn ⟨t, c, hcall, rfl⟩)
    (hdata c.data (hs.data_lt t c hcall)) hcalled

/-- The two calls of different threads have different requests and blocks. -/
private theorem apart_of_ne {t' : Tid} {c' : SyncCall} {p' : SyncPhase} (hs : SyncInv s)
    (hne : t ≠ t') (ht : s.threads t = .sync c p) (ht' : s.threads t' = .sync c' p') :
    c.req ≠ c'.req ∧ c.data ≠ c'.data := by
  have hcall : (s.threads t).syncCall = some c := by rw [ht]; rfl
  have hcall' : (s.threads t').syncCall = some c' := by rw [ht']; rfl
  exact ⟨fun heq ↦ hne (hs.apart t t' c c' hcall hcall' (Or.inl heq)),
    fun heq ↦ hne (hs.apart t t' c c' hcall hcall' (Or.inr heq))⟩

/-- What the caller's own step must show of its call. -/
private theorem CallOk.advance {p' : SyncPhase} {g : Reply} (hthreads : u.threads = s.threads)
    (hkdata : (u.request c.req).kdata = c.kdataIn p')
    (hcallback : (u.request c.req).callback = c.callbackIn p') (hg : p'.Admits g)
    (hblock : ∀ n, g.done? = some n → u.syncData c.data = some ⟨c.kdata0, c.callback0, n⟩)
    (hcalled : g.done? ≠ some 0 → c.item ∈ u.called)
    (hwriters : ∀ t count q, s.threads t = .write c.item count q → q.Admits c.data g) :
    CallOk (u.goto T (.sync c p')) c p' := by
  refine ⟨hkdata, hcallback, g, hg, hblock, hcalled, ?_⟩
  intro t count q ht
  rw [State.threads_goto, hthreads] at ht
  split at ht
  · cases ht
  · exact hwriters t count q ht

/-- The caller goes on; other calls are left alone because theirs are other requests and
blocks. -/
private theorem calls_caller {p₀ p' : SyncPhase} {c₀ : SyncCall} (hs : SyncInv s)
    (ht : (u.goto T (.sync c₀ p')).threads t = .sync c p) (hT : s.threads T = .sync c₀ p₀)
    (hthreads : u.threads = s.threads)
    (hreq : ∀ r, r ≠ c₀.req → (u.request r).kdata = (s.request r).kdata ∧
      (u.request r).callback = (s.request r).callback)
    (hdata : ∀ d, d ≠ c₀.data → u.syncData d = s.syncData d) (hcalled : u.called = s.called)
    (hself : CallOk (u.goto T (.sync c₀ p')) c₀ p') : CallOk (u.goto T (.sync c₀ p')) c p := by
  refine calls_goto hs ht hthreads ?_ ?_
  · intro c' p'' heq
    obtain ⟨rfl, rfl⟩ := Pc.sync.inj heq
    exact hself
  · intro hne ht'
    obtain ⟨hr, hd⟩ := apart_of_ne hs hne ht' hT
    exact ⟨hthreads, (hreq _ hr).1, (hreq _ hr).2, hdata _ hd, hcalled ▸ List.Subset.refl _,
      fun _ _ heq ↦ nomatch heq⟩

/-- The caller stores to its request. -/
private theorem calls_request {p₀ p' : SyncPhase} {c₀ : SyncCall} {g : Reply}
    {req : QhgpuRequest} (hs : SyncInv s)
    (ht : (u.goto T (.sync c₀ p')).threads t = .sync c p) (hT : s.threads T = .sync c₀ p₀)
    (hthreads : u.threads = s.threads) (hrequest : u.request = Function.update s.request c₀.req req)
    (hdata : u.syncData = s.syncData) (hcalled : u.called = s.called)
    (hkdata : req.kdata = c₀.kdataIn p') (hcallback : req.callback = c₀.callbackIn p')
    (hg : p'.Admits g) (hreply : ReplyOk s c₀ g) : CallOk (u.goto T (.sync c₀ p')) c p := by
  have hself : u.request c₀.req = req := by rw [hrequest, Function.update_self]
  refine calls_caller hs ht hT hthreads ?_ (fun _ _ ↦ by rw [hdata]) hcalled ?_
  · intro r hr
    rw [hrequest]
    exact update_other hr
  · refine .advance hthreads ?_ ?_ hg ?_ ?_ hreply.writers
    · rw [hself]
      exact hkdata
    · rw [hself]
      exact hcallback
    · rw [hdata]
      exact hreply.block
    · rw [hcalled]
      exact hreply.called

/-- A thread that is not in `qhgpu_call_sync` goes on outside `qhgpu_write`. -/
private theorem calls_plain (hs : SyncInv s) (ht : (u.goto T pc).threads t = .sync c p)
    (hthreads : u.threads = s.threads) (hrequest : u.request = s.request)
    (hdata : u.syncData = s.syncData) (hcalled : u.called = s.called)
    (hpc : pc.syncCall = none) (hwrite : ∀ i count q, pc ≠ .write i count q) :
    CallOk (u.goto T pc) c p := by
  refine calls_goto hs ht hthreads ?_ ?_
  · rintro c' p' rfl
    cases hpc
  · intro _ _
    exact ⟨hthreads, by rw [hrequest], by rw [hrequest], by rw [hdata],
      hcalled ▸ List.Subset.refl _, fun count q heq ↦ absurd heq (hwrite _ count q)⟩

/-- A writer goes on with its item; `hwriters` is about the call of that item. -/
private theorem calls_writer {i : ItemId} {count : Count} {q : WritePhase} (hs : SyncInv s)
    (ht : (u.goto T (.write i count q)).threads t = .sync c p)
    (hthreads : u.threads = s.threads)
    (hreq : ∀ r, (u.request r).kdata = (s.request r).kdata ∧
      (u.request r).callback = (s.request r).callback)
    (hdata : u.syncData = s.syncData) (hcalled : s.called ⊆ u.called)
    (hwriters : ∀ g, s.threads t = .sync c p → c.item = i → CallOk s c p → p.Admits g →
      ReplyOk s c g → q.Admits c.data g) : CallOk (u.goto T (.write i count q)) c p := by
  refine calls_goto hs ht hthreads (fun _ _ heq ↦ nomatch heq) ?_
  intro _ ht'
  refine ⟨hthreads, (hreq _).1, (hreq _).2, by rw [hdata], hcalled, ?_⟩
  intro count' q' heq g hg hreply
  obtain ⟨hi, _, rfl⟩ := Pc.write.inj heq
  exact hwriters g ht' hi.symm (hs.calls t c p ht') hg hreply

/-- `data->done = 1` answers the call whose item the writer has, and no other. -/
private theorem SyncInv.calls_done {i : ItemId} {count : Count} {n : DataId} {d : SyncCallData}
    (hs : SyncInv s) (hT : s.threads T = .write i count (.done (.sync n)))
    (hd : s.syncData n = some d)
    (ht : (State.goto { s with
      syncData := Function.update s.syncData n (some { d with done := 1 }) } T
        (.write i count (.wake (.sync n)))).threads t = .sync c p) :
    CallOk (State.goto { s with
      syncData := Function.update s.syncData n (some { d with done := 1 }) } T
        (.write i count (.wake (.sync n)))) c p := by
  have hcons := hs.numbered.conserved
  obtain ⟨t₀, c₀, p₀, g, ht₀, hi, hcall, hg, hreply, hadm⟩ := hs.call_of_writer hT trivial
  obtain ⟨rfl, hdata⟩ := hadm
  obtain rfl := Kdata.sync.inj hdata
  subst hi
  obtain rfl := SyncPhase.eq_wait hg
  obtain rfl := Option.some.inj ((hreply.block 0 rfl).symm.trans hd)
  have hne : t ≠ T := by
    rintro rfl
    rw [State.threads_goto_self] at ht
    cases ht
  have hold : s.threads t = .sync c p := by
    rwa [State.threads_goto_of_ne hne] at ht
  have hcalling : (s.threads T).calling = some c₀.item := by
    rw [hT]
    rfl
  by_cases heq : t = t₀
  · -- the call of this item: from unanswered to answered
    subst heq
    obtain ⟨rfl, rfl⟩ := Pc.sync.inj (ht₀.symm.trans hold)
    refine ⟨hcall.kdata, hcall.callback, .answered, Or.inr rfl, ?_, ?_, ?_⟩
    · intro k hk
      obtain rfl := Option.some.inj hk
      exact Function.update_self ..
    · exact fun _ ↦ hcons.calling (t := T) hcalling
    · intro t' count' q hw
      rw [State.threads_goto] at hw
      split at hw
      · obtain ⟨_, _, rfl⟩ := Pc.write.inj hw
        exact ⟨rfl, rfl⟩
      · next hne' =>
        refine absurd (hcons.busy_unique (t := t') (i := c₀.item) ?_ (Or.inr hcalling))
          hne'
        change (s.threads t').removed = _ ∨ (s.threads t').calling = _
        rw [hw]
        cases q <;> simp [Pc.removed, Pc.calling]
  · -- another call has another block and another item
    obtain ⟨hr, hdata⟩ := apart_of_ne hs heq hold ht₀
    refine (hs.calls t c p hold).goto ⟨rfl, rfl, rfl, Function.update_of_ne hdata ..,
      List.Subset.refl _, ?_⟩
    intro count' q hw
    obtain ⟨hitem, _, _⟩ := Pc.write.inj hw
    have hreq := (hs.numbered.sync t c (by rw [hold]; rfl)).2.2
    have hreq₀ := (hs.numbered.sync t₀ c₀ (by rw [ht₀]; rfl)).2.2
    rw [← hitem] at hreq
    exact absurd (hreq.symm.trans hreq₀) hr

/-- The calls survive a step that meets `SyncOk`. -/
theorem SyncInv.calls_step (hs : SyncInv s) (hok : SyncOk s a) (h : Trans s a s') (t : Tid)
    (c : SyncCall) (p : SyncPhase) (ht : s'.threads t = .sync c p) : CallOk s' c p := by
  have hcons := hs.numbered.conserved
  have same (r : ReqId) : (s.request r).kdata = (s.request r).kdata ∧
      (s.request r).callback = (s.request r).callback := ⟨rfl, rfl⟩
  cases h with
  | alloc =>
    exact calls_still hs ht rfl (fun r hr _ ↦ update_other (Nat.ne_of_lt hr)) (fun _ _ ↦ rfl) rfl
  | @fill r f =>
    refine calls_still hs ht rfl (fun r' _ hbusy ↦ update_other ?_) (fun _ _ ↦ rfl) rfl
    rintro rfl
    exact hbusy hok
  | syncNoItem =>
    exact calls_still hs ht rfl (fun r _ _ ↦ same r)
      (fun d hd ↦ Function.update_of_ne (Nat.ne_of_lt hd) ..) rfl
  | returnMmap | syncRefused | asyncRefused | writeShort =>
    exact calls_still hs ht rfl (fun r _ _ ↦ same r) (fun _ _ ↦ rfl) rfl
  | @callSync T r dataOk itemOk c₀ hT hr hc =>
    refine calls_goto hs ht rfl ?_ ?_
    · intro c' p' heq
      obtain ⟨rfl, rfl⟩ := Pc.sync.inj heq
      refine CallOk.advance (g := .fresh) rfl ?_ ?_ rfl ?_ ?_ ?_
      · rw [hc]
        rfl
      · rw [hc]
        rfl
      · intro n hn
        obtain rfl := Option.some.inj hn
        rw [hc]
        exact Function.update_self ..
      · exact fun hn ↦ absurd rfl hn
      · intro t' count q hw
        have hissued := hcons.issued_of_busy (t := t') (i := c₀.item) (by
          change (s.threads t').removed = _ ∨ (s.threads t').calling = _
          rw [hw]
          cases q <;> simp [Pc.removed, Pc.calling])
        rw [hc] at hissued
        exact absurd hissued (Nat.lt_irrefl _)
    · intro _ ht'
      have hcall : (s.threads t).syncCall = some c := by rw [ht']; rfl
      exact ⟨rfl, rfl, rfl, Function.update_of_ne (Nat.ne_of_lt (hs.data_lt t c hcall)) ..,
        List.Subset.refl _, fun _ _ heq ↦ nomatch heq⟩
  | readEmpty hT _ hpc =>
    rcases hpc with rfl | rfl
    · exact calls_plain hs ht rfl rfl rfl rfl rfl nofun
    · exact calls_plain hs ht rfl rfl rfl rfl rfl nofun
  | callAsync hT | read hT | write hT | asyncEnqueue hT | readTake hT | readWake hT | readPut hT
  | readDrop hT | readReturn hT | writeMiss hT | writeReturn hT | signalRead hT
  | syncReturn hT =>
    exact calls_plain hs ht rfl rfl rfl rfl rfl nofun
  | @setKdata T c₀ hT =>
    obtain ⟨_, hcb, g, rfl, hreply⟩ := hs.calls T c₀ _ hT
    exact calls_request hs ht hT rfl rfl rfl rfl rfl hcb rfl hreply
  | @setCallback T c₀ _ hT =>
    obtain ⟨hk, _, g, rfl, hreply⟩ := hs.calls T c₀ _ hT
    exact calls_request hs ht hT rfl rfl rfl rfl hk rfl rfl hreply
  | @syncEnqueue T c₀ hT =>
    obtain ⟨hk, hcb, g, rfl, hreply⟩ := hs.calls T c₀ _ hT
    refine calls_caller hs ht hT rfl (fun r _ ↦ same r) (fun _ _ ↦ rfl) rfl ?_
    refine .advance (g := .unanswered) rfl hk hcb (Or.inl rfl) hreply.block
      hreply.called ?_
    -- nobody completes an item before it is enqueued
    intro t' count q hw
    have hno := hreply.writers t' count q hw
    cases q <;> simp [WritePhase.Admits] at hno
  | @wait T c₀ hT hd =>
    obtain ⟨hk, hcb, g, hg, hreply⟩ := hs.calls T c₀ _ hT
    refine calls_caller hs ht hT rfl (fun r _ ↦ same r) (fun _ _ ↦ rfl) rfl ?_
    rcases hg with rfl | rfl
    · rw [State.isDone, hreply.block 0 rfl] at hd
      cases hd
    · exact .advance (g := .answered) rfl hk hcb rfl hreply.block hreply.called hreply.writers
  | @restoreKdata T c₀ d hT hd =>
    obtain ⟨_, hcb, g, rfl, hreply⟩ := hs.calls T c₀ _ hT
    obtain rfl := Option.some.inj ((hreply.block 1 rfl).symm.trans hd)
    exact calls_request hs ht hT rfl rfl rfl rfl rfl hcb rfl hreply
  | @restoreCallback T c₀ d hT hd =>
    obtain ⟨hk, _, g, rfl, hreply⟩ := hs.calls T c₀ _ hT
    obtain rfl := Option.some.inj ((hreply.block 1 rfl).symm.trans hd)
    exact calls_request hs ht hT rfl rfl rfl rfl hk rfl rfl hreply
  | restoreKdataStale hT hd => exact absurd hd (hs.block_of_restore hT (Or.inl rfl))
  | restoreCallbackStale hT hd => exact absurd hd (hs.block_of_restore hT (Or.inr rfl))
  | @free T c₀ hT =>
    obtain ⟨hk, hcb, g, rfl, hreply⟩ := hs.calls T c₀ _ hT
    refine calls_caller hs ht hT rfl (fun r _ ↦ same r)
      (fun d hd ↦ Function.update_of_ne hd ..) rfl ?_
    refine .advance (g := .closed) rfl hk hcb rfl (fun n hn ↦ nomatch hn)
      (fun _ ↦ hreply.called nofun) ?_
    -- `SyncOk`: no writer is still to wake the caller up
    intro t' count q hw
    have hadm := hreply.writers t' count q hw
    cases q with
    | wake k =>
      obtain rfl := hadm.2
      exact absurd hw (hok c₀ hT t' c₀.item count)
    | free => exact Or.inr rfl
    | _ => simp [WritePhase.Admits] at hadm
  | @syncReturnMmap T c₀ hT =>
    obtain ⟨hk, hcb, g, rfl, hreply⟩ := hs.calls T c₀ _ hT
    refine calls_caller hs ht hT rfl (fun r _ ↦ same r) (fun _ _ ↦ rfl) rfl ?_
    exact .advance (g := .closed) rfl hk hcb rfl hreply.block hreply.called hreply.writers
  | @signalSync T c₀ hT => exact absurd hT (hok c₀)
  | @writeFind T count resp i hT hfind =>
    refine calls_writer hs ht rfl same rfl (List.Subset.refl _) ?_
    intro g ht' hi hcall hg hreply
    obtain ⟨hnot, hpending⟩ := hcons.delivered (findRequest_mem hfind)
    subst hi
    cases g with
    | fresh => exact absurd (pending_of_fresh hg ht') (hpending t)
    | unanswered => rfl
    | answered => exact absurd (hreply.called nofun) hnot
    | closed => exact absurd (hreply.called nofun) hnot
  | @writeErrcode T i count e hT =>
    refine calls_writer hs ht rfl (fun r ↦ update_errcode _ r _ e) rfl (List.Subset.refl _) ?_
    intro g _ hi _ _ hreply
    subst hi
    have hadm := hreply.writers T count _ hT
    exact hadm
  | @callClient T i count fn hT hcb =>
    refine calls_writer hs ht rfl same rfl (List.subset_append_left _ _) ?_
    intro g ht' hi hcall hg hreply
    subst hi
    -- the request of a call that waits has `sync_callback`
    obtain rfl := hreply.writers T count _ hT
    obtain rfl := SyncPhase.eq_wait hg
    have hreq := (hs.numbered.sync t c (by rw [ht']; rfl)).2.2
    rw [hreq, hcall.callback] at hcb
    cases hcb
  | @callSyncCallback T i count hT =>
    refine calls_writer hs ht rfl same rfl (List.subset_append_left _ _) ?_
    intro g _ hi _ _ hreply
    subst hi
    have hadm := hreply.writers T count _ hT
    exact hadm
  | @clientDone T i count hT =>
    refine calls_writer hs ht rfl same rfl (List.Subset.refl _) ?_
    intro g _ hi _ _ hreply
    subst hi
    exact absurd (hreply.writers T count _ hT) id
  | @callbackKdata T i count hT =>
    refine calls_writer hs ht rfl same rfl (List.Subset.refl _) ?_
    intro g ht' hi hcall hg hreply
    subst hi
    obtain rfl := hreply.writers T count _ hT
    obtain rfl := SyncPhase.eq_wait hg
    have hreq := (hs.numbered.sync t c (by rw [ht']; rfl)).2.2
    refine ⟨rfl, ?_⟩
    rw [hreq]
    exact hcall.kdata
  | @callbackWake T i count data d hT =>
    refine calls_writer hs ht rfl same rfl (List.Subset.refl _) ?_
    intro g _ hi _ _ hreply
    subst hi
    exact Or.inl (hreply.writers T count _ hT).1
  | callbackDoneStale hT hd => exact absurd hd (hs.block_of_writer hT (Or.inl rfl))
  | callbackWakeStale hT hd => exact absurd hd (hs.block_of_writer hT (Or.inr rfl))
  | @callbackDone T i count n d hT hd => exact hs.calls_done hT hd ht

/-! ### All calls -/

/-- A call whose item a writer has that is not done with it does not return. -/
private theorem not_ret_of_writer (hs : SyncInv s) {count : Count} {q : WritePhase}
    (hw : s.threads T = .write c.item count q) (hq : ¬q.Admits c.data .closed) :
    s.threads t ≠ .sync c .ret := by
  intro ht
  obtain ⟨_, _, g, rfl, hreply⟩ := hs.calls t c .ret ht
  exact hq (hreply.writers T count q hw)

private theorem SyncInv.writers_step (hs : SyncInv s) (h : Trans s a s') {i : ItemId}
    {count : Count}
    {q : WritePhase} (ht : s'.threads T = .write i count q) (hq : q.inCallback) :
    ∃ t c, (s'.threads t).syncCall = some c ∧ c.item = i := by
  rcases h.writer ht hq with ⟨q', hw, hq'⟩ | ⟨hw, hcb⟩
  · obtain ⟨t, c, hc, rfl⟩ := hs.writers T i count q' hw hq'
    have hnot : ¬q'.Admits c.data .closed := by
      cases q' <;> simp [WritePhase.Admits, WritePhase.inCallback] at hq' ⊢
    rcases h.syncCall_stays hc with hc' | ⟨hret, _⟩
    · exact ⟨t, c, hc', rfl⟩
    · exact absurd hret (not_ret_of_writer hs hw hnot)
  · -- the callback is `sync_callback` because a call is on, and this is its item
    obtain ⟨t, c, hc, hreq⟩ := hs.callbacks _ hcb
    have hcons := hs.numbered.conserved
    have hremoved : (s.threads T).removed = some i := by
      rw [hw]
      rfl
    obtain rfl := hs.own t c i hc (hcons.removed (t := T) hremoved) hreq.symm
    rcases h.syncCall_stays hc with hc' | ⟨hret, _⟩
    · exact ⟨t, c, hc', rfl⟩
    · exact absurd hret (not_ret_of_writer hs hw nofun)

private theorem SyncInv.callbacks_step (hs : SyncInv s) (h : Trans s a s') {r : ReqId}
    (hr : (s'.request r).callback = .syncCallback) : s'.SyncBusy r := by
  obtain ⟨t, c, hc, hreq⟩ := hs.callback_step h hr
  rcases h.syncCall_stays hc with hc' | ⟨hret, hrequest⟩
  · exact ⟨t, c, hc', hreq⟩
  · rw [hrequest, ← hreq, (hs.calls t c .ret hret).callback] at hr
    exact absurd hr (hs.plain t c hc)

/-- No step uses a freed block. -/
theorem SyncInv.noStale_step (hs : SyncInv s) (h : Trans s a s') : s'.staleAccess = false := by
  cases h with
  | restoreKdataStale hT hd => exact absurd hd (hs.block_of_restore hT (Or.inl rfl))
  | restoreCallbackStale hT hd => exact absurd hd (hs.block_of_restore hT (Or.inr rfl))
  | callbackDoneStale hT hd => exact absurd hd (hs.block_of_writer hT (Or.inl rfl))
  | callbackWakeStale hT hd => exact absurd hd (hs.block_of_writer hT (Or.inr rfl))
  | _ => exact hs.noStale

/-- A new call is on a request that no call and no item in flight has. -/
theorem SyncInv.own_step (hs : SyncInv s) (hok : SyncOk s a) (h : Trans s a s') {i : ItemId}
    (hc : (s'.threads t).syncCall = some c) (hi : s'.InFlight i) (hreq : s'.itemReq i = c.req) :
    i = c.item := by
  rcases h.syncCall hc with hold | ⟨⟨dataOk, itemOk, rfl⟩, _, hnew, _⟩
  · rcases h.inFlight hi with hin | ⟨rfl, ⟨t', dataOk, itemOk, rfl⟩ | ⟨t', itemOk, rfl⟩⟩
    · refine hs.own t c i hold hin ?_
      rw [← h.itemReq_eq hin.1]
      exact hreq
    · exact absurd ⟨t, c, hold, hreq.symm⟩ hok.1
    · exact absurd ⟨t, c, hold, hreq.symm⟩ hok
  · rcases h.inFlight hi with hin | ⟨rfl, _⟩
    · refine absurd ?_ (hok.2 i hin)
      rw [← h.itemReq_eq hin.1]
      exact hreq
    · rw [hnew]

/-- Every step that meets `SyncOk` keeps the invariant. -/
theorem SyncInv.step (hs : SyncInv s) (hok : SyncOk s a) (h : Trans s a s') : SyncInv s' where
  numbered := h.numbered hs.numbered
  data_lt t c hc := by
    rcases h.syncCall hc with hold | ⟨_, _, hnew, _, hnext, _⟩
    · exact Nat.lt_of_lt_of_le (hs.data_lt t c hold) h.nextData_le
    · rw [hnew, hnext]
      exact Nat.lt_succ_self _
  apart t t' c c' hc hc' heq := by
    rcases h.syncCall hc with hold | ⟨⟨dataOk, itemOk, ha⟩, _, hnew, _⟩ <;>
      rcases h.syncCall hc' with hold' | ⟨⟨dataOk', itemOk', ha'⟩, _, hnew', _⟩
    · exact hs.apart t t' c c' hold hold' heq
    · subst ha'
      rcases heq with heq | heq
      · exact absurd ⟨t, c, hold, heq⟩ hok.1
      · rw [hnew'] at heq
        exact absurd heq (Nat.ne_of_lt (hs.data_lt t c hold))
    · subst ha
      rcases heq with heq | heq
      · exact absurd ⟨t', c', hold', heq.symm⟩ hok.1
      · rw [hnew] at heq
        exact absurd heq.symm (Nat.ne_of_lt (hs.data_lt t' c' hold'))
    · subst ha
      exact (Act.callSync.inj ha').1
  own t c i hc hi hreq := hs.own_step hok h hc hi hreq
  plain t c hc := by
    rcases h.syncCall hc with hold | ⟨⟨dataOk, itemOk, rfl⟩, _, hnew, _⟩
    · exact hs.plain t c hold
    · rw [hnew]
      exact fun hcb ↦ hok.1 (hs.callbacks _ hcb)
  calls := hs.calls_step hok h
  writers _ _ _ _ ht hq := hs.writers_step h ht hq
  callbacks _ hr := hs.callbacks_step h hr
  noStale := hs.noStale_step h

/-- At the start no call is under way. -/
theorem syncInv_start (n : Nat) (arr : Int → Word) (pool : QhgpuMempool) :
    SyncInv (.start n arr pool) where
  numbered := numbered_start n arr pool
  data_lt _ _ hc := nomatch hc
  apart _ _ _ _ hc := nomatch hc
  own _ _ _ hc := nomatch hc
  plain _ _ hc := nomatch hc
  calls _ _ _ ht := nomatch ht
  writers _ _ _ _ ht := nomatch ht
  callbacks _ hr := nomatch hr
  noStale := rfl

/-- In a run whose steps all meet `SyncOk`, synchronous calls are safe. -/
theorem syncSafe_of_meets (n : Nat) (arr : Int → Word) (pool : QhgpuMempool) (acts : List Act)
    (s : State) (hok : StepRun.Meets step SyncOk (.start n arr pool) acts)
    (h : StepRun.run step (.start n arr pool) acts = some s) : SyncSafe s := by
  have hinv : SyncInv s := StepRun.run_invariant
    (fun _ _ _ hs hok hstep ↦ hs.step hok (trans_of_step hstep)) (syncInv_start n arr pool) hok h
  exact hinv.safe

/-- A request submitted by thread 1 with `qhgpu_call_sync`, up to the wait. -/
def callAndWait : List Act :=
  [.alloc 1 [] (some (fieldsWith 0, 0)), .callSync 1 0 true true, .step 1, .step 1, .step 1]

/-- Thread 0 reads the request and writes the response, up to `done = 1`. -/
def serve : List Act :=
  [.read 0 kuRequestCount false .zeroed, .step 0, .step 0, .step 0,
    .write 0 kuResponseCount ⟨0, 0⟩, .step 0, .step 0, .step 0, .step 0, .step 0]

/-- Thread 0 wakes the caller up and returns, thread 1 restores the request. -/
def wakeAndRestore : List Act := [.step 0, .step 0, .step 1, .step 1, .step 1]

/-- A call that is answered, woken up and about to return. -/
theorem syncSafe_of_meets_roundTrip : ∃ s,
    StepRun.run step (.start 1 (fun _ ↦ 0) .zeroed)
      ((callAndWait ++ serve ++ wakeAndRestore) ++ [.step 1, .step 1]) = some s ∧
      s.threads 1 = .sync ⟨0, 0, 0, .client 0, .client 0⟩ .ret ∧ SyncSafe s := by
  refine ⟨_, rfl, rfl, syncSafe_of_meets 1 (fun _ ↦ 0) .zeroed
    ((callAndWait ++ serve ++ wakeAndRestore) ++ [.step 1, .step 1]) _ ?_ rfl⟩
  refine StepRun.meets_append ?_ ?_
  · refine StepRun.meets_cons trivial rfl (StepRun.meets_cons ⟨?_, ?_⟩ rfl ?_)
    · rintro ⟨t, c, hc, _⟩
      cases hc
    · exact fun i hi ↦ absurd hi.1 (Nat.not_lt_zero i)
    iterate 3 refine StepRun.meets_cons (fun _ h ↦ nomatch h) rfl ?_
    refine StepRun.meets_cons trivial rfl ?_
    iterate 3 refine StepRun.meets_cons (fun _ h ↦ nomatch h) rfl ?_
    refine StepRun.meets_cons trivial rfl ?_
    iterate 10 refine StepRun.meets_cons (fun _ h ↦ nomatch h) rfl ?_
    trivial
  · intro s hs
    have h0 : s.threads 0 = .idle := by
      obtain rfl := Option.some.inj hs
      rfl
    have hother (n : Nat) : s.threads (n + 2) = .idle :=
      threads_of_run hs (by simp [callAndWait, serve, wakeAndRestore, Act.tid])
    refine ⟨?_, fun u hu ↦ ⟨?_, fun _ _ ↦ trivial⟩⟩
    · -- nobody is in `qhgpu_write` when the block is freed
      intro c hc t i count hw
      match t with
      | 0 => cases h0.symm.trans hw
      | 1 => cases hc.symm.trans hw
      | n + 2 => cases (hother n).symm.trans hw
    · intro c hc
      obtain rfl := Option.some.inj hs
      obtain rfl := Option.some.inj hu
      cases hc

/-- A signal ends the wait before anything was read: the call is about to return 0 while its
item is on `reqs`. -/
theorem not_syncSafe_signal : ¬∀ (n : Nat) (arr : Int → Word) (pool : QhgpuMempool)
    (acts : List Act) (s : State), StepRun.run step (.start n arr pool) acts = some s →
      SyncSafe s := by
  intro hall
  have h := hall 1 (fun _ ↦ 0) .zeroed
    (callAndWait ++ [.signal 1, .step 1, .step 1, .step 1, .step 1]) _ rfl
  exact absurd (h.answered 1 ⟨0, 0, 0, .client 0, .client 0⟩ rfl).1 (by decide)

/-- The caller frees the block between `done = 1` and the wake-up. -/
example : (StepRun.run step (.start 1 (fun _ ↦ 0) .zeroed)
    (callAndWait ++ serve ++ [.step 1, .step 1, .step 1, .step 1, .step 0])).map State.staleAccess =
      some true := by rfl

end QHGPU.Kernel
