import QHGPU.Kernel.Objects

/-!
# What a step leaves alone

Frame facts for results about one thread among others: how the queues and the stored answers
can change, and what the calls of clients and the steps inside `qhgpu_write` do not touch.
-/

namespace QHGPU.Kernel

variable {s s' : State} {a : Act} {t : Tid}

/-! ### Items that wait -/

/-- An item was enqueued and no response has found it. -/
def State.Waiting (s : State) (i : ItemId) : Prop := i ∈ s.enqueued ∧ i ∉ s.completed

/-- The item that the thread puts on `reqs` next. -/
def Pc.enqueues : Pc → Option ItemId
  | .sync c .enqueue => some c.item
  | .asyncEnqueue i => some i
  | _ => none

/-- An item that waits waited before, or was enqueued by this step. -/
theorem Trans.waiting (h : Trans s a s') {i : ItemId} (hi : s'.Waiting i) :
    s.Waiting i ∨ ∃ t, a = .step t ∧ (s.threads t).enqueues = some i := by
  obtain ⟨hen, hcomp⟩ := hi
  cases h with
  | @syncEnqueue t c ht =>
    rcases List.mem_append.mp hen with hen | hen
    · exact Or.inl ⟨hen, hcomp⟩
    · refine Or.inr ⟨t, rfl, ?_⟩
      rw [ht, List.mem_singleton.mp hen]
      rfl
  | @asyncEnqueue t j ht =>
    rcases List.mem_append.mp hen with hen | hen
    · exact Or.inl ⟨hen, hcomp⟩
    · refine Or.inr ⟨t, rfl, ?_⟩
      rw [ht, List.mem_singleton.mp hen]
      rfl
  | writeFind => exact Or.inl ⟨hen, fun hmem ↦ hcomp (List.mem_append_left _ hmem)⟩
  | _ => exact Or.inl ⟨hen, hcomp⟩

/-- A waiting item was allocated. -/
theorem Numbered.lt_of_waiting (h : Numbered s) {i : ItemId} (hi : s.Waiting i) :
    i < s.nextItem := h.lt_of_enqueued hi.1

/-- An item that is about to be enqueued has been allocated. -/
theorem Numbered.lt_of_enqueues (h : Numbered s) {i : ItemId}
    (hi : (s.threads t).enqueues = some i) : i < s.nextItem := by
  have hpend : (s.threads t).pending = some i := by
    cases hpc : s.threads t with
    | sync c p =>
      rw [hpc] at hi
      cases p <;> first
        | exact hi
        | cases hi
    | asyncEnqueue j =>
      rw [hpc] at hi
      exact hi
    | _ =>
      rw [hpc] at hi
      cases hi
  exact (h.conserved.pending hpend).1

/-- A delivered item waits for its response. -/
theorem Numbered.waiting_of_delivered (h : Numbered s) {i : ItemId} (hi : i ∈ s.rtdreqs) :
    s.Waiting i := h.conserved.waiting_of_delivered hi

/-- The queue grows by the item that the moving thread holds, or not at all. -/
theorem Trans.enqueued_cases (h : Trans s a s') : s'.enqueued = s.enqueued ∨
    ∃ t i, a = .step t ∧ (s.threads t).enqueues = some i ∧ s'.enqueued = s.enqueued ++ [i] := by
  cases h with
  | @syncEnqueue t c ht =>
    refine Or.inr ⟨t, c.item, rfl, ?_, rfl⟩
    rw [ht]
    rfl
  | @asyncEnqueue t i ht =>
    refine Or.inr ⟨t, i, rfl, ?_, rfl⟩
    rw [ht]
    rfl
  | _ => exact Or.inl rfl

/-! ### Modules -/

/-- `qhgpu_call_sync` is about to store its callback and the module of its request. -/
def Pc.storesModule : Pc → Option SyncCall
  | .sync c .setCallback => some c
  | _ => none

/-- Only `qhgpu_call_sync` writes the table of modules. -/
theorem moduleArr_cases (h : step s a = some s') :
    (∃ t c, a = .step t ∧ s.threads t = .sync c .setCallback ∧ s'.moduleArr =
      Function.update s.moduleArr (s.request c.req).id (s.request c.req).module) ∨
    ((∀ t c, a = .step t → s.threads t ≠ .sync c .setCallback) ∧ s'.moduleArr = s.moduleArr) := by
  have ht := trans_of_step h
  have other {t : Tid} {pc : Pc} (hpc : s.threads t = pc) (hne : pc.storesModule = none)
      (hs : s'.moduleArr = s.moduleArr) (ha : a = .step t) :
      (∀ t c, a = .step t → s.threads t ≠ .sync c .setCallback) ∧
        s'.moduleArr = s.moduleArr := by
    refine ⟨?_, hs⟩
    rintro t' c ha' hpc'
    obtain rfl := Act.step.inj (ha.symm.trans ha')
    rw [hpc] at hpc'
    rw [hpc'] at hne
    cases hne
  cases ht with
  | @setCallback t c _ hpc =>
    refine Or.inl ⟨t, c, rfl, hpc, ?_⟩
    rw [step, stepThread, hpc] at h
    have hs := congrArg State.moduleArr (Option.some.inj h)
    rw [← hs]
    simp only [State.goto, State.setRequest, Function.update_self]
  | setKdata hpc | syncEnqueue hpc | wait hpc | restoreKdata hpc | restoreKdataStale hpc
  | restoreCallback hpc | restoreCallbackStale hpc | free hpc | syncReturnMmap hpc
  | syncReturn hpc | asyncEnqueue hpc | readEmpty hpc | readTake hpc | readWake hpc
  | readPut hpc | readDrop hpc | readReturn hpc | writeMiss hpc | writeFind hpc
  | writeErrcode hpc | callClient hpc | callSyncCallback hpc | clientDone hpc
  | callbackKdata hpc | callbackDone hpc | callbackDoneStale hpc | callbackWake hpc
  | callbackWakeStale hpc | writeReturn hpc => exact Or.inr (other hpc rfl rfl rfl)
  | alloc | fill | returnMmap | syncRefused | syncNoItem | callSync | asyncRefused | callAsync
  | read | writeShort | write | signalSync | signalRead =>
    exact Or.inr ⟨by simp, rfl⟩

private theorem module_update {f : ReqId → QhgpuRequest} {r r' : ReqId} {req : QhgpuRequest}
    (h : req.module = (f r').module) : (Function.update f r' req r).module = (f r).module := by
  by_cases hr : r = r'
  · subst hr
    rw [Function.update_self, h]
  · rw [Function.update_of_ne hr]

/-- Only its client changes the module of a request. -/
theorem Trans.module_cases (h : Trans s a s') {r : ReqId} (hr : r < s.nextReq) :
    (s'.request r).module = (s.request r).module ∨
      ∃ f, a = .fill r f ∧ (s'.request r).module = f.module := by
  cases h with
  | alloc =>
    dsimp only
    rw [Function.update_of_ne (Nat.ne_of_lt hr)]
    exact Or.inl rfl
  | @fill r' f hr' =>
    by_cases heq : r = r'
    · subst heq
      refine Or.inr ⟨f, rfl, ?_⟩
      rw [State.setRequest]
      dsimp only
      rw [Function.update_self]
      rfl
    · rw [State.setRequest]
      dsimp only
      rw [Function.update_of_ne heq]
      exact Or.inl rfl
  | setKdata | setCallback | restoreKdata | restoreCallback | writeErrcode =>
    exact Or.inl (module_update rfl)
  | _ => exact Or.inl rfl

/-- A thread is about to enqueue the item of its synchronous call after the store of the
module. -/
theorem Trans.at_enqueue (h : Trans s a s') {t : Tid} {c : SyncCall}
    (ht : s'.threads t = .sync c .enqueue) : s.threads t = .sync c .enqueue ∨
      (a = .step t ∧ s.threads t = .sync c .setCallback) := by
  by_cases htid : a.tid = some t
  · cases h with
    | alloc | fill | returnMmap => cases htid
    | syncRefused ht' | syncNoItem ht' | asyncRefused ht' | writeShort ht' => exact Or.inl ht
    | setCallback ht' =>
      obtain rfl := Option.some.inj htid
      rw [State.threads_goto_self] at ht
      obtain ⟨rfl, _⟩ := Pc.sync.inj ht
      exact Or.inr ⟨rfl, ht'⟩
    | readEmpty _ _ hpc =>
      obtain rfl := Option.some.inj htid
      rw [State.threads_goto_self] at ht
      rcases hpc with rfl | rfl <;> cases ht
    | _ =>
      obtain rfl := Option.some.inj htid
      rw [State.threads_goto_self] at ht
      cases ht
  · rw [h.threads_of_ne htid] at ht
    exact Or.inl ht

/-! ### Items that were read -/

/-- Nothing is taken back from the items taken. -/
theorem Trans.taken_prefix (h : Trans s a s') : s.taken <+: s'.taken := by
  cases h with
  | readTake => exact List.prefix_append _ _
  | _ => exact List.prefix_refl _

/-- The thread has an item off `reqs` that it has not handed out yet. -/
def Pc.ahead : Pc → Nat
  | .readHand _ _ _ | .readReturn _ (some _) => 1
  | _ => 0

/-- A thread gets ahead by taking an item. -/
theorem Trans.ahead (h : Trans s a s') (t : Tid) :
    s.taken.length + (s'.threads t).ahead ≤ s'.taken.length + (s.threads t).ahead := by
  by_cases htid : a.tid = some t
  · cases h with
    | alloc | fill | returnMmap => cases htid
    | syncRefused | syncNoItem | asyncRefused | writeShort => exact Nat.le_refl _
    | readTake =>
      obtain rfl := Option.some.inj htid
      rw [State.threads_goto_self, State.goto]
      dsimp only
      rw [List.length_append]
      exact Nat.le_add_right _ _
    | readPut ht | readDrop ht =>
      obtain rfl := Option.some.inj htid
      rw [State.threads_goto_self, ht]
      exact Nat.le_refl _
    | readEmpty _ _ hpc =>
      obtain rfl := Option.some.inj htid
      rw [State.threads_goto_self]
      rcases hpc with rfl | rfl <;> exact Nat.le_add_right _ _
    | _ =>
      obtain rfl := Option.some.inj htid
      rw [State.threads_goto_self]
      exact Nat.le_add_right _ _
  · rw [h.threads_of_ne htid]
    exact Nat.add_le_add_right h.taken_prefix.length_le _

/-- A `qhgpu_read` that returns no request returns an error. -/
theorem Trans.readReturn_none (h : Trans s a s') {t : Tid} {ret : Int}
    (ht : s'.threads t = .readReturn ret none) :
    s.threads t = .readReturn ret none ∨ ret ≤ 0 := by
  by_cases htid : a.tid = some t
  · cases h with
    | alloc | fill | returnMmap => cases htid
    | syncRefused | syncNoItem | asyncRefused | writeShort => exact Or.inl ht
    | readEmpty _ _ hpc =>
      obtain rfl := Option.some.inj htid
      rw [State.threads_goto_self] at ht
      rcases hpc with rfl | rfl
      · obtain ⟨rfl, _⟩ := Pc.readReturn.inj ht
        exact Or.inr (by decide)
      · cases ht
    | signalRead =>
      obtain rfl := Option.some.inj htid
      rw [State.threads_goto_self] at ht
      obtain ⟨rfl, _⟩ := Pc.readReturn.inj ht
      exact Or.inr (by decide)
    | _ =>
      obtain rfl := Option.some.inj htid
      rw [State.threads_goto_self] at ht
      cases ht
  · rw [h.threads_of_ne htid] at ht
    exact Or.inl ht

/-- An item that was taken was allocated. -/
theorem Numbered.lt_of_taken (h : Numbered s) {i : ItemId} (hi : i ∈ s.taken) :
    i < s.nextItem := by
  refine h.lt_of_enqueued ?_
  have hfifo : s.enqueued = s.taken ++ s.reqs := h.conserved.ordered.fifo
  rw [hfifo]
  exact List.mem_append_left _ hi

/-! ### Steps of clients -/

/-- The thread is in no call, or in one that clients make. -/
def Pc.ofClient : Pc → Bool
  | .idle | .sync _ _ | .asyncEnqueue _ => true
  | _ => false

private theorem errcode_update {f : ReqId → QhgpuRequest} {r r' : ReqId} {req : QhgpuRequest}
    (h : req.errcode = (f r').errcode) : (Function.update f r' req r).errcode = (f r).errcode := by
  by_cases hr : r = r'
  · subst hr
    rw [Function.update_self, h]
  · rw [Function.update_of_ne hr]

/-- A step that takes, delivers and answers nothing. -/
structure Quiet (s s' : State) : Prop where
  taken : s'.taken = s.taken
  rtdreqs : s'.rtdreqs = s.rtdreqs
  errcode : ∀ r < s.nextReq, (s'.request r).errcode = (s.request r).errcode

/-- Going on is quiet. -/
theorem quiet_goto (s : State) (t : Tid) (pc : Pc) : Quiet s (s.goto t pc) :=
  ⟨rfl, rfl, fun _ _ ↦ rfl⟩

/-- What a step of a client leaves alone. -/
structure ClientStep (s s' : State) : Prop extends Quiet s s' where
  threads : ∀ t, s'.threads t = s.threads t ∨ (s'.threads t).ofClient = true

/-- The calls that clients make, and the steps of these calls. -/
def Act.OfClient (s : State) : Act → Prop
  | .alloc _ _ _ | .fill _ _ | .returnMmap _ | .callSync _ _ _ _ | .callAsync _ _ _ => True
  | .read _ _ _ _ | .write _ _ _ => False
  | .step t | .signal t => (s.threads t).ofClient = true

/-- A step of a client is quiet, and its thread stays with clients. -/
theorem Trans.clientStep (h : Trans s a s') (ha : a.OfClient s) : ClientStep s s' := by
  have goto {u : State} {t : Tid} {pc : Pc} (hu : u.threads = s.threads)
      (hpc : pc.ofClient = true) (t' : Tid) :
      (u.goto t pc).threads t' = s.threads t' ∨ ((u.goto t pc).threads t').ofClient = true := by
    rw [State.threads_goto, hu]
    split
    · exact Or.inr hpc
    · exact Or.inl rfl
  have stay {u : State} (hu : u.threads = s.threads) (t' : Tid) :
      u.threads t' = s.threads t' ∨ (u.threads t').ofClient = true :=
    Or.inl (congrFun hu t')
  cases h with
  | alloc =>
    refine ⟨⟨rfl, rfl, ?_⟩, stay rfl⟩
    intro r hr
    dsimp only
    rw [Function.update_of_ne (Nat.ne_of_lt hr)]
  | fill => exact ⟨⟨rfl, rfl, fun _ _ ↦ errcode_update rfl⟩, stay rfl⟩
  | returnMmap | syncRefused | syncNoItem | asyncRefused =>
    exact ⟨⟨rfl, rfl, fun _ _ ↦ rfl⟩, stay rfl⟩
  | callSync | callAsync => exact ⟨⟨rfl, rfl, fun _ _ ↦ rfl⟩, goto rfl rfl⟩
  | setKdata | setCallback | restoreKdata | restoreCallback =>
    exact ⟨⟨rfl, rfl, fun _ _ ↦ errcode_update rfl⟩, goto rfl rfl⟩
  | syncEnqueue | wait | restoreKdataStale | restoreCallbackStale | free | syncReturnMmap
  | syncReturn | asyncEnqueue | signalSync =>
    exact ⟨⟨rfl, rfl, fun _ _ ↦ rfl⟩, goto rfl rfl⟩
  | read | writeShort | write => exact ha.elim
  | readEmpty ht | readTake ht | readWake ht | readPut ht | readDrop ht | readReturn ht
  | writeMiss ht | writeFind ht | writeErrcode ht | callClient ht | callSyncCallback ht
  | clientDone ht | callbackKdata ht | callbackDone ht | callbackDoneStale ht | callbackWake ht
  | callbackWakeStale ht | writeReturn ht | signalRead ht =>
    rw [Act.OfClient, ht] at ha
    cases ha

/-- What a step of a client leaves alone on the way from `reqs` to the callback. -/
structure ClientQueues (s s' : State) : Prop where
  reqs : s.reqs <+: s'.reqs
  dropped : s'.dropped = s.dropped
  completed : s'.completed = s.completed
  called : s'.called = s.called
  writeReturns : s'.writeReturns = s.writeReturns

/-- A step of a client takes nothing off `reqs` and answers nothing. -/
theorem Trans.client_queues (h : Trans s a s') (ha : a.OfClient s) : ClientQueues s s' := by
  cases h with
  | syncEnqueue | asyncEnqueue => exact ⟨List.prefix_append _ _, rfl, rfl, rfl, rfl⟩
  | read | writeShort | write => exact ha.elim
  | readEmpty ht | readTake ht | readWake ht | readPut ht | readDrop ht | readReturn ht
  | writeMiss ht | writeFind ht | writeErrcode ht | callClient ht | callSyncCallback ht
  | clientDone ht | callbackKdata ht | callbackDone ht | callbackDoneStale ht | callbackWake ht
  | callbackWakeStale ht | writeReturn ht | signalRead ht =>
    rw [Act.OfClient, ht] at ha
    cases ha
  | _ => exact ⟨List.prefix_refl _, rfl, rfl, rfl, rfl⟩

/-! ### Steps of the calls that read and write -/

/-- The record that the thread has filled in for its reader. -/
def Pc.kuRequest : Pc → Option QhgpuKuRequest
  | .readHand _ _ kureq => some kureq
  | .readReturn _ buf => buf
  | _ => none

/-- What a step inside `qhgpu_read` or `qhgpu_write` leaves alone. -/
structure DeviceStep (s s' : State) : Prop where
  gmpool : s'.gmpool = s.gmpool
  itemReq : s'.itemReq = s.itemReq
  enqueued : s'.enqueued = s.enqueued
  request : ∀ r, (s'.request r).callback = (s.request r).callback ∧
    (s'.request r).serviceName = (s.request r).serviceName
  called : s.called ⊆ s'.called
  reqs : s'.reqs ⊆ s.reqs

/-- A step inside `qhgpu_read` or `qhgpu_write` is one of `DeviceStep`. -/
theorem Trans.deviceStep (h : Trans s (.step t) s') (ht : (s.threads t).ofClient = false) :
    DeviceStep s s' := by
  cases h with
  | setKdata ht' | setCallback ht' | syncEnqueue ht' | wait ht' | restoreKdata ht'
  | restoreKdataStale ht' | restoreCallback ht' | restoreCallbackStale ht' | free ht'
  | syncReturnMmap ht' | syncReturn ht' | asyncEnqueue ht' =>
    rw [ht'] at ht
    cases ht
  | @readTake _ _ _ _ i rest _ _ hreqs =>
    refine ⟨rfl, rfl, rfl, fun _ ↦ ⟨rfl, rfl⟩, List.Subset.refl _, ?_⟩
    rw [hreqs]
    exact List.subset_cons_self i rest
  | callClient | callSyncCallback =>
    exact ⟨rfl, rfl, rfl, fun _ ↦ ⟨rfl, rfl⟩, List.subset_append_left _ _, List.Subset.refl _⟩
  | @writeErrcode _ i count e ht' =>
    refine ⟨rfl, rfl, rfl, ?_, List.Subset.refl _, List.Subset.refl _⟩
    intro r
    by_cases hr : r = s.itemReq i
    · subst hr
      rw [State.goto, State.setRequest]
      dsimp only
      rw [Function.update_self]
      exact ⟨rfl, rfl⟩
    · rw [State.goto, State.setRequest]
      dsimp only
      rw [Function.update_of_ne hr]
      exact ⟨rfl, rfl⟩
  | _ => exact ⟨rfl, rfl, rfl, fun _ ↦ ⟨rfl, rfl⟩, List.Subset.refl _, List.Subset.refl _⟩

/-- A record is filled in from an item on `reqs`. -/
theorem Trans.kuRequest_cases (h : Trans s (.step t) s') {kureq : QhgpuKuRequest}
    (ht : (s'.threads t).kuRequest = some kureq) : (s.threads t).kuRequest = some kureq ∨
      ∃ j ∈ s.reqs, ∃ stack, kureq = fillKuRequest s.gmpool stack (s.request (s.itemReq j)) := by
  cases h with
  | readEmpty _ _ hpc =>
    rw [State.threads_goto_self] at ht
    rcases hpc with rfl | rfl <;> cases ht
  | readTake _ hreqs hkureq =>
    rw [State.threads_goto_self] at ht
    obtain rfl := Option.some.inj ht
    refine Or.inr ⟨_, ?_, _, hkureq⟩
    rw [hreqs]
    exact List.mem_cons_self
  | readPut ht' | readDrop ht' =>
    rw [State.threads_goto_self] at ht
    rw [ht']
    exact Or.inl ht
  | _ =>
    rw [State.threads_goto_self] at ht
    cases ht

/-! ### Steps inside `qhgpu_write` -/

/-- What a step of a `qhgpu_write` that has found item `i` does. -/
structure WriteStep (s s' : State) (t : Tid) (i : ItemId) (count : Count) (p : WritePhase) :
    Prop where
  taken : s'.taken = s.taken
  rtdreqs : s'.rtdreqs = s.rtdreqs
  itemReq : s'.itemReq = s.itemReq
  threads : s'.threads t = .idle ∨ ∃ p', s'.threads t = .write i count p' ∧
    ∀ e, p' ≠ .errcode e
  stored : ∀ e, p = .errcode e → (s'.request (s.itemReq i)).errcode = e
  kept : (∀ e, p ≠ .errcode e) → s'.request = s.request

/-- A step of a `qhgpu_write` that has found its item is one of `WriteStep`. -/
theorem Trans.writeStep (h : Trans s (.step t) s') {i : ItemId} {count : Count}
    {p : WritePhase} (ht : s.threads t = .write i count p) : WriteStep s s' t i count p := by
  -- a step that stores no error code and goes on in the same call
  have next {u : State} {p' : WritePhase} (hp : ∀ e, p ≠ .errcode e)
      (hp' : ∀ e, p' ≠ .errcode e) (htaken : u.taken = s.taken) (hrtd : u.rtdreqs = s.rtdreqs)
      (hitem : u.itemReq = s.itemReq) (hreq : u.request = s.request) :
      WriteStep s (u.goto t (.write i count p')) t i count p :=
    ⟨htaken, hrtd, hitem, Or.inr ⟨p', Function.update_self .., hp'⟩,
      fun e he ↦ absurd he (hp e), fun _ ↦ hreq⟩
  cases h with
  | setKdata ht' | setCallback ht' | syncEnqueue ht' | wait ht' | restoreKdata ht'
  | restoreKdataStale ht' | restoreCallback ht' | restoreCallbackStale ht' | free ht'
  | syncReturnMmap ht' | syncReturn ht' | asyncEnqueue ht' | readEmpty ht' | readTake ht'
  | readWake ht' | readPut ht' | readDrop ht' | readReturn ht' | writeMiss ht'
  | writeFind ht' =>
    rw [ht] at ht'
    cases ht'
  | writeErrcode ht' =>
    obtain ⟨rfl, rfl, rfl⟩ := Pc.write.inj (ht.symm.trans ht')
    refine ⟨rfl, rfl, rfl, Or.inr ⟨.callback, Function.update_self .., by simp⟩, ?_, ?_⟩
    · intro e' he
      obtain rfl := WritePhase.errcode.inj he
      rw [State.goto, State.setRequest]
      dsimp only
      rw [Function.update_self]
    · intro hne
      exact absurd rfl (hne _)
  | callClient ht' | callSyncCallback ht' | clientDone ht' | callbackKdata ht'
  | callbackDone ht' | callbackDoneStale ht' | callbackWake ht' | callbackWakeStale ht' =>
    obtain ⟨rfl, rfl, rfl⟩ := Pc.write.inj (ht.symm.trans ht')
    exact next (by simp) (by simp) rfl rfl rfl rfl
  | writeReturn ht' =>
    obtain ⟨rfl, rfl, rfl⟩ := Pc.write.inj (ht.symm.trans ht')
    exact ⟨rfl, rfl, rfl, Or.inl (Function.update_self ..), by simp, fun _ ↦ rfl⟩

/-- A `qhgpu_write` that has found an item returns the count it was given. -/
theorem Trans.writeReturns_cases (h : Trans s (.step t) s') {i : ItemId} {count : Count}
    {p : WritePhase} (ht : s.threads t = .write i count p) : s'.dropped = s.dropped ∧
      ((s'.threads t = .idle ∧ s'.writeReturns = s.writeReturns ++ [(count.val : Int)]) ∨
        ∃ p', s'.threads t = .write i count p' ∧ s'.writeReturns = s.writeReturns) := by
  cases h with
  | setKdata ht' | setCallback ht' | syncEnqueue ht' | wait ht' | restoreKdata ht'
  | restoreKdataStale ht' | restoreCallback ht' | restoreCallbackStale ht' | free ht'
  | syncReturnMmap ht' | syncReturn ht' | asyncEnqueue ht' | readEmpty ht' | readTake ht'
  | readWake ht' | readPut ht' | readDrop ht' | readReturn ht' | writeMiss ht'
  | writeFind ht' =>
    rw [ht] at ht'
    cases ht'
  | writeReturn ht' =>
    obtain ⟨rfl, rfl, rfl⟩ := Pc.write.inj (ht.symm.trans ht')
    exact ⟨rfl, Or.inl ⟨Function.update_self .., rfl⟩⟩
  | writeErrcode ht' | callClient ht' | callSyncCallback ht' | clientDone ht'
  | callbackKdata ht' | callbackDone ht' | callbackDoneStale ht' | callbackWake ht'
  | callbackWakeStale ht' =>
    obtain ⟨rfl, rfl, rfl⟩ := Pc.write.inj (ht.symm.trans ht')
    exact ⟨rfl, Or.inr ⟨_, Function.update_self .., rfl⟩⟩

end QHGPU.Kernel
