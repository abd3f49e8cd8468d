import QHGPU.Kernel.Objects
import QHGPU.Library.SlotTable

/-!
# Who has which slot

`module_active_checker` as a table of slots without owners: every step of the driver is a step
of `SlotTable`, whose condition decides whether slots stay exclusive.
-/

namespace QHGPU.Kernel

/-- An item of the request was enqueued and `qhgpu_write` has not found it yet. -/
def State.Queued (s : State) (r : ReqId) : Prop :=
  ∃ i ∈ s.enqueued, i ∉ s.completed ∧ s.itemReq i = r

/-- The request is queued, or its slot was not given back. -/
def State.Held (s : State) (r : ReqId) : Prop :=
  r < s.nextReq ∧ (¬s.released r ∨ s.Queued r)

/-- The slot of every held request is marked active, and no two held requests have the same
id, or the same buffer when the slots have different ones. -/
structure SlotExclusive (s : State) : Prop where
  active : ∀ r, s.Held r → s.moduleActiveChecker (s.request r).id ≠ 0
  distinct : ∀ r r', s.Held r → s.Held r' → (s.request r).id = (s.request r').id → r = r'
  buffers : (∀ k k' : Nat, k < s.moduleCnt → k' < s.moduleCnt →
      s.kmmapAddrArr k = s.kmmapAddrArr k' → k = k') →
    ∀ r r', s.Held r → s.Held r' → (s.request r).kmmapAddr = (s.request r').kmmapAddr → r = r'

/-- The request is not queued, and no other held request has its id. -/
def State.MayRelease (s : State) (r : ReqId) : Prop :=
  ¬s.Queued r ∧ ∀ r', s.Held r' → (s.request r').id = (s.request r).id → r' = r

/-- An allocation finds a free slot, nothing is enqueued after its slot was given back, and a
slot is given back only when nobody else relies on it. -/
def SlotOk (s : State) : Act → Prop
  | .alloc _ _ _ => ∃ k : Nat, k < s.moduleCnt ∧ s.moduleActiveChecker k = 0
  | .returnMmap r => s.MayRelease r
  | .step t =>
    match s.threads t with
    | .sync c .enqueue => ¬s.released c.req
    | .asyncEnqueue i => ¬s.released (s.itemReq i)
    | .sync c .returnMmap => s.MayRelease c.req
    | _ => True
  | _ => True

/-- The slot table behind a state. -/
def State.slotTable (s : State) : SlotTable.State ReqId Int where
  busy k := s.moduleActiveChecker k ≠ 0
  slot r := (s.request r).id
  known r := r < s.nextReq
  released r := s.released r
  queued := s.Queued

variable {s s' : State} {a : Act}

/-- A request that is found by `qhgpu_write`, and every other step that touches neither the
table nor the queue, at most ends the wait of queued requests. -/
private theorem settle_step (h : Trans s a s') (hn : Numbered s)
    (hbusy : s'.moduleActiveChecker = s.moduleActiveChecker) (hnext : s'.nextReq = s.nextReq)
    (hreleased : s'.released = s.released) (henqueued : s'.enqueued = s.enqueued)
    (hcompleted : s.completed ⊆ s'.completed) :
    SlotTable.Step s.slotTable s'.slotTable True := by
  have hqueued (r : ReqId) (hr : s'.Queued r) : s.Queued r := by
    obtain ⟨i, hi, hc, hreq⟩ := hr
    rw [henqueued] at hi
    refine ⟨i, hi, fun hmem ↦ hc (hcompleted hmem), ?_⟩
    rw [← h.itemReq_eq (hn.lt_of_enqueued hi)]
    exact hreq
  have hslot (r : ReqId) := (h.slot_eq_of_nextReq hnext r).1
  have heq : s'.slotTable = { s.slotTable with queued := s'.Queued } := by
    simp only [State.slotTable, hbusy, hnext, hslot, hreleased]
  rw [heq]
  exact .settle hqueued

/-- Both locked sections submit the request of an item that waited for it. -/
private theorem submit_step (hn : Numbered s) {t : Tid} {i : ItemId} {pc : Pc}
    (hi : (s.threads t).pending = some i) :
    SlotTable.Step s.slotTable ((s.enqueue i).goto t pc).slotTable
      (¬s.released (s.itemReq i)) := by
  obtain ⟨hissued, hnot⟩ := hn.conserved.pending (t := t) (i := i) hi
  have hqueued : ((s.enqueue i).goto t pc).Queued =
      fun r ↦ r = s.itemReq i ∨ s.Queued r := by
    funext r
    refine propext ⟨?_, ?_⟩
    · rintro ⟨j, hj, hc, rfl⟩
      rcases List.mem_append.mp hj with hj | hj
      · exact Or.inr ⟨j, hj, hc, rfl⟩
      · rw [List.mem_singleton.mp hj]
        exact Or.inl rfl
    · rintro (rfl | ⟨j, hj, hc, hr⟩)
      · refine ⟨i, List.mem_append_right _ (List.mem_singleton_self i), ?_, rfl⟩
        exact fun hmem ↦ hnot (hn.conserved.enqueued_of_completed hmem)
      · exact ⟨j, List.mem_append_left _ hj, hc, hr⟩
  have heq : ((s.enqueue i).goto t pc).slotTable =
      { s.slotTable with queued := fun r ↦ r = s.itemReq i ∨ s.Queued r } := by
    rw [State.slotTable, hqueued]
    rfl
  rw [heq]
  exact .submit (hn.itemReq_lt i hissued)

/-- `qhgpu_return_mmap`. -/
private theorem release_step {r : ReqId} (hr : r < s.nextReq) :
    SlotTable.Step s.slotTable (qhgpuReturnMmap s r).slotTable (s.MayRelease r) := by
  have hbusy : (fun k ↦ Function.update s.moduleActiveChecker (s.request r).id 0 k ≠ 0) =
      fun k ↦ k ≠ (s.request r).id ∧ s.moduleActiveChecker k ≠ 0 := by
    funext k
    by_cases hk : k = (s.request r).id <;> simp [hk]
  have hrel : (fun r' ↦ Function.update s.released r true r' = true) =
      fun r' ↦ r' = r ∨ s.released r' = true := by
    funext r'
    by_cases hr' : r' = r <;> simp [hr']
  have heq : (qhgpuReturnMmap s r).slotTable =
      { s.slotTable with
        busy := fun k ↦ k ≠ (s.request r).id ∧ s.moduleActiveChecker k ≠ 0
        released := fun r' ↦ r' = r ∨ s.released r' = true } := by
    rw [← hbusy, ← hrel]
    rfl
  rw [heq]
  exact .release hr

/-- `qhgpu_alloc_request`, with slot `k` for the new request. -/
private theorem claim_step {req : QhgpuRequest} {checker : Int → Int}
    (hbusy : ∀ j, checker j ≠ 0 ↔ j = req.id ∨ s.moduleActiveChecker j ≠ 0) :
    SlotTable.Step s.slotTable (State.slotTable { s with
      moduleActiveChecker := checker
      request := Function.update s.request s.nextReq req
      nextReq := s.nextReq + 1 }) (¬s.moduleActiveChecker req.id ≠ 0) := by
  have hslot : (fun r ↦ (Function.update s.request s.nextReq req r).id) =
      Function.update (fun r ↦ (s.request r).id) s.nextReq req.id :=
    Function.comp_update QhgpuRequest.id s.request s.nextReq req
  have hknown : (fun r ↦ r < s.nextReq + 1) = fun r ↦ r = s.nextReq ∨ r < s.nextReq :=
    funext fun r ↦ propext (Nat.lt_succ_iff_lt_or_eq.trans Or.comm)
  have heq : State.slotTable { s with
        moduleActiveChecker := checker
        request := Function.update s.request s.nextReq req
        nextReq := s.nextReq + 1 } =
      { s.slotTable with
        busy := fun j ↦ j = req.id ∨ s.moduleActiveChecker j ≠ 0
        slot := Function.update (fun r ↦ (s.request r).id) s.nextReq req.id
        known := fun r ↦ r = s.nextReq ∨ r < s.nextReq } := by
    rw [← hslot, ← hknown, ← funext fun j ↦ propext (hbusy j)]
    rfl
  rw [heq]
  exact .claim (Nat.lt_irrefl _)

/-- Every step of the driver is a step of the slot table, with `SlotOk` as its condition. -/
theorem Trans.slotStep (h : Trans s a s') (hn : Numbered s) (hcnt : 0 < s.moduleCnt) :
    SlotTable.Step s.slotTable s'.slotTable (SlotOk s a) := by
  have of_iff {ok : Prop} (hstep : SlotTable.Step s.slotTable s'.slotTable ok)
      (hok : SlotOk s a ↔ ok) : SlotTable.Step s.slotTable s'.slotTable (SlotOk s a) := by
    rw [hok]
    exact hstep
  -- a step of a thread at `pc` that concerns no slot
  have quiet {t : Tid} {pc : Pc} (ha : a = .step t) (ht : s.threads t = pc)
      (hpc : SlotOk { s with threads := fun _ ↦ pc } (.step t))
      (hstep : SlotTable.Step s.slotTable s'.slotTable True) :
      SlotTable.Step s.slotTable s'.slotTable (SlotOk s a) := by
    subst ha ht
    exact of_iff hstep (iff_of_true hpc trivial)
  have settle := settle_step h hn
  cases h with
  | @alloc dataSize serviceName obj req checker hid =>
    refine of_iff (claim_step ?_) ?_
    · intro j
      rcases hid with ⟨k, _, _, hk, rfl⟩ | ⟨hfull, hk, rfl⟩
      · rw [hk]
        by_cases hj : j = k <;> simp [hj]
      · rw [hk]
        refine ⟨Or.inr, ?_⟩
        rintro (rfl | hj)
        · exact hfull 0 hcnt
        · exact hj
    · rcases hid with ⟨k, hk, hfree, hid, _⟩ | ⟨hfull, hid, _⟩
      · rw [hid, not_not]
        exact iff_of_true ⟨k, hk, hfree⟩ hfree
      · rw [hid]
        refine iff_of_false ?_ (not_not.mpr (hfull 0 hcnt))
        rintro ⟨k, hk, hfree⟩
        exact hfull k hk hfree
  | returnMmap hr => exact release_step hr
  | @syncReturnMmap t c ht =>
    have hr := (hn.sync t c (by rw [ht]; rfl)).1
    exact of_iff (release_step hr) (by simp only [SlotOk, ht])
  | @syncEnqueue t c ht =>
    have hr := (hn.sync t c (by rw [ht]; rfl)).2.2
    exact of_iff (submit_step hn (by rw [ht]; rfl)) (by simp only [SlotOk, ht, hr])
  | asyncEnqueue ht =>
    exact of_iff (submit_step hn (by rw [ht]; rfl)) (by simp only [SlotOk, ht])
  | fill | syncRefused | syncNoItem | asyncRefused | callSync | callAsync | read | write | writeShort
  | signalSync | signalRead =>
    exact settle rfl rfl rfl rfl (List.Subset.refl _)
  | writeFind ht =>
    exact quiet rfl ht trivial (settle rfl rfl rfl rfl (List.subset_append_left _ _))
  | setKdata ht | setCallback ht | restoreKdata ht | restoreCallback ht | writeErrcode ht
  | wait ht | restoreKdataStale ht | restoreCallbackStale ht | free ht | syncReturn ht
  | readEmpty ht | readTake ht | readWake ht | readPut ht | readDrop ht | readReturn ht
  | writeMiss ht | callClient ht | callSyncCallback ht | clientDone ht | callbackKdata ht
  | callbackDone ht | callbackDoneStale ht | callbackWake ht | callbackWakeStale ht
  | writeReturn ht =>
    exact quiet rfl ht trivial (settle rfl rfl rfl rfl (List.Subset.refl _))

/-- What slot exclusivity rests on. -/
structure SlotInv (s : State) : Prop where
  numbered : Numbered s
  table : SlotTable.Inv s.slotTable
  cnt_pos : 0 < s.moduleCnt
  id_lt : ∀ r < s.nextReq, ∃ k : Nat, k < s.moduleCnt ∧ (s.request r).id = k
  addr : ∀ r < s.nextReq, (s.request r).kmmapAddr = s.kmmapAddrArr (s.request r).id

private theorem SlotInv.exclusive (h : SlotInv s) : SlotExclusive s where
  active := h.table.active
  distinct := h.table.distinct
  buffers hinj r r' hr hr' heq := by
    obtain ⟨k, hk, hid⟩ := h.id_lt r hr.1
    obtain ⟨k', hk', hid'⟩ := h.id_lt r' hr'.1
    rw [h.addr r hr.1, h.addr r' hr'.1, hid, hid'] at heq
    refine h.table.distinct r r' hr hr' ?_
    change (s.request r).id = (s.request r').id
    rw [hid, hid', hinj k k' hk hk' heq]

/-- Only `qhgpu_alloc_request` makes requests, with the id and the address of a slot. -/
theorem Trans.new_request (h : Trans s a s') (hcnt : 0 < s.moduleCnt) {r : ReqId}
    (hr : r < s'.nextReq) (hnew : ¬r < s.nextReq) :
    (∃ k : Nat, k < s.moduleCnt ∧ (s'.request r).id = k) ∧
      (s'.request r).kmmapAddr = s.kmmapAddrArr (s'.request r).id := by
  cases h with
  | alloc hid haddr =>
    obtain rfl := Nat.eq_of_lt_succ_of_not_lt hr hnew
    dsimp only
    rw [Function.update_self]
    refine ⟨?_, haddr⟩
    rcases hid with ⟨k, hk, _, hid, _⟩ | ⟨_, hid, _⟩
    · exact ⟨k, hk, hid⟩
    · exact ⟨0, hcnt, hid⟩
  | _ => exact absurd hr hnew

/-- A step that meets `SlotOk` keeps what exclusivity rests on. -/
theorem SlotInv.step (hs : SlotInv s) (hok : SlotOk s a) (h : Trans s a s') : SlotInv s' := by
  obtain ⟨hcnt, harr⟩ := h.slots_fixed
  refine ⟨h.numbered hs.numbered, (h.slotStep hs.numbered hs.cnt_pos).keeps hok hs.table, ?_,
    ?_, ?_⟩
  · rw [hcnt]
    exact hs.cnt_pos
  · intro r hr
    rw [hcnt]
    by_cases hold : r < s.nextReq
    · rw [(h.slot_eq hold).1]
      exact hs.id_lt r hold
    · exact (h.new_request hs.cnt_pos hr hold).1
  · intro r hr
    rw [harr]
    by_cases hold : r < s.nextReq
    · rw [(h.slot_eq hold).1, (h.slot_eq hold).2]
      exact hs.addr r hold
    · exact (h.new_request hs.cnt_pos hr hold).2

private theorem slotInv_start {n : Nat} (hn : 0 < n) (arr : Int → Word) (pool : QhgpuMempool) :
    SlotInv (.start n arr pool) where
  numbered := numbered_start n arr pool
  table := by
    refine ⟨⟨?_, ?_⟩, ?_, ?_, ?_, ?_⟩
    · exact fun r hr ↦ absurd hr.1 (Nat.not_lt_zero r)
    · exact fun r _ hr ↦ absurd hr.1 (Nat.not_lt_zero r)
    · exact fun k hk ↦ absurd rfl hk
    · exact fun r hr ↦ nomatch hr
    · exact fun r hr ↦ nomatch hr
    · rintro r ⟨i, hi, _⟩
      cases hi
  cnt_pos := hn
  id_lt r hr := absurd hr (Nat.not_lt_zero r)
  addr r hr := absurd hr (Nat.not_lt_zero r)

/-- In a run from `n ≥ 1` free slots, slots are exclusive in every state exactly when every
step meets `SlotOk`. -/
theorem slotExclusive_iff {n : Nat} (hn : 0 < n) (arr : Int → Word) (pool : QhgpuMempool)
    (acts : List Act) (s : State) (h : StepRun.run step (.start n arr pool) acts = some s) :
    StepRun.Always step SlotExclusive (.start n arr pool) acts ↔
      StepRun.Meets step SlotOk (.start n arr pool) acts := by
  refine StepRun.always_iff_meets (I := SlotInv) (fun _ hs ↦ hs.exclusive) ?_ ?_
    (slotInv_start hn arr pool) h
  · intro s a s' hs hok hstep
    exact hs.step hok (trans_of_step hstep)
  · intro s a s' hs hok hstep hex
    have hbreak := ((trans_of_step hstep).slotStep hs.numbered hs.cnt_pos).breaks hok hs.table
    exact hbreak ⟨hex.active, hex.distinct⟩

/-- Two requests hold two slots, the second of them queued; the slot of the first is given back
and claimed again by a third. -/
theorem slotExclusive_iff_claimedAgain :
    StepRun.Always step SlotExclusive (.start 2 (fun k ↦ BitVec.ofInt 64 (4096 * k)) .zeroed)
      [.alloc 1 [] (some (fieldsWith 0, 0)), .alloc 1 [] (some (fieldsWith 0, 0)),
        .callAsync 1 1 true, .step 1, .returnMmap 0, .alloc 1 [] (some (fieldsWith 0, 0))] := by
  refine (slotExclusive_iff (by decide) (fun k ↦ BitVec.ofInt 64 (4096 * k)) .zeroed
    [.alloc 1 [] (some (fieldsWith 0, 0)), .alloc 1 [] (some (fieldsWith 0, 0)),
      .callAsync 1 1 true, .step 1, .returnMmap 0, .alloc 1 [] (some (fieldsWith 0, 0))] _
    rfl).mpr ?_
  refine StepRun.meets_cons ⟨0, by decide, rfl⟩ rfl ?_
  refine StepRun.meets_cons ⟨1, by decide, rfl⟩ rfl ?_
  refine StepRun.meets_cons trivial rfl ?_
  refine StepRun.meets_cons Bool.false_ne_true rfl ?_
  refine StepRun.meets_cons ⟨?_, ?_⟩ rfl ?_
  · rintro ⟨i, hi, -, hreq⟩
    obtain rfl := List.mem_singleton.mp hi
    exact absurd hreq (by decide)
  · rintro r ⟨hlt, -⟩ hid
    match r, hlt with
    | 0, _ => rfl
    | 1, _ => exact absurd hid (by decide)
  exact StepRun.meets_cons ⟨0, by decide, rfl⟩ rfl trivial

/-- With one slot, a second request is given the slot of the first. -/
theorem not_slotExclusive_two : ¬∀ (n : Nat), 0 < n → ∀ (arr : Int → Word) (pool : QhgpuMempool)
    (acts : List Act) (s : State), StepRun.run step (.start n arr pool) acts = some s →
      StepRun.Always step SlotExclusive (.start n arr pool) acts := by
  intro hall
  let alloc : Act := .alloc 1 [] (some (fieldsWith 0, 0))
  have h := hall 1 (by decide) (fun _ ↦ 0) .zeroed [alloc, alloc] _ rfl
  have hlast := (h.2 _ rfl).2 _ rfl
  have heq := hlast.distinct 0 1 ⟨by decide, Or.inl Bool.false_ne_true⟩
    ⟨by decide, Or.inl Bool.false_ne_true⟩ rfl
  exact absurd heq (by decide)

end QHGPU.Kernel
