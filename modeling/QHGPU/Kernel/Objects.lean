import QHGPU.Kernel.Queues

/-!
# Requests and items

What stays true of the numbered objects in every run: an item keeps its request, a request
keeps its slot and its slot address.
-/

namespace QHGPU.Kernel

variable {s s' : State} {a : Act}

/-- The `qhgpu_call_sync` that the thread is in. -/
def Pc.syncCall : Pc → Option SyncCall
  | .sync c _ => some c
  | _ => none

/-- Every item number that is in use belongs to an allocated request. -/
structure Numbered (s : State) : Prop where
  conserved : HandOff.Conserved s.handOff
  itemReq_lt : ∀ i < s.nextItem, s.itemReq i < s.nextReq
  sync : ∀ t c, (s.threads t).syncCall = some c →
    c.req < s.nextReq ∧ c.item < s.nextItem ∧ s.itemReq c.item = c.req

/-- The thread that makes the step. -/
def Act.tid : Act → Option Tid
  | .callSync t _ _ _ | .callAsync t _ _ | .read t _ _ _ | .write t _ _ | .step t
  | .signal t => some t
  | .alloc _ _ _ | .fill _ _ | .returnMmap _ => none

/-- A step moves one thread. -/
theorem Trans.threads_of_ne (h : Trans s a s') {t : Tid} (ht : a.tid ≠ some t) :
    s'.threads t = s.threads t := by
  cases h <;> first
    | rfl
    | exact Function.update_of_ne (fun heq ↦ ht (congrArg some heq.symm)) ..

/-- A thread stays where it is in a run of others. -/
theorem threads_of_run {acts : List Act} {t : Tid} (h : StepRun.run step s acts = some s')
    (ht : ∀ a ∈ acts, a.tid ≠ some t) : s'.threads t = s.threads t := by
  induction acts generalizing s with
  | nil =>
    obtain rfl := Option.some.inj h
    rfl
  | cons a acts ih =>
    obtain ⟨u, ha, hrest⟩ := StepRun.run_cons_iff.mp h
    rw [ih hrest fun b hb ↦ ht b (List.mem_cons_of_mem a hb)]
    exact (trans_of_step ha).threads_of_ne (ht a List.mem_cons_self)

/-- The number an allocation will use next only grows. -/
theorem Trans.nextReq_le (h : Trans s a s') : s.nextReq ≤ s'.nextReq := by
  cases h with
  | alloc => exact Nat.le_succ _
  | _ => exact Nat.le_refl _

/-- An allocated item keeps its request. -/
theorem Trans.itemReq_eq (h : Trans s a s') {i : ItemId} (hi : i < s.nextItem) :
    s'.itemReq i = s.itemReq i := by
  cases h with
  | callSync => exact Function.update_of_ne (Nat.ne_of_lt hi) ..
  | callAsync => exact Function.update_of_ne (Nat.ne_of_lt hi) ..
  | _ => rfl

private theorem update_fields {f : ReqId → QhgpuRequest} {r r' : ReqId} {req : QhgpuRequest}
    (hid : req.id = (f r').id) (haddr : req.kmmapAddr = (f r').kmmapAddr) :
    (Function.update f r' req r).id = (f r).id ∧
      (Function.update f r' req r).kmmapAddr = (f r).kmmapAddr := by
  by_cases hr : r = r'
  · subst hr
    rw [Function.update_self]
    exact ⟨hid, haddr⟩
  · rw [Function.update_of_ne hr]
    exact ⟨rfl, rfl⟩

/-- A step that makes no request changes no id and no slot address. -/
theorem Trans.slot_eq_of_nextReq (h : Trans s a s') (hnext : s'.nextReq = s.nextReq)
    (r : ReqId) : (s'.request r).id = (s.request r).id ∧
      (s'.request r).kmmapAddr = (s.request r).kmmapAddr := by
  cases h with
  | alloc => exact absurd hnext (Nat.succ_ne_self _)
  | fill => exact update_fields rfl rfl
  | setKdata => exact update_fields rfl rfl
  | setCallback => exact update_fields rfl rfl
  | restoreKdata => exact update_fields rfl rfl
  | restoreCallback => exact update_fields rfl rfl
  | writeErrcode => exact update_fields rfl rfl
  | _ => exact ⟨rfl, rfl⟩

/-- An allocated request keeps its id and its slot address. -/
theorem Trans.slot_eq (h : Trans s a s') {r : ReqId} (hr : r < s.nextReq) :
    (s'.request r).id = (s.request r).id ∧
      (s'.request r).kmmapAddr = (s.request r).kmmapAddr := by
  have keep := h.slot_eq_of_nextReq
  cases h with
  | alloc =>
    dsimp only
    rw [Function.update_of_ne (Nat.ne_of_lt hr)]
    exact ⟨rfl, rfl⟩
  | _ => exact keep rfl r

/-- A thread is in the call it was in before, or in one that it has just made. -/
theorem Trans.syncCall (h : Trans s a s') {t : Tid} {c : SyncCall}
    (ht : (s'.threads t).syncCall = some c) : (s.threads t).syncCall = some c ∨
      ((∃ dataOk itemOk, a = .callSync t c.req dataOk itemOk) ∧ c.req < s.nextReq ∧
        c = ⟨c.req, s.nextItem, s.nextData, (s.request c.req).kdata,
          (s.request c.req).callback⟩ ∧ s'.nextItem = s.nextItem + 1 ∧
        s'.nextData = s.nextData + 1 ∧ s'.itemReq s.nextItem = c.req) := by
  have goto {u : State} {t' : Tid} {old pc : Pc}
      (ht : ((u.goto t' pc).threads t).syncCall = some c) (hold : s.threads t' = old)
      (hpc : pc.syncCall = old.syncCall ∨ pc.syncCall = none) (hu : u.threads = s.threads) :
      (s.threads t).syncCall = some c := by
    rw [State.threads_goto, hu] at ht
    split at ht
    · next heq =>
      subst heq
      rw [hold]
      rcases hpc with hpc | hpc
      · exact hpc.symm.trans ht
      · exact absurd (hpc.symm.trans ht) (Option.some_ne_none c).symm
    · exact ht
  cases h with
  | alloc | fill | returnMmap | syncRefused | syncNoItem | asyncRefused | writeShort =>
    exact Or.inl ht
  | @callSync t' r dataOk itemOk c' ht' hr hc =>
    by_cases heq : t = t'
    · subst heq
      rw [State.threads_goto_self] at ht
      obtain rfl := Option.some.inj ht
      subst hc
      exact Or.inr ⟨⟨dataOk, itemOk, rfl⟩, hr, rfl, rfl, rfl, Function.update_self ..⟩
    · rw [State.threads_goto_of_ne heq] at ht
      exact Or.inl ht
  | setKdata ht' | setCallback ht' | syncEnqueue ht' | wait ht' | restoreKdata ht'
  | restoreKdataStale ht' | restoreCallback ht' | restoreCallbackStale ht' | free ht'
  | syncReturnMmap ht' | signalSync ht' =>
    exact Or.inl (goto ht ht' (Or.inl rfl) rfl)
  | readEmpty ht' _ hpc =>
    rcases hpc with rfl | rfl
    · exact Or.inl (goto ht ht' (Or.inr rfl) rfl)
    · exact Or.inl (goto ht ht' (Or.inr rfl) rfl)
  | callAsync ht' | read ht' | write ht' | syncReturn ht' | asyncEnqueue ht' | readTake ht'
  | readWake ht' | readPut ht' | readDrop ht' | readReturn ht' | writeMiss ht' | writeFind ht'
  | writeErrcode ht' | callClient ht' | callSyncCallback ht' | clientDone ht'
  | callbackKdata ht' | callbackDone ht' | callbackDoneStale ht' | callbackWake ht'
  | callbackWakeStale ht' | writeReturn ht' | signalRead ht' =>
    exact Or.inl (goto ht ht' (Or.inr rfl) rfl)

/-- Only the two calls allocate an item. -/
theorem Trans.nextItem_cases (h : Trans s a s') : s'.nextItem = s.nextItem ∨
    (s'.nextItem = s.nextItem + 1 ∧ s'.itemReq s.nextItem < s.nextReq) := by
  cases h with
  | callSync _ hr =>
    refine Or.inr ⟨rfl, ?_⟩
    change Function.update s.itemReq s.nextItem _ s.nextItem < s.nextReq
    rw [Function.update_self]
    exact hr
  | callAsync _ hr =>
    refine Or.inr ⟨rfl, ?_⟩
    change Function.update s.itemReq s.nextItem _ s.nextItem < s.nextReq
    rw [Function.update_self]
    exact hr
  | _ => exact Or.inl rfl

/-- Item numbers are not given back. -/
theorem Trans.nextItem_le (h : Trans s a s') : s.nextItem ≤ s'.nextItem := by
  rcases h.nextItem_cases with heq | ⟨heq, _⟩
  · exact Nat.le_of_eq heq.symm
  · exact heq ▸ Nat.le_succ _

/-- At the start no number is in use. -/
theorem numbered_start (n : Nat) (arr : Int → Word) (pool : QhgpuMempool) :
    Numbered (.start n arr pool) where
  conserved := conserved_start n arr pool
  itemReq_lt _ hi := absurd hi (Nat.not_lt_zero _)
  sync _ _ hc := nomatch hc

/-- Every step keeps the numbering. -/
theorem Trans.numbered (h : Trans s a s') (hs : Numbered s) : Numbered s' := by
  refine ⟨h.conserved hs.conserved, ?_, ?_⟩
  · intro i hi
    refine Nat.lt_of_lt_of_le ?_ h.nextReq_le
    rcases h.nextItem_cases with heq | ⟨heq, hlt⟩
    · rw [heq] at hi
      rw [h.itemReq_eq hi]
      exact hs.itemReq_lt i hi
    · rw [heq] at hi
      rcases Nat.lt_succ_iff_lt_or_eq.mp hi with hi | rfl
      · rw [h.itemReq_eq hi]
        exact hs.itemReq_lt i hi
      · exact hlt
  · intro t c ht
    rcases h.syncCall ht with hold | ⟨_, hreq, hc, hitem, _, hr⟩
    · obtain ⟨hreq, hitem, hr⟩ := hs.sync t c hold
      refine ⟨Nat.lt_of_lt_of_le hreq h.nextReq_le, ?_, (h.itemReq_eq hitem).trans hr⟩
      rcases h.nextItem_cases with heq | ⟨heq, _⟩ <;> rw [heq]
      · exact hitem
      · exact Nat.lt_succ_of_lt hitem
    · rw [hc]
      refine ⟨Nat.lt_of_lt_of_le hreq h.nextReq_le, ?_, hr⟩
      rw [hitem]
      exact Nat.lt_succ_self _

/-! ### Slots -/

/-- `qhgpu_mmap_id` takes the first free slot, or answers 0 when there is none. -/
theorem mmapId_cases (s : State) :
    (∃ k : Nat, k < s.moduleCnt ∧ s.moduleActiveChecker k = 0 ∧
      (∀ j < k, s.moduleActiveChecker (j : Nat) ≠ 0) ∧ qhgpuMmapId s =
        ((k : Int), { s with moduleActiveChecker := Function.update s.moduleActiveChecker k 1 })) ∨
      ((∀ k : Nat, k < s.moduleCnt → s.moduleActiveChecker k ≠ 0) ∧ qhgpuMmapId s = (0, s)) := by
  rw [qhgpuMmapId]
  split
  · next k hk =>
    obtain ⟨hfree, hlt, hleast⟩ := List.find?_range_eq_some.mp hk
    refine Or.inl ⟨k, List.mem_range.mp hlt, of_decide_eq_true hfree, ?_, rfl⟩
    intro j hj
    simpa using hleast j hj
  · next hnone =>
    refine Or.inr ⟨?_, rfl⟩
    intro k hk
    simpa using List.find?_range_eq_none.mp hnone k hk

/-- The set-up of the slots does not change. -/
theorem Trans.slots_fixed (h : Trans s a s') :
    s'.moduleCnt = s.moduleCnt ∧ s'.kmmapAddrArr = s.kmmapAddrArr := by
  cases h with
  | _ => exact ⟨rfl, rfl⟩

/-- The call that makes a request. -/
def Act.isAlloc : Act → Bool
  | .alloc _ _ _ => true
  | _ => false

/-- A step that makes no request leaves the slots alone, or gives back the slot of one
request. -/
theorem Trans.checker_cases (h : Trans s a s') (ha : a.isAlloc = false) :
    s'.nextReq = s.nextReq ∧
      ((s'.moduleActiveChecker = s.moduleActiveChecker ∧ s'.released = s.released) ∨
        ∃ r, (r < s.nextReq ∨ ∃ t c, (s.threads t).syncCall = some c ∧ c.req = r) ∧
          s'.moduleActiveChecker = Function.update s.moduleActiveChecker (s.request r).id 0 ∧
          s'.released = Function.update s.released r true) := by
  cases h with
  | alloc => cases ha
  | returnMmap hr => exact ⟨rfl, Or.inr ⟨_, Or.inl hr, rfl, rfl⟩⟩
  | @syncReturnMmap t c ht =>
    refine ⟨rfl, Or.inr ⟨c.req, Or.inr ⟨t, c, ?_, rfl⟩, rfl, rfl⟩⟩
    rw [ht]
    rfl
  | _ => exact ⟨rfl, Or.inl ⟨rfl, rfl⟩⟩

/-- An enqueued item was allocated. -/
theorem Numbered.lt_of_enqueued (h : Numbered s) {i : ItemId} (hi : i ∈ s.enqueued) :
    i < s.nextItem := h.conserved.issued_of_enqueued hi

end QHGPU.Kernel
