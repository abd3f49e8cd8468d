import QHGPU.Kernel.Frames
import QHGPU.Kernel.Leftovers
import QHGPU.Kernel.SyncCall

/-!
# Items whose buffer is in use

From the time an item is enqueued until its callback is called, and for a synchronous call until
it gives its slot back, the buffer of the slot belongs to the request of the item.
-/

namespace QHGPU.Kernel

variable {s s' : State} {a : Act} {t : Tid} {c : SyncCall} {i j : ItemId} {r : ReqId}

/-- The item was enqueued; its callback was not called yet, or the synchronous call it belongs to
has not given its slot back. -/
def State.Open (s : State) (j : ItemId) : Prop :=
  j ∈ s.enqueued ∧
    (j ∉ s.called ∨ ∃ t c p, s.threads t = .sync c p ∧ p ≠ .ret ∧ c.item = j)

/-- The slot of an item. -/
def State.slot (s : State) (j : ItemId) : Int := (s.request (s.itemReq j)).id

/-- An open item has been allocated. -/
theorem Numbered.lt_of_open (h : Numbered s) (hj : s.Open j) : j < s.nextItem :=
  h.lt_of_enqueued hj.1

/-- An item that waits for its response is open. -/
theorem open_of_waiting (h : Numbered s) (hj : s.Waiting j) : s.Open j :=
  ⟨hj.1, Or.inl fun hcalled ↦ hj.2 (h.conserved.called hcalled).1⟩

/-- An item that a response has found, up to the call of its callback. -/
theorem Numbered.open_of_removed (h : Numbered s) (ht : (s.threads t).removed = some j) :
    j ∈ s.completed ∧ j ∉ s.called ∧ s.Open j := by
  obtain ⟨hen, hcalled⟩ := h.conserved.of_removed ht
  exact ⟨h.conserved.completed_of_removed ht, hcalled, hen, Or.inl hcalled⟩

/-- What is about to be enqueued is not enqueued yet. -/
theorem Numbered.not_enqueued (h : Numbered s) (hj : (s.threads t).enqueues = some j) :
    j ∉ s.enqueued := by
  have hpend : (s.threads t).pending = some j := by
    cases hpc : s.threads t with
    | sync c p =>
      rw [hpc] at hj
      cases p <;> first
        | exact hj
        | cases hj
    | asyncEnqueue i =>
      rw [hpc] at hj
      exact hj
    | _ =>
      rw [hpc] at hj
      cases hj
  exact (h.conserved.pending hpend).2

/-- A thread that goes on outside `qhgpu_call_sync` opens nothing. -/
theorem open_of_goto {pc : Pc} (hpc : pc.syncCall = none) (h : (s.goto t pc).Open j) :
    s.Open j := by
  refine ⟨h.1, h.2.imp id ?_⟩
  rintro ⟨t', c, p, ht', hp⟩
  rw [State.threads_goto] at ht'
  split at ht'
  · rw [ht'] at hpc
    cases hpc
  · exact ⟨t', c, p, ht', hp⟩

/-! ### What a step changes -/

/-- An item keeps its slot. -/
theorem Trans.slot (h : Trans s a s') (hn : Numbered s) (hj : j < s.nextItem) :
    s'.slot j = s.slot j := by
  rw [State.slot, State.slot, h.itemReq_eq hj]
  exact (h.slot_eq (hn.itemReq_lt j hj)).1

/-- A step leaves the answered items alone, or it finds the item of a response. -/
theorem Trans.completed_cases (h : Trans s a s') : s'.completed = s.completed ∨
    ∃ t count resp i, a = .step t ∧ s.threads t = .writeFind count resp ∧
      findRequest s resp.id = some i ∧ s'.completed = s.completed ++ [i] := by
  cases h with
  | writeFind ht hfind => exact Or.inr ⟨_, _, _, _, rfl, ht, hfind, rfl⟩
  | _ => exact Or.inl rfl

/-- A step leaves the items called back alone, or it calls a callback. -/
theorem Trans.called_cases (h : Trans s a s') : s'.called = s.called ∨
    ∃ t count i, a = .step t ∧ s.threads t = .write i count .callback ∧
      s'.called = s.called ++ [i] := by
  cases h with
  | callClient ht => exact Or.inr ⟨_, _, _, rfl, ht, rfl⟩
  | callSyncCallback ht => exact Or.inr ⟨_, _, _, rfl, ht, rfl⟩
  | _ => exact Or.inl rfl

/-- A thread has a record for its reader from the time it takes the item. -/
theorem Trans.hand_cases (h : Trans s (.step t) s') {kureq : QhgpuKuRequest}
    (ht : (s'.threads t).kuRequest = some kureq) :
    (∃ i count, s.threads t = .readHand i count kureq ∧
      s'.threads t = .readReturn count.val (some kureq) ∧ s'.taken = s.taken) ∨
      ∃ i count nonblock stack, s.threads t = .readLock count nonblock stack ∧
        s'.threads t = .readHand i count kureq ∧ s'.taken = s.taken ++ [i] ∧
        kureq = fillKuRequest s.gmpool stack (s.request (s.itemReq i)) := by
  cases h with
  | readEmpty _ _ hpc =>
    rw [State.threads_goto_self] at ht
    rcases hpc with rfl | rfl <;> cases ht
  | readTake ht' hreqs hkureq =>
    rw [State.threads_goto_self] at ht
    obtain rfl := Option.some.inj ht
    exact Or.inr ⟨_, _, _, _, ht', State.threads_goto_self .., rfl, hkureq⟩
  | readPut ht' | readDrop ht' =>
    rw [State.threads_goto_self] at ht
    obtain rfl := Option.some.inj ht
    exact Or.inl ⟨_, _, ht', State.threads_goto_self .., rfl⟩
  | _ =>
    rw [State.threads_goto_self] at ht
    cases ht

/-- A thread was in its synchronous call before, not yet at the return. -/
theorem Trans.sync_cases (h : Trans s a s') {p : SyncPhase} (ht : s'.threads t = .sync c p)
    (hp : p ≠ .ret) : (∃ p', s.threads t = .sync c p' ∧ p' ≠ .ret) ∨ c.item = s.nextItem := by
  have hcall : (s'.threads t).syncCall = some c := by rw [ht]; rfl
  rcases h.syncCall hcall with hold | ⟨_, _, hnew, _⟩
  · obtain ⟨p', hp'⟩ := syncCall_eq_some hold
    refine Or.inl ⟨p', hp', ?_⟩
    rintro rfl
    by_cases htid : a.tid = some t
    · cases h with
      | alloc | fill | returnMmap => cases htid
      | syncReturn =>
        obtain rfl := Option.some.inj htid
        rw [State.threads_goto_self] at ht
        cases ht
      | callSync ht' | syncRefused ht' | syncNoItem ht' | callAsync ht' | asyncRefused ht'
      | read ht' | writeShort ht' | write ht' | setKdata ht' | setCallback ht' | syncEnqueue ht'
      | wait ht' | restoreKdata ht' | restoreKdataStale ht' | restoreCallback ht'
      | restoreCallbackStale ht' | free ht' | syncReturnMmap ht' | asyncEnqueue ht'
      | readEmpty ht' | readTake ht' | readWake ht' | readPut ht' | readDrop ht' | readReturn ht'
      | writeMiss ht' | writeFind ht' | writeErrcode ht' | callClient ht' | callSyncCallback ht'
      | clientDone ht' | callbackKdata ht' | callbackDone ht' | callbackDoneStale ht'
      | callbackWake ht' | callbackWakeStale ht' | writeReturn ht' | signalSync ht'
      | signalRead ht' =>
        obtain rfl := Option.some.inj htid
        rw [hp'] at ht'
        cases ht'
    · rw [h.threads_of_ne htid, hp'] at ht
      exact hp (Pc.sync.inj ht).2.symm
  · exact Or.inr (by rw [hnew])

/-- An item is open from its enqueueing on. -/
theorem Trans.open_cases (h : Trans s a s') (hn : Numbered s) (hj : s'.Open j) : s.Open j ∨
    ∃ t, a = .step t ∧ (s.threads t).enqueues = some j ∧ s'.enqueued = s.enqueued ++ [j] := by
  obtain ⟨hen, hopen⟩ := hj
  have old (hen : j ∈ s.enqueued) : s.Open j := by
    refine ⟨hen, ?_⟩
    rcases hopen with hcalled | ⟨t, c, p, ht, hp, rfl⟩
    · left
      intro hmem
      apply hcalled
      rcases h.called_cases with heq | ⟨_, _, _, _, _, heq⟩
      · rw [heq]
        exact hmem
      · rw [heq]
        exact List.mem_append_left _ hmem
    · rcases h.sync_cases ht hp with ⟨p', ht', hp'⟩ | hnew
      · exact Or.inr ⟨t, c, p', ht', hp', rfl⟩
      · exact absurd hnew (Nat.ne_of_lt (hn.lt_of_enqueued hen))
  rcases h.enqueued_cases with heq | ⟨t, i, rfl, hi, heq⟩
  · rw [heq] at hen
    exact Or.inl (old hen)
  · rw [heq] at hen
    rcases List.mem_append.mp hen with hen | hen
    · exact Or.inl (old hen)
    · obtain rfl := List.mem_singleton.mp hen
      exact Or.inr ⟨t, rfl, hi, heq⟩

/-- What the daemon would be sent of a request changes only when the client fills it in. -/
theorem Trans.record_eq (h : Trans s a s') (hr : r < s.nextReq) (hfill : ∀ f, a ≠ .fill r f)
    (gmp : QhgpuMempool) (stack : QhgpuKuRequest) :
    fillKuRequest gmp stack (s'.request r) = fillKuRequest gmp stack (s.request r) := by
  have keep {r' : ReqId} {req : QhgpuRequest}
      (h : fillKuRequest gmp stack req = fillKuRequest gmp stack (s.request r')) :
      fillKuRequest gmp stack (Function.update s.request r' req r) =
        fillKuRequest gmp stack (s.request r) := by
    by_cases hr : r = r'
    · subst hr
      rw [Function.update_self, h]
    · rw [Function.update_of_ne hr]
  cases h with
  | alloc =>
    dsimp only
    rw [Function.update_of_ne (Nat.ne_of_lt hr)]
  | @fill r' f =>
    have hne : r ≠ r' := by
      rintro rfl
      exact hfill f rfl
    rw [State.setRequest]
    dsimp only
    rw [Function.update_of_ne hne]
  | setKdata | setCallback | restoreKdata | restoreCallback | writeErrcode =>
    apply keep
    rfl
  | _ => rfl

/-- An error code is stored by a `qhgpu_write` for its item only. -/
theorem Trans.errcode_cases (h : Trans s a s') (hr : r < s.nextReq) :
    (s'.request r).errcode = (s.request r).errcode ∨
      ∃ t i count e, a = .step t ∧ s.threads t = .write i count (.errcode e) ∧ s.itemReq i = r := by
  have keep {r' : ReqId} {req : QhgpuRequest} (h : req.errcode = (s.request r').errcode) :
      (Function.update s.request r' req r).errcode = (s.request r).errcode := by
    by_cases hr : r = r'
    · subst hr
      rw [Function.update_self, h]
    · rw [Function.update_of_ne hr]
  cases h with
  | alloc =>
    dsimp only
    rw [Function.update_of_ne (Nat.ne_of_lt hr)]
    exact Or.inl rfl
  | fill => exact Or.inl (keep rfl)
  | setKdata | setCallback | restoreKdata | restoreCallback => exact Or.inl (keep rfl)
  | @writeErrcode t i count e ht =>
    by_cases heq : r = s.itemReq i
    · exact Or.inr ⟨t, i, count, e, rfl, ht, heq.symm⟩
    · left
      rw [State.goto, State.setRequest]
      dsimp only
      rw [Function.update_of_ne heq]
  | _ => exact Or.inl rfl

end QHGPU.Kernel
