import QHGPU.Kernel.Transitions
import QHGPU.Library.HandOff
import QHGPU.Library.StepRun

/-!
# Nothing is lost between the queues

The two queues and the threads between them, read as a hand-over of items: every step of the
driver is an action of `HandOff` or leaves its state alone.
-/

namespace QHGPU.Kernel

/-! ### The driver as a hand-over -/

/-- The item that the thread has allocated and not enqueued. -/
def Pc.pending : Pc → Option ItemId
  | .sync c .setKdata | .sync c .setCallback | .sync c .enqueue => some c.item
  | .asyncEnqueue i => some i
  | _ => none

/-- The item that the thread has taken off `reqs` and not put on `rtdreqs`. -/
def Pc.inHand : Pc → Option ItemId
  | .readHand i _ _ => some i
  | _ => none

/-- The item that the thread has found and whose callback it has not called. -/
def Pc.removed : Pc → Option ItemId
  | .write i _ (.errcode _) | .write i _ .callback => some i
  | _ => none

/-- The item whose callback the thread has called, up to the end of `qhgpu_write`. -/
def Pc.calling : Pc → Option ItemId
  | .write i _ .client | .write i _ .kdata | .write i _ (.done _) | .write i _ (.wake _)
  | .write i _ .free => some i
  | _ => none

/-- The items a thread is busy with, of each kind. -/
def Pc.slots (pc : Pc) : Option ItemId × Option ItemId × Option ItemId × Option ItemId :=
  (pc.pending, pc.inHand, pc.removed, pc.calling)

/-- The hand-over behind a state. -/
def State.handOff (s : State) : HandOff.State ItemId Tid where
  issued i := i < s.nextItem
  pending t := (s.threads t).pending
  queue := s.reqs
  inHand t := (s.threads t).inHand
  delivered := s.rtdreqs
  removed t := (s.threads t).removed
  calling t := (s.threads t).calling
  enqueued := s.enqueued
  taken := s.taken
  dropped := s.dropped
  completed := s.completed
  called := s.called
  finished := s.finished

variable {s s' : State} {t : Tid} {pc : Pc}

private theorem slots_eq {p h r c : Option ItemId} (hpc : pc.slots = (p, h, r, c)) :
    pc.pending = p ∧ pc.inHand = h ∧ pc.removed = r ∧ pc.calling = c := by
  simpa [Pc.slots] using hpc

private theorem goto_slot (f : Pc → Option ItemId) (s : State) (t : Tid) (pc : Pc) :
    (fun t' ↦ f ((s.goto t pc).threads t')) =
      Function.update (fun t' ↦ f (s.threads t')) t (f pc) :=
  Function.comp_update f s.threads t pc

/-- A thread that moves on changes the slots of its own only. -/
theorem handOff_goto {p h r c : Option ItemId} (hpc : pc.slots = (p, h, r, c)) :
    (s.goto t pc).handOff =
      { s.handOff with
        pending := Function.update (fun t ↦ (s.threads t).pending) t p
        inHand := Function.update (fun t ↦ (s.threads t).inHand) t h
        removed := Function.update (fun t ↦ (s.threads t).removed) t r
        calling := Function.update (fun t ↦ (s.threads t).calling) t c } := by
  obtain ⟨rfl, rfl, rfl, rfl⟩ := slots_eq hpc
  simp only [State.handOff, goto_slot]
  rfl

/-- Writing back what a thread has changes nothing. -/
private theorem update_slot {f : Pc → Option ItemId} {v : Option ItemId}
    (h : f (s.threads t) = v) :
    Function.update (fun t ↦ f (s.threads t)) t v = fun t ↦ f (s.threads t) := by
  rw [← h, Function.update_eq_self]

/-- A thread that stays busy with the same items changes nothing. -/
theorem handOff_goto_same {old : Pc} (ht : s.threads t = old) (h : old.slots = pc.slots) :
    (s.goto t pc).handOff = s.handOff := by
  subst ht
  obtain ⟨hp, hh, hr, hc⟩ := slots_eq h
  rw [handOff_goto rfl, update_slot hp, update_slot hh, update_slot hr, update_slot hc]
  rfl

section Actions

variable {old : Pc} {i : ItemId} (ht : s.threads t = old)

include ht

/-- Both calls issue the item they allocate. -/
private theorem issue_step (hold : old.slots = (none, none, none, none))
    (hpc : pc.slots = (some s.nextItem, none, none, none)) (hs' : s'.threads = s.threads)
    (hh' : s'.handOff = { s.handOff with issued := fun i ↦ i < s.nextItem + 1 }) :
    HandOff.Step s.handOff (s'.goto t pc).handOff := by
  subst ht
  obtain ⟨hp, hh, hr, hc⟩ := slots_eq hold
  have hissued : (fun i ↦ i < s.nextItem + 1) = fun i ↦ i = s.nextItem ∨ s.handOff.issued i :=
    funext fun i ↦ propext (Nat.lt_succ_iff_lt_or_eq.trans Or.comm)
  rw [handOff_goto hpc, hh', hs', hissued, update_slot hh, update_slot hr, update_slot hc]
  exact .issue (Nat.lt_irrefl _) hp

/-- The locked section that both calls share. -/
private theorem enqueue_step (hold : old.slots = (some i, none, none, none))
    (hpc : pc.slots = (none, none, none, none)) :
    HandOff.Step s.handOff ((s.enqueue i).goto t pc).handOff := by
  subst ht
  obtain ⟨hp, hh, hr, hc⟩ := slots_eq hold
  rw [handOff_goto hpc, State.enqueue]
  dsimp only
  rw [update_slot hh, update_slot hr, update_slot hc]
  exact .enqueue hp

/-- The first locked section of `qhgpu_read`. -/
private theorem take_step {rest : List ItemId} (hreqs : s.reqs = i :: rest)
    (hold : old.slots = (none, none, none, none)) (hpc : pc.slots = (none, some i, none, none)) :
    HandOff.Step s.handOff
      ({ s with reqs := rest, taken := s.taken ++ [i] }.goto t pc).handOff := by
  subst ht
  obtain ⟨hp, hh, hr, hc⟩ := slots_eq hold
  rw [handOff_goto hpc]
  dsimp only
  rw [update_slot hp, update_slot hr, update_slot hc]
  exact .take hreqs hh

/-- Its second locked section. -/
private theorem put_step (hold : old.slots = (none, some i, none, none))
    (hpc : pc.slots = (none, none, none, none)) :
    HandOff.Step s.handOff ({ s with rtdreqs := s.rtdreqs ++ [i] }.goto t pc).handOff := by
  subst ht
  obtain ⟨hp, hh, hr, hc⟩ := slots_eq hold
  rw [handOff_goto hpc]
  dsimp only
  rw [update_slot hp, update_slot hr, update_slot hc]
  exact .put hh

/-- Its end when the caller asked for nothing. -/
private theorem drop_step (hold : old.slots = (none, some i, none, none))
    (hpc : pc.slots = (none, none, none, none)) :
    HandOff.Step s.handOff ({ s with dropped := s.dropped ++ [i] }.goto t pc).handOff := by
  subst ht
  obtain ⟨hp, hh, hr, hc⟩ := slots_eq hold
  rw [handOff_goto hpc]
  dsimp only
  rw [update_slot hp, update_slot hr, update_slot hc]
  exact .drop hh

/-- `find_request` with a result. -/
private theorem remove_step (hi : i ∈ s.rtdreqs) (hold : old.slots = (none, none, none, none))
    (hpc : pc.slots = (none, none, some i, none)) :
    HandOff.Step s.handOff ({ s with
      rtdreqs := s.rtdreqs.erase i
      completed := s.completed ++ [i] }.goto t pc).handOff := by
  subst ht
  obtain ⟨hp, hh, hr, hc⟩ := slots_eq hold
  rw [handOff_goto hpc]
  dsimp only
  rw [update_slot hp, update_slot hh, update_slot hc]
  exact .remove hi hr

/-- The call of the callback. -/
private theorem call_step (hold : old.slots = (none, none, some i, none))
    (hpc : pc.slots = (none, none, none, some i)) :
    HandOff.Step s.handOff ({ s with called := s.called ++ [i] }.goto t pc).handOff := by
  subst ht
  obtain ⟨hp, hh, hr, hc⟩ := slots_eq hold
  rw [handOff_goto hpc]
  dsimp only
  rw [update_slot hp, update_slot hh]
  exact .call hr hc

/-- The end of a successful `qhgpu_write`. -/
private theorem finish_step {ret : Int} (hold : old.slots = (none, none, none, some i))
    (hpc : pc.slots = (none, none, none, none)) :
    HandOff.Step s.handOff ({ s with
      writeReturns := s.writeReturns ++ [ret]
      finished := s.finished ++ [i] }.goto t pc).handOff := by
  subst ht
  obtain ⟨hp, hh, hr, hc⟩ := slots_eq hold
  rw [handOff_goto hpc]
  dsimp only
  rw [update_slot hp, update_slot hh, update_slot hr]
  exact .finish hc

end Actions

/-- `find_request` returns an item of `rtdreqs`. -/
theorem findRequest_mem {id : Int} {i : ItemId} (h : findRequest s id = some i) :
    i ∈ s.rtdreqs := List.mem_of_find?_eq_some h

/-- A step of the driver is an action of the hand-over or does not change it. -/
theorem Trans.refines {a : Act} (h : Trans s a s') :
    s'.handOff = s.handOff ∨ HandOff.Step s.handOff s'.handOff := by
  -- a step that leaves all items where they are
  have same {u : State} {t : Tid} {old pc : Pc} (hu : u.handOff = s.handOff)
      (ht : u.threads t = old) (hslots : old.slots = pc.slots) :
      (u.goto t pc).handOff = s.handOff ∨ HandOff.Step s.handOff (u.goto t pc).handOff :=
    Or.inl ((handOff_goto_same ht hslots).trans hu)
  cases h with
  | alloc => exact Or.inl rfl
  | fill => exact Or.inl rfl
  | returnMmap => exact Or.inl rfl
  | syncRefused => exact Or.inl rfl
  | syncNoItem => exact Or.inl rfl
  | callSync ht hr hc =>
    subst hc
    exact Or.inr (issue_step ht rfl rfl rfl rfl)
  | asyncRefused => exact Or.inl rfl
  | callAsync ht => exact Or.inr (issue_step ht rfl rfl rfl rfl)
  | read ht => exact same rfl ht rfl
  | writeShort => exact Or.inl rfl
  | write ht | setKdata ht | setCallback ht =>
    exact same rfl ht rfl
  | syncEnqueue ht => exact Or.inr (enqueue_step ht rfl rfl)
  | wait ht | restoreKdata ht | restoreKdataStale ht | restoreCallback ht
  | restoreCallbackStale ht | free ht | syncReturnMmap ht | syncReturn ht =>
    exact same rfl ht rfl
  | asyncEnqueue ht => exact Or.inr (enqueue_step ht rfl rfl)
  | readEmpty ht _ hpc =>
    rcases hpc with rfl | rfl
    · exact same rfl ht rfl
    · exact same rfl ht rfl
  | readTake ht hreqs => exact Or.inr (take_step ht hreqs rfl rfl)
  | readWake ht => exact same rfl ht rfl
  | readPut ht => exact Or.inr (put_step ht rfl rfl)
  | readDrop ht => exact Or.inr (drop_step ht rfl rfl)
  | readReturn ht | writeMiss ht =>
    exact same rfl ht rfl
  | writeFind ht hfind => exact Or.inr (remove_step ht (findRequest_mem hfind) rfl rfl)
  | writeErrcode ht => exact same rfl ht rfl
  | callClient ht | callSyncCallback ht =>
    exact Or.inr (call_step ht rfl rfl)
  | clientDone ht | callbackKdata ht | callbackDone ht | callbackDoneStale ht
  | callbackWake ht | callbackWakeStale ht =>
    exact same rfl ht rfl
  | writeReturn ht => exact Or.inr (finish_step ht rfl rfl)
  | signalSync ht | signalRead ht =>
    exact same rfl ht rfl

/-- At the start there is no item. -/
theorem conserved_start (n : Nat) (arr : Int → Word) (pool : QhgpuMempool) :
    HandOff.Conserved (State.start n arr pool).handOff := by
  have h : (State.start n arr pool).handOff = .start := by
    rw [State.handOff, HandOff.State.start]
    congr 1
    funext i
    exact propext (iff_of_false (Nat.not_lt_zero i) not_false)
  rw [h]
  exact HandOff.conserved_start

/-- Every step of the driver conserves the items. -/
theorem Trans.conserved {a : Act} (h : Trans s a s') (hs : HandOff.Conserved s.handOff) :
    HandOff.Conserved s'.handOff := by
  rcases h.refines with heq | hact
  · rw [heq]
    exact hs
  · exact hact.conserved hs

/-! ### The invariant -/

/-- Readers ask for a whole request, and no shorter response than a whole one is looked at. -/
def Pc.countOk : Pc → Prop
  | .readLock count _ _ | .readWait count _ _ | .readHand _ count _ =>
    sizeofKuRequest ≤ count.val
  | .writeFind count _ | .write _ count _ => sizeofKuResponse ≤ count.val
  | _ => True

/-- The count of a `qhgpu_read` covers `struct qhgpu_ku_request`. -/
def Act.ReadFits : Act → Prop
  | .read _ count _ _ => sizeofKuRequest ≤ count.val
  | _ => True

/-- The invariant of the queues when all reads fit. -/
structure QueueInv (s : State) : Prop where
  conserved : HandOff.Conserved s.handOff
  counts : ∀ t, (s.threads t).countOk
  dropped : s.dropped = []
  returns : s.writeReturns.countP (0 < ·) = s.finished.length

private theorem countOk_goto {u : State} {pc : Pc} (h : ∀ t, (u.threads t).countOk)
    (hpc : pc.countOk) (t' : Tid) : ((u.goto t pc).threads t').countOk := by
  rw [State.threads_goto]
  split
  · exact hpc
  · exact h t'

/-- Counts that cover their structure keep doing so. -/
theorem Trans.counts {a : Act} (h : Trans s a s') (ha : a.ReadFits)
    (hs : ∀ t, (s.threads t).countOk) : ∀ t, (s'.threads t).countOk := by
  -- a thread goes on with the count it has
  have keep {u : State} {t : Tid} {old pc : Pc} (hu : u.threads = s.threads)
      (ht : s.threads t = old) (hpc : old.countOk → pc.countOk) :
      ∀ t', ((u.goto t pc).threads t').countOk := by
    refine countOk_goto (hu ▸ hs) (hpc ?_)
    rw [← ht]
    exact hs t
  cases h with
  | alloc | fill | returnMmap | syncRefused | syncNoItem | asyncRefused | writeShort => exact hs
  | read => exact countOk_goto hs ha
  | write _ hcount => exact countOk_goto hs hcount
  | readTake ht | readWake ht =>
    exact keep rfl ht id
  | readEmpty ht _ hpc =>
    rcases hpc with rfl | rfl
    · exact countOk_goto hs trivial
    · exact keep rfl ht id
  | writeFind ht | writeErrcode ht | callClient ht | callSyncCallback ht | clientDone ht
  | callbackKdata ht | callbackDone ht | callbackDoneStale ht | callbackWake ht
  | callbackWakeStale ht =>
    exact keep rfl ht id
  | _ => exact countOk_goto hs trivial

/-- No item is dropped by a reader that asked for something. -/
theorem Trans.dropped {a : Act} (h : Trans s a s') (hc : ∀ t, (s.threads t).countOk)
    (hs : s.dropped = []) : s'.dropped = [] := by
  cases h with
  | @readDrop t i count kureq ht hcount =>
    have hlarge : sizeofKuRequest ≤ count.val := by
      have := hc t
      rw [ht] at this
      exact this
    rw [hcount] at hlarge
    exact absurd hlarge (by decide)
  | _ => exact hs

/-- `qhgpu_write` returns a positive value exactly when it has finished an item. -/
theorem Trans.returns {a : Act} (h : Trans s a s') (hc : ∀ t, (s.threads t).countOk)
    (hs : s.writeReturns.countP (0 < ·) = s.finished.length) :
    s'.writeReturns.countP (0 < ·) = s'.finished.length := by
  cases h with
  | writeShort =>
    rw [List.countP_append, hs]
    rfl
  | writeMiss =>
    refine (List.countP_append ..).trans ?_
    rw [hs]
    rfl
  | @writeReturn t i count ht =>
    have hcount : sizeofKuResponse ≤ count.val := by
      have := hc t
      rw [ht] at this
      exact this
    have hpos : (0 : Int) < count.val := by
      rw [sizeofKuResponse] at hcount
      omega
    refine (List.countP_append ..).trans ?_
    rw [hs, List.countP_singleton, if_pos (decide_eq_true hpos)]
    exact (List.length_append : (s.finished ++ [i]).length = _).symm
  | _ => exact hs

private theorem queueInv_start (n : Nat) (arr : Int → Word) (pool : QhgpuMempool) :
    QueueInv (.start n arr pool) where
  conserved := conserved_start n arr pool
  counts _ := trivial
  dropped := rfl
  returns := rfl

/-- Every state of a run whose reads ask for a whole request satisfies the invariant. -/
theorem queueInv_of_run {acts : List Act} (hs : QueueInv s) (hreads : ∀ a ∈ acts, a.ReadFits)
    (h : StepRun.run step s acts = some s') : QueueInv s' := by
  induction acts generalizing s with
  | nil =>
    obtain rfl := Option.some.inj h
    exact hs
  | cons a acts ih =>
    obtain ⟨u, ha, hrest⟩ := StepRun.run_cons_iff.mp h
    have hfits := hreads a List.mem_cons_self
    have htrans := trans_of_step ha
    have hu : QueueInv u := ⟨htrans.conserved hs.conserved, htrans.counts hfits hs.counts,
      htrans.dropped hs.counts hs.dropped, htrans.returns hs.counts hs.returns⟩
    exact ih hu (fun b hb ↦ hreads b (List.mem_cons_of_mem a hb)) hrest

/-! ### Conservation -/

/-- Where an enqueued item can be. -/
inductive Site where
  | reqs
  | hand (t : Tid)
  | rtdreqs
  | completed

/-- The item is there; in a hand means between the two locked sections of `qhgpu_read`. -/
def State.At (s : State) (i : ItemId) : Site → Prop
  | .reqs => i ∈ s.reqs
  | .hand t => ∃ count kureq, s.threads t = .readHand i count kureq
  | .rtdreqs => i ∈ s.rtdreqs
  | .completed => i ∈ s.completed

/-- The thread is inside `qhgpu_write`. -/
def Pc.writing : Pc → Bool
  | .writeFind _ _ | .write _ _ _ => true
  | _ => false

/-- The site as the hand-over names it. -/
def Site.toHandOff : Site → HandOff.Site Tid
  | .reqs => .queue
  | .hand t => .inHand t
  | .rtdreqs => .delivered
  | .completed => .completed

private theorem at_toHandOff (s : State) (i : ItemId) (site : Site) :
    s.handOff.At i site.toHandOff ↔ s.At i site := by
  cases site with
  | reqs => exact Iff.rfl
  | rtdreqs => exact Iff.rfl
  | completed => exact Iff.rfl
  | hand t =>
    change (s.threads t).inHand = some i ↔ ∃ count kureq, s.threads t = .readHand i count kureq
    cases s.threads t <;> simp [Pc.inHand]

/-- In every run whose reads ask for at least a whole request: an enqueued item is at exactly
one site and no list repeats an item; items leave `reqs` in the order of the locked sections
that enqueued them, each at most once; a callback is called at most once for each item, and
while nobody is inside `qhgpu_write` as often as `qhgpu_write` has succeeded. -/
theorem queues_conserved (n : Nat) (arr : Int → Word) (pool : QhgpuMempool) (acts : List Act)
    (s : State) (hreads : ∀ a ∈ acts, a.ReadFits)
    (h : StepRun.run step (.start n arr pool) acts = some s) :
    (∀ i ∈ s.enqueued, ∃! site, s.At i site) ∧
      (s.enqueued.Nodup ∧ s.rtdreqs.Nodup ∧ s.completed.Nodup) ∧
      (s.enqueued = s.taken ++ s.reqs ∧ s.taken.Nodup) ∧ s.called.Nodup ∧
      ((∀ t, (s.threads t).writing = false) →
        s.called.length = s.writeReturns.countP (0 < ·)) := by
  have hinv := queueInv_of_run (queueInv_start n arr pool) hreads h
  have hcons := hinv.conserved
  refine ⟨?_, ⟨hcons.ordered.enqueued, hcons.ordered.delivered, hcons.ordered.completed⟩,
    ⟨hcons.ordered.fifo, hcons.taken_nodup⟩, hcons.ordered.called, ?_⟩
  · intro i hi
    obtain ⟨site, hsite, huniq⟩ := hcons.existsUnique_site (i := i) hi
    have hback : ∃ site', Site.toHandOff site' = site := by
      cases site with
      | queue => exact ⟨.reqs, rfl⟩
      | inHand t => exact ⟨.hand t, rfl⟩
      | dropped =>
        change i ∈ s.dropped at hsite
        rw [hinv.dropped] at hsite
        cases hsite
      | delivered => exact ⟨.rtdreqs, rfl⟩
      | completed => exact ⟨.completed, rfl⟩
    obtain ⟨site, rfl⟩ := hback
    refine ⟨site, (at_toHandOff s i site).mp hsite, ?_⟩
    intro site' hsite'
    have := huniq _ ((at_toHandOff s i site').mpr hsite')
    cases site <;> cases site' <;> simp_all [Site.toHandOff]
  · intro hidle
    rw [hinv.returns]
    refine hcons.length_called ?_
    intro t
    have := hidle t
    change (s.threads t).calling = none
    cases hpc : s.threads t with
    | write i count p =>
      rw [hpc] at this
      cases this
    | _ => rfl

/-- One request goes through both queues. -/
theorem queues_conserved_roundTrip : ∃ s,
    StepRun.run step (.start 1 (fun _ ↦ 0) .zeroed) (submitAndRead ++ writeBack ⟨0, 0⟩) = some s ∧
      s.completed = [0] ∧ s.writeReturns = [8] ∧ s.threads 0 = .idle ∧ ∃! site, s.At 0 site := by
  have hreads : ∀ a ∈ submitAndRead ++ writeBack ⟨0, 0⟩, a.ReadFits := by
    simp [submitAndRead, writeBack, Act.ReadFits, kuRequestCount]
  refine ⟨_, rfl, rfl, rfl, rfl, ?_⟩
  exact (queues_conserved 1 (fun _ ↦ 0) .zeroed (submitAndRead ++ writeBack ⟨0, 0⟩) _ hreads
    rfl).1 0 (by decide)

end QHGPU.Kernel
