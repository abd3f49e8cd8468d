import QHGPU.Kernel.Lifecycle

/-!
# When slots come back

`qhgpu_call_sync` gives the slot of its request back; neither the completion of a
`qhgpu_call_async` nor `qhgpu_free_request` does.
-/

namespace QHGPU.Kernel

/-- The callback of an item of the request has run, and no `qhgpu_call_sync` on it is in
progress. -/
def State.Answered (s : State) (r : ReqId) : Prop :=
  (∃ i ∈ s.called, s.itemReq i = r) ∧ ∀ t c, (s.threads t).syncCall = some c → c.req ≠ r

/-- The allocation of a request. -/
def LifeAct.isAlloc : LifeAct → Bool
  | .alloc _ _ _ => true
  | _ => false

/-- All slots are free, and the next allocations, one for each slot, get them in turn. -/
structure SlotsBack (l : Lifecycle) : Prop where
  free : ∀ i : Nat, i < l.kernel.moduleCnt → l.kernel.moduleActiveChecker i = 0
  reusable : ∀ (allocs : List LifeAct) (l' : Lifecycle),
    (∀ a ∈ allocs, a.isAlloc = true) → allocs.length = l.kernel.moduleCnt →
      StepRun.run lifeStep l allocs = some l' →
        ∀ k : Nat, k < l.kernel.moduleCnt → (l'.kernel.request (l.kernel.nextReq + k)).id = k

/-- No slot is lost once every request was answered and freed. -/
def NoLeak (l : Lifecycle) : Prop :=
  (∀ r < l.kernel.nextReq, l.kernel.Answered r ∧ l.freed r = true) → SlotsBack l

/-- A request is freed after its slot was given back. -/
def FreeOk (l : Lifecycle) : LifeAct → Prop
  | .free r => l.kernel.released r = true
  | _ => True

/-! ### Further allocations -/

/-- The first `m` slots are in use, and no other. -/
def State.Taken (s : State) (m : Nat) : Prop :=
  ∀ i : Nat, i < s.moduleCnt → (s.moduleActiveChecker i = 0 ↔ m ≤ i)

/-- An allocation takes the slot after those in use. -/
theorem State.Taken.allocFrom {s : State} {m : Nat} (h : s.Taken m) (hm : m < s.moduleCnt)
    (dataSize : Int) (serviceName : List UInt8) (o : QhgpuRequest) :
    ((allocFrom s dataSize serviceName o).request s.nextReq).id = m ∧
      (allocFrom s dataSize serviceName o).Taken (m + 1) := by
  obtain ⟨_, hcnt, _, _, hid, hchecker⟩ := allocFrom_spec s dataSize serviceName o
  rcases mmapId_cases s with ⟨k, hk, hfree, hleast, heq⟩ | ⟨hfull, _⟩
  · have hle := (h k hk).mp hfree
    have hkm : k = m := by
      by_contra hne
      exact hleast m (by omega) ((h m hm).mpr (Nat.le_refl m))
    subst hkm
    rw [heq] at hid hchecker
    refine ⟨hid, ?_⟩
    intro i hi
    rw [hcnt] at hi
    rw [hchecker]
    dsimp only
    by_cases hik : i = k
    · subst hik
      rw [Function.update_self]
      omega
    · rw [Function.update_of_ne (by omega), h i hi]
      omega
  · exact absurd ((h m hm).mpr (Nat.le_refl m)) (hfull m hm)

variable {l l' : Lifecycle} {a : LifeAct}

/-- The allocations of a run get the slots that follow, and later ones do not change them. -/
theorem id_of_allocs {allocs : List LifeAct} {m : Nat} (h : l.kernel.Taken m)
    (hall : ∀ a ∈ allocs, a.isAlloc = true) (hlen : m + allocs.length ≤ l.kernel.moduleCnt)
    (hrun : StepRun.run lifeStep l allocs = some l') :
    (∀ r < l.kernel.nextReq, l'.kernel.request r = l.kernel.request r) ∧
      ∀ k : Nat, k < allocs.length →
        (l'.kernel.request (l.kernel.nextReq + k)).id = (m + k : Nat) := by
  induction allocs generalizing l m with
  | nil =>
    obtain rfl := Option.some.inj hrun
    refine ⟨fun _ _ ↦ rfl, ?_⟩
    intro k hk
    cases hk
  | cons a allocs ih =>
    obtain ⟨l₁, hstep, hrest⟩ := StepRun.run_cons_iff.mp hrun
    have htrans := lifeTrans_of_step hstep
    have ha := hall a List.mem_cons_self
    rw [List.length_cons] at hlen
    cases htrans with
    | free => cases ha
    | kernel => cases ha
    | @alloc dataSize serviceName src o slab ho =>
      obtain ⟨hid, htaken⟩ := h.allocFrom (by omega) dataSize serviceName o
      obtain ⟨hnext, hcnt, _, hold, _⟩ := allocFrom_spec l.kernel dataSize serviceName o
      obtain ⟨hkeep, hids⟩ := ih htaken (fun b hb ↦ hall b (List.mem_cons_of_mem _ hb))
        (by dsimp only; omega) hrest
      dsimp only at hkeep hids
      rw [hnext] at hkeep hids
      refine ⟨?_, ?_⟩
      · intro r hr
        rw [hkeep r (Nat.lt_succ_of_lt hr)]
        exact hold r hr
      · intro k hk
        cases k with
        | zero =>
          rw [Nat.add_zero, Nat.add_zero, hkeep _ (Nat.lt_succ_self _)]
          exact hid
        | succ k =>
          have hnextid := hids k (Nat.lt_of_succ_lt_succ hk)
          rw [Nat.add_right_comm, Nat.add_right_comm m] at hnextid
          exact hnextid

/-! ### Accounting -/

/-- A slot in use belongs to a request that has not given it back, and a freed request has. -/
structure SlotAccount (n : Nat) (l : Lifecycle) : Prop where
  numbered : Numbered l.kernel
  moduleCnt : l.kernel.moduleCnt = n
  released_lt : ∀ r, l.kernel.released r = true → r < l.kernel.nextReq
  owned : ∀ i : Int, l.kernel.moduleActiveChecker i ≠ 0 →
    ∃ r < l.kernel.nextReq, (l.kernel.request r).id = i ∧ l.kernel.released r = false
  returned : ∀ r, l.freed r = true → l.kernel.released r = true

variable {n : Nat}

private theorem slotAccount_start (n : Nat) (arr : Int → Word) (pool : QhgpuMempool) :
    SlotAccount n (.start n arr pool) where
  numbered := numbered_start n arr pool
  moduleCnt := rfl
  released_lt r hr := by cases hr
  owned i hi := absurd rfl hi
  returned r hr := by cases hr

private theorem SlotAccount.alloc (h : SlotAccount n l) {dataSize : Int} {serviceName : List UInt8}
    {o : QhgpuRequest} {slab : List QhgpuRequest}
    (hn : Numbered (allocFrom l.kernel dataSize serviceName o)) : SlotAccount n { l with
      kernel := allocFrom l.kernel dataSize serviceName o
      slab := slab } := by
  obtain ⟨hnext, hcnt, hrel, hold, hid, hchecker⟩ :=
    allocFrom_spec l.kernel dataSize serviceName o
  refine ⟨hn, hcnt.trans h.moduleCnt, ?_, ?_, ?_⟩
  · intro r hr
    dsimp only at hr ⊢
    rw [hrel] at hr
    rw [hnext]
    exact Nat.lt_succ_of_lt (h.released_lt r hr)
  · intro i hi
    dsimp only at hi ⊢
    rw [hrel, hnext]
    -- the owner of a slot that was in use before
    have hbefore (hi : l.kernel.moduleActiveChecker i ≠ 0) :
        ∃ r < l.kernel.nextReq + 1,
          ((allocFrom l.kernel dataSize serviceName o).request r).id = i ∧
            l.kernel.released r = false := by
      obtain ⟨r, hr, hid, hun⟩ := h.owned i hi
      exact ⟨r, Nat.lt_succ_of_lt hr, by rw [hold r hr, hid], hun⟩
    rw [hchecker] at hi
    rcases mmapId_cases l.kernel with ⟨k, _, _, _, heq⟩ | ⟨_, heq⟩
    · rw [heq] at hid hi
      by_cases hik : i = k
      · refine ⟨l.kernel.nextReq, Nat.lt_succ_self _, hid.trans hik.symm, ?_⟩
        by_contra hne
        exact Nat.lt_irrefl _ (h.released_lt _ (by simpa using hne))
      · dsimp only at hi
        rw [Function.update_of_ne hik] at hi
        exact hbefore hi
    · rw [heq] at hi
      exact hbefore hi
  · intro r hr
    dsimp only
    rw [hrel]
    exact h.returned r hr

private theorem SlotAccount.kernel (h : SlotAccount n l) {a : Act} {k : State}
    (ha : a.isAlloc = false)
    (hk : Trans l.kernel a k) : SlotAccount n { l with kernel := k } := by
  obtain ⟨hnext, hslots⟩ := hk.checker_cases ha
  have hid (r : ReqId) := (hk.slot_eq_of_nextReq hnext r).1
  refine ⟨hk.numbered h.numbered, hk.slots_fixed.1.trans h.moduleCnt, ?_, ?_, ?_⟩
  · intro r hr
    dsimp only at hr ⊢
    rw [hnext]
    rcases hslots with ⟨_, hrel⟩ | ⟨r', hr', _, hrel⟩
    · rw [hrel] at hr
      exact h.released_lt r hr
    · rw [hrel] at hr
      by_cases heq : r = r'
      · subst heq
        rcases hr' with hlt | ⟨t, c, hc, rfl⟩
        · exact hlt
        · exact (h.numbered.sync t c hc).1
      · rw [Function.update_of_ne heq] at hr
        exact h.released_lt r hr
  · intro i hi
    dsimp only at hi ⊢
    rw [hnext]
    rcases hslots with ⟨hchecker, hrel⟩ | ⟨r', _, hchecker, hrel⟩
    · rw [hchecker] at hi
      obtain ⟨r, hr, hri, hun⟩ := h.owned i hi
      exact ⟨r, hr, (hid r).trans hri, by rw [hrel, hun]⟩
    · rw [hchecker] at hi
      -- a slot still in use is not the one given back
      have hne : i ≠ (l.kernel.request r').id := by
        rintro rfl
        rw [Function.update_self] at hi
        exact hi rfl
      rw [Function.update_of_ne hne] at hi
      obtain ⟨r, hr, hri, hun⟩ := h.owned i hi
      refine ⟨r, hr, (hid r).trans hri, ?_⟩
      rw [hrel, Function.update_of_ne]
      · exact hun
      · rintro rfl
        exact hne hri.symm
  · intro r hr
    dsimp only at hr ⊢
    have hold := h.returned r hr
    rcases hslots with ⟨_, hrel⟩ | ⟨r', _, _, hrel⟩
    · rw [hrel, hold]
    · rw [hrel, Function.update_apply, hold]
      exact ite_self _

private theorem SlotAccount.step (h : SlotAccount n l) (hok : FreeOk l a)
    (hstep : LifeTrans l a l') :
    SlotAccount n l' := by
  have hnumbered := hstep.numbered h.numbered
  cases hstep with
  | alloc => exact h.alloc hnumbered
  | @free r hr =>
    refine ⟨h.numbered, h.moduleCnt, h.released_lt, h.owned, ?_⟩
    intro r' hr'
    by_cases heq : r' = r
    · subst heq
      exact hok
    · dsimp only at hr'
      rw [Function.update_of_ne heq] at hr'
      exact h.returned r' hr'
  | kernel ha hk => exact h.kernel ha hk

private theorem SlotAccount.noLeak (h : SlotAccount n l) : NoLeak l := by
  intro hall
  have hfree (i : Int) : l.kernel.moduleActiveChecker i = 0 := by
    by_contra hbusy
    obtain ⟨r, hr, _, hun⟩ := h.owned i hbusy
    rw [h.returned r (hall r hr).2] at hun
    cases hun
  refine ⟨fun i _ ↦ hfree i, ?_⟩
  intro allocs l' hallocs hlen hrun k hk
  have htaken : l.kernel.Taken 0 := fun i _ ↦ iff_of_true (hfree i) (Nat.zero_le i)
  have hids := (id_of_allocs htaken hallocs (by omega) hrun).2 k (by omega)
  rwa [Nat.zero_add] at hids

/-- In every run whose requests are freed after their slots were given back, no slot is
lost. -/
theorem noLeak_of_meets (n : Nat) (arr : Int → Word) (pool : QhgpuMempool)
    (acts : List LifeAct) (l : Lifecycle)
    (hrun : StepRun.run lifeStep (.start n arr pool) acts = some l)
    (hok : StepRun.Meets lifeStep FreeOk (.start n arr pool) acts) : NoLeak l := by
  refine SlotAccount.noLeak (n := n) ?_
  refine StepRun.run_invariant (I := SlotAccount n) ?_ (slotAccount_start n arr pool) hok hrun
  intro s a s' hs hcond hstep
  exact hs.step hcond (lifeTrans_of_step hstep)

/-- Thread 1 calls `qhgpu_call_sync` on request 0, the daemon answers, and the call returns. -/
def syncRoundTrip : List LifeAct :=
  .alloc 1 [] (some .fresh) :: ([.callSync 1 0 true true, .step 1, .step 1, .step 1,
    .read 0 kuRequestCount false .zeroed, .step 0, .step 0, .step 0,
    .write 0 kuResponseCount ⟨0, 0⟩, .step 0, .step 0, .step 0, .step 0, .step 0, .step 0,
    .step 0, .step 1, .step 1, .step 1, .step 1, .step 1, .step 1] : List Act).map .kernel

/-- A request freed after its synchronous call. -/
theorem noLeak_of_meets_sync : ∃ l, StepRun.run lifeStep (.start 1 (fun _ ↦ 0) .zeroed)
    (syncRoundTrip ++ [.free 0]) = some l ∧ l.freed 0 = true ∧ NoLeak l := by
  refine ⟨_, rfl, rfl, noLeak_of_meets 1 (fun _ ↦ 0) .zeroed (syncRoundTrip ++ [.free 0]) _ rfl
    (StepRun.meets_append ?_ ?_)⟩
  · apply StepRun.meets_of_forall
    simp [syncRoundTrip, FreeOk]
  · intro l hl
    obtain rfl := Option.some.inj hl
    exact ⟨rfl, fun _ _ ↦ trivial⟩

/-- Thread 1 calls `qhgpu_call_async` on request 0, and the daemon answers. -/
def asyncRoundTrip : List LifeAct :=
  .alloc 1 [] (some .fresh) :: ([.fill 0 (fieldsWith 0), .callAsync 1 0 true, .step 1,
    .read 0 kuRequestCount false .zeroed, .step 0, .step 0, .step 0,
    .write 0 kuResponseCount ⟨0, 0⟩, .step 0, .step 0, .step 0, .step 0, .step 0] :
      List Act).map .kernel

/-- An asynchronous request that was answered and freed keeps its slot. -/
theorem not_noLeak_async : ¬∀ (n : Nat), 0 < n → ∀ (arr : Int → Word) (pool : QhgpuMempool)
    (acts : List LifeAct) (l : Lifecycle),
    StepRun.run lifeStep (.start n arr pool) acts = some l → NoLeak l := by
  intro hall
  obtain ⟨l, hrun, hcnt, hnext, hcalled, hthreads, hfreed, hbusy⟩ : ∃ l, StepRun.run lifeStep
      (.start 1 (fun _ ↦ 0) .zeroed) (asyncRoundTrip ++ [.free 0]) = some l ∧
        l.kernel.moduleCnt = 1 ∧ l.kernel.nextReq = 1 ∧
        (∃ i ∈ l.kernel.called, l.kernel.itemReq i = 0) ∧
        (∀ t, (l.kernel.threads t).syncCall = none) ∧ l.freed 0 = true ∧
        l.kernel.moduleActiveChecker 0 = 1 := by
    refine ⟨_, rfl, rfl, rfl, ⟨0, List.mem_singleton_self 0, rfl⟩, ?_, rfl, rfl⟩
    intro t
    match t with
    | 0 => rfl
    | 1 => rfl
    | t + 2 => rfl
  have hback := hall 1 (by decide) _ _ _ l hrun ?_
  · have hfree := hback.free 0 (by omega)
    rw [Int.natCast_zero, hbusy] at hfree
    cases hfree
  · intro r hr
    obtain rfl : r = 0 := Nat.lt_one_iff.mp (hnext ▸ hr)
    refine ⟨⟨hcalled, ?_⟩, hfreed⟩
    intro t c hc
    rw [hthreads t] at hc
    cases hc

end QHGPU.Kernel
