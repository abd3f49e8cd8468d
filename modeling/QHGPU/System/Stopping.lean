import QHGPU.Kernel.SyncCall
import QHGPU.System.Polling

/-!
# After the daemon has stopped

`src/test_module/exit_module/exit_module.c` asks the daemon to stop by a synchronous call. The
daemon leaves its loop without an answer to that request or to any other, and the driver goes
on to accept requests.
-/

namespace QHGPU.System

open Kernel (Tid Pc SyncCall)
open Connector (Daemon)

variable {d : Daemon} {s s' t : State} {a : Act} {k k' : Kernel.State}

/-! ### Blocks of synchronous calls -/

/-- Calls in progress have different blocks, all of them allocated. -/
structure BlocksApart (k : Kernel.State) : Prop where
  lt : ∀ T c, (k.threads T).syncCall = some c → c.data < k.nextData
  apart : ∀ T T' c c', (k.threads T).syncCall = some c → (k.threads T').syncCall = some c' →
    c.data = c'.data → T = T'

/-- A call that has just begun has a block of its own. -/
theorem BlocksApart.trans (h : BlocksApart k) {ka : Kernel.Act} (ht : Kernel.Trans k ka k') :
    BlocksApart k' := by
  constructor
  · intro T c hT
    rcases ht.syncCall hT with hold | ⟨-, -, hc, -, hnext, -⟩
    · exact Nat.lt_of_lt_of_le (h.lt T c hold) ht.nextData_le
    · rw [hnext, hc]
      exact Nat.lt_succ_self _
  · intro T T' c c' hT hT' heq
    rcases ht.syncCall hT with hold | ⟨⟨dataOk, itemOk, rfl⟩, -, hc, -⟩
    · rcases ht.syncCall hT' with hold' | ⟨-, -, hc', -⟩
      · exact h.apart T T' c c' hold hold' heq
      · have hlt := h.lt T c hold
        rw [heq, hc'] at hlt
        exact absurd hlt (Nat.lt_irrefl _)
    · rcases ht.syncCall hT' with hold' | ⟨⟨_, _, hact⟩, -, -⟩
      · have hlt := h.lt T' c' hold'
        rw [← heq, hc] at hlt
        exact absurd hlt (Nat.lt_irrefl _)
      · obtain ⟨rfl, -⟩ := Kernel.Act.callSync.inj hact
        rfl

/-- A block changes only in the call that it belongs to, or when a response has come. -/
theorem syncData_client (h : BlocksApart k) {ka : Kernel.Act} (ht : Kernel.Trans k ka k')
    (hc : ka.OfClient k) {T : Tid} {c : SyncCall} (hT : (k.threads T).syncCall = some c)
    (hne : ka.tid ≠ some T) : k'.syncData c.data = k.syncData c.data := by
  have hlt := h.lt T c hT
  cases ht with
  | syncNoItem | callSync => exact Function.update_of_ne (Nat.ne_of_lt hlt) ..
  | @free T' c' hT' =>
    apply Function.update_of_ne
    intro heq
    apply hne
    rw [h.apart T T' c c' hT (by rw [hT']; rfl) heq]
    rfl
  | read | writeShort | write => exact hc.elim
  | readEmpty ht | readTake ht | readWake ht | readPut ht | readDrop ht | readReturn ht
  | writeMiss ht | writeFind ht | writeErrcode ht | callClient ht | callSyncCallback ht
  | clientDone ht | callbackKdata ht | callbackDone ht | callbackDoneStale ht | callbackWake ht
  | callbackWakeStale ht | writeReturn ht | signalRead ht =>
    rw [Kernel.Act.OfClient, ht] at hc
    cases hc
  | _ => rfl

/-! ### The daemon is gone -/

/-- The daemon is out of its loop and in no call. -/
structure Stopped (s : State) : Prop where
  loop : s.loop.pc = .stopped
  idle : s.kernel.threads daemonTid = .idle

/-- Every other thread makes calls of clients, and their blocks are apart. -/
structure Abandoned (s : State) : Prop extends Stopped s where
  clients : ∀ T ≠ daemonTid, (s.kernel.threads T).ofClient = true
  blocks : BlocksApart s.kernel

/-- Nothing goes on past `reqs`. -/
structure Frozen (s t : State) : Prop where
  loop : t.loop = s.loop
  reqs : s.kernel.reqs <+: t.kernel.reqs
  taken : t.kernel.taken = s.kernel.taken
  rtdreqs : t.kernel.rtdreqs = s.kernel.rtdreqs
  completed : t.kernel.completed = s.kernel.completed
  called : t.kernel.called = s.kernel.called

private theorem Frozen.refl (s : State) : Frozen s s :=
  ⟨rfl, List.prefix_refl _, rfl, rfl, rfl, rfl⟩

private theorem Frozen.trans {u : State} (h : Frozen s t) (h' : Frozen t u) : Frozen s u where
  loop := h'.loop.trans h.loop
  reqs := h.reqs.trans h'.reqs
  taken := h'.taken.trans h.taken
  rtdreqs := h'.rtdreqs.trans h.rtdreqs
  completed := h'.completed.trans h.completed
  called := h'.called.trans h.called

/-- With the daemon gone, a step inside the driver is one of a client. -/
theorem Abandoned.ofClient (h : Abandoned s) {ka : Kernel.Act} (hp : s.permits ka = true)
    (hk : Kernel.step s.kernel ka = some k') : ka.OfClient s.kernel ∧ ka.tid ≠ some daemonTid := by
  have hne : ka.tid ≠ some daemonTid := by
    intro htid
    cases ka with
    | step T =>
      obtain rfl := Option.some.inj htid
      rw [Kernel.step, Kernel.stepThread, h.idle] at hk
      cases hk
    | signal T =>
      obtain rfl := Option.some.inj htid
      rw [Kernel.step, Kernel.signalThread, h.idle] at hk
      cases hk
    | callSync T =>
      obtain rfl := Option.some.inj htid
      exact Bool.false_ne_true hp
    | callAsync T =>
      obtain rfl := Option.some.inj htid
      exact Bool.false_ne_true hp
    | read => cases hp
    | write => cases hp
    | alloc | fill | returnMmap => cases htid
  exact ⟨ofClient_of_permits hp h.clients hne, hne⟩

/-- Each step leaves the daemon gone and answers nothing. -/
theorem Abandoned.step (h : Abandoned s) (hs : step d s a = some s') :
    Abandoned s' ∧ Frozen s s' := by
  cases a with
  | kernel ka =>
    rw [System.step] at hs
    split at hs
    · next hp =>
      obtain ⟨k', hk, rfl⟩ := Option.map_eq_some_iff.mp hs
      have ht := Kernel.trans_of_step hk
      obtain ⟨hof, hne⟩ := h.ofClient hp hk
      have hclient := ht.clientStep hof
      have hqueues := ht.client_queues hof
      refine ⟨⟨⟨h.loop, (ht.threads_of_ne hne).trans h.idle⟩, ?_, h.blocks.trans ht⟩,
        rfl, hqueues.reqs, hclient.taken, hclient.rtdreqs, hqueues.completed, hqueues.called⟩
      intro T hT
      rcases hclient.threads T with heq | hof'
      · exact (congrArg Pc.ofClient heq).trans (h.clients T hT)
      · exact hof'
    · cases hs
  | daemon ans stack =>
    obtain rfl := stepDaemon_stopped h.loop hs
    exact ⟨h, .refl s'⟩

/-- A caller whose block is not marked done stays where it is until a signal comes. -/
theorem Abandoned.waits (h : Abandoned s) {T : Tid} {c : SyncCall}
    (hT : s.kernel.threads T = .sync c .wait) (hdone : s.kernel.isDone c.data = false)
    (hsignal : a ≠ .kernel (.signal T)) (hs : System.step d s a = some s') :
    s'.kernel.threads T = .sync c .wait ∧ s'.kernel.isDone c.data = false := by
  cases a with
  | kernel ka =>
    rw [System.step] at hs
    split at hs
    · next hp =>
      obtain ⟨k', hk, rfl⟩ := Option.map_eq_some_iff.mp hs
      have ht := Kernel.trans_of_step hk
      have hne : ka.tid ≠ some T := by
        intro htid
        cases ka with
        | step T' =>
          obtain rfl := Option.some.inj htid
          rw [Kernel.step, Kernel.stepThread, hT] at hk
          simp only [Kernel.stepSync, hdone] at hk
          cases hk
        | signal T' =>
          obtain rfl := Option.some.inj htid
          exact hsignal rfl
        | callSync T' =>
          obtain rfl := Option.some.inj htid
          rw [Kernel.step, hT, if_neg (by simp)] at hk
          cases hk
        | callAsync T' =>
          obtain rfl := Option.some.inj htid
          rw [Kernel.step, hT, if_neg (by simp)] at hk
          cases hk
        | read => cases hp
        | write => cases hp
        | alloc | fill | returnMmap => cases htid
      refine ⟨(ht.threads_of_ne hne).trans hT, ?_⟩
      rw [Kernel.State.isDone, syncData_client h.blocks ht (h.ofClient hp hk).1
        (by rw [hT]; rfl) hne]
      exact hdone
    · cases hs
  | daemon ans stack =>
    obtain rfl := stepDaemon_stopped h.loop hs
    exact ⟨hT, hdone⟩

/-! ### Every run -/

/-- The blocks of calls are apart in every run. -/
theorem blocksApart_of_run {n : Nat} {arr : Int → Word} {pool : QhgpuMempool}
    {acts : List Act} (h : StepRun.run (step d) (.start n arr pool) acts = some s) :
    BlocksApart s.kernel := by
  refine StepRun.run_invariant_of_step (I := fun s : State ↦ BlocksApart s.kernel) ?_ ?_ h
  · intro s a s' hinv hs
    cases a with
    | kernel ka =>
      rw [System.step] at hs
      split at hs
      · obtain ⟨k', hk, rfl⟩ := Option.map_eq_some_iff.mp hs
        exact hinv.trans (Kernel.trans_of_step hk)
      · cases hs
    | daemon ans stack =>
      rcases stepDaemon_kernel hs with heq | ⟨ka, ht, -⟩
      · rw [heq]
        exact hinv
      · exact hinv.trans ht
  · constructor
    · intro T c hc
      cases hc
    · intro T T' c c' hc
      cases hc

/-- Once a request has stopped the daemon, however the clients go on: no request is taken,
delivered or answered any more, and whoever waits in `qhgpu_call_sync` for an answer that has
not come, the one that asked for the end among them, waits until a signal reaches it. -/
theorem stays_stopped (d : Daemon) (n : Nat) (arr : Int → Word) (pool : QhgpuMempool)
    (before after : List Act) (s t : State)
    (hm : StepRun.Meets (step d) PollOk (.start n arr pool) before)
    (h : StepRun.run (step d) (.start n arr pool) before = some s) (hpc : s.loop.pc = .stopped)
    (ht : StepRun.run (step d) s after = some t) :
    Frozen s t ∧ ∀ T c, s.kernel.threads T = .sync c .wait → s.kernel.isDone c.data = false →
      (∀ a ∈ after, a ≠ .kernel (.signal T)) → t.kernel.threads T = .sync c .wait := by
  have hinv := pollInv_of_run hm h
  have hidle : s.kernel.threads daemonTid = .idle := by
    rcases hinv.agreed with hagreed | ⟨-, hidle⟩
    · exact absurd hpc hagreed.call.runs
    · exact hidle
  have hs : Abandoned s := ⟨⟨hpc, hidle⟩, hinv.clients, blocksApart_of_run h⟩
  constructor
  · have hrun := StepRun.run_invariant_of_step
      (I := fun u : State ↦ Abandoned u ∧ Frozen s u) (fun u a u' hu hstep ↦
        ⟨(hu.1.step hstep).1, hu.2.trans (hu.1.step hstep).2⟩) ⟨hs, .refl s⟩ ht
    exact hrun.2
  · intro T c hT hdone hsignal
    have hquiet : StepRun.Meets (step d) (fun _ a ↦ a ≠ .kernel (.signal T)) s after :=
      StepRun.meets_of_forall fun a ha _ ↦ hsignal a ha
    have hrun := StepRun.run_invariant
      (I := fun u : State ↦ Abandoned u ∧ u.kernel.threads T = .sync c .wait ∧
        u.kernel.isDone c.data = false) (fun u a u' hu hne hstep ↦
          ⟨(hu.1.step hstep).1, hu.1.waits hu.2.1 hu.2.2 hne hstep⟩) ⟨hs, hT, hdone⟩ hquiet ht
    exact hrun.2.1

/-- `"000 exit_module"`. -/
def exitName : List UInt8 :=
  [48, 48, 48, 32, 101, 120, 105, 116, 95, 109, 111, 100, 117, 108, 101]

/-- `minit` of the exit module on thread 1, up to its wait, and the daemon that reads its
request. -/
def stopAsked : List Act :=
  [.kernel (.alloc 0 exitName (some (Kernel.fieldsWith 0, 0))),
    .kernel (.callSync 1 0 true true), .kernel (.step 1), .kernel (.step 1),
    .kernel (.step 1)] ++ idlePasses ++ takeIn

/-- The exit module is left waiting, and so is the request of another client. -/
theorem stays_stopped_exitModule : ∃ s t,
    StepRun.run (step Connector.batchDaemon) (.start 1 (fun _ ↦ 0) .zeroed) stopAsked = some s ∧
      StepRun.run (step Connector.batchDaemon) s
        [.kernel (.alloc 0 batchName (some (Kernel.fieldsWith 0, 0))),
          .kernel (.callAsync 2 1 true), .kernel (.step 2), go expired] = some t ∧
      t.kernel.reqs = [1] ∧ Frozen s t ∧ ∃ c, t.kernel.threads 1 = .sync c .wait := by
  have hm : StepRun.Meets (step Connector.batchDaemon) PollOk (.start 1 (fun _ ↦ 0) .zeroed)
      stopAsked := by
    iterate 5 refine StepRun.meets_cons trivial rfl ?_
    iterate 3 refine StepRun.meets_cons nofun rfl ?_
    refine StepRun.meets_cons (fun _ ↦ .ready rfl) rfl ?_
    iterate 2 refine StepRun.meets_cons trivial rfl ?_
    refine StepRun.meets_cons nofun rfl ?_
    trivial
  have hstay := stays_stopped Connector.batchDaemon 1 (fun _ ↦ 0) .zeroed stopAsked
    [.kernel (.alloc 0 batchName (some (Kernel.fieldsWith 0, 0))),
      .kernel (.callAsync 2 1 true), .kernel (.step 2), go expired] _ _ hm rfl rfl rfl
  refine ⟨_, _, rfl, rfl, rfl, hstay.1, _, hstay.2 1 _ rfl rfl ?_⟩
  intro a ha
  simp only [List.mem_cons, List.not_mem_nil, or_false] at ha
  rcases ha with rfl | rfl | rfl | rfl <;> exact nofun

end QHGPU.System
