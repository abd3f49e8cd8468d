import QHGPU.System.Polling
import QHGPU.System.ServiceSteps

/-!
# The daemon can always finish

From every reachable state the daemon's own steps bring all requests in the driver to their
callbacks, when their services are registered and return 0. What is left to do is counted:
a request that waits counts 4, and each list it moves to one less.
-/

namespace QHGPU.System

open Kernel (Tid ItemId Pc WritePhase Numbered)
open Connector (Daemon Loop LoopPc Pass Answer LoopInv StageInv stepLoop)
open Correlation
open StepRun (Reaches)

variable {d : Daemon} {s s' : State} {k k' : Kernel.State} {st : Connector.State} {a : Act}

/-! ### The daemon alone -/

/-- A step of the daemon, inside the driver or outside, whose service returns 0 and whose
allocation succeeds. -/
def Act.OfDaemon : Act → Prop
  | .daemon ans _ => ans.code = 0 ∧ ans.env.alloc = true
  | .kernel ka => ka = .step daemonTid

/-- The daemon goes on by itself, and `poll` answers as the driver does. -/
def Alone (s : State) (a : Act) : Prop := a.OfDaemon ∧ PollOk s a

/-- The name is that of a registered service, and not the one that stops the daemon. -/
def Handled (d : Daemon) (name : List UInt8) : Prop :=
  Connector.qcLookupService d.services name ≠ none ∧ name.take 3 ≠ [48, 48, 48]

/-- Nothing stands in the way of an answer: each item has a callback to call, and each request
that waits, is being read or was read names a service. -/
structure Answerable (d : Daemon) (s : State) : Prop where
  callback : ∀ j ∈ s.kernel.enqueued, j ∉ s.kernel.called →
    (s.kernel.request (s.kernel.itemReq j)).callback ≠ .null
  waiting : ∀ j ∈ s.kernel.reqs, Handled d
    ((s.kernel.request (s.kernel.itemReq j)).serviceName.take qhgpuServiceNameSize)
  reading : ∀ kureq, (s.kernel.threads daemonTid).kuRequest = some kureq →
    Handled d kureq.serviceName
  read : ∀ kureq ∈ s.loop.st.requests, Connector.Found d kureq

/-- A state from which the daemon can go on. -/
structure Ready (d : Daemon) (s : State) : Prop where
  inv : PollInv d s
  running : s.loop.pc ≠ .stopped
  answerable : Answerable d s

namespace Ready

/-- Driver and daemon agree. -/
theorem agreed (h : Ready d s) :
    Agreed s.kernel s.loop (s.kernel.threads daemonTid) := by
  rcases h.inv.agreed with hagreed | ⟨hstopped, -⟩
  · exact hagreed
  · exact absurd hstopped h.running

/-- The daemon is in the call that its loop has made. -/
theorem call (h : Ready d s) : Paired s.kernel s.loop.st s.loop.pc
    (s.kernel.threads daemonTid) := h.agreed.call

/-- The stage lists are in order. -/
theorem stage (h : Ready d s) : StageInv d s.loop.st := h.inv.loop.stage

end Ready

/-- The record taken in is one that may be read. -/
theorem not_stop_of_handled {kureq : QhgpuKuRequest} (h : Handled d kureq.serviceName) :
    Connector.isStopRequest kureq = false := by
  rw [Connector.isStopRequest, beq_eq_false_iff_ne]
  exact h.2

/-- The daemon is in a call of its own. -/
theorem Paired.ofClient {lpc : LoopPc} {pc : Pc} (h : Paired k st lpc pc) (hpc : pc ≠ .idle) :
    pc.ofClient = false := by
  cases h <;> first
    | rfl
    | exact absurd rfl hpc

/-- A step of the daemon inside the driver leaves all requests answerable. -/
theorem Answerable.device (h : Answerable d s)
    (ht : Kernel.Trans s.kernel (.step daemonTid) k')
    (hpc : (s.kernel.threads daemonTid).ofClient = false) : Answerable d ⟨k', s.loop⟩ := by
  have hstep := ht.deviceStep hpc
  constructor
  · intro j hj hnot
    dsimp only at hj hnot ⊢
    rw [hstep.enqueued] at hj
    rw [hstep.itemReq, (hstep.request _).1]
    exact h.callback j hj fun hmem ↦ hnot (hstep.called hmem)
  · intro j hj
    dsimp only at hj ⊢
    rw [hstep.itemReq, (hstep.request _).2]
    exact h.waiting j (hstep.reqs hj)
  · intro kureq hk
    rcases ht.kuRequest_cases hk with hold | ⟨j, hj, stack, rfl⟩
    · exact h.reading kureq hold
    · exact h.waiting j hj
  · exact h.read

/-- A step of the daemon outside the driver leaves all requests answerable. -/
theorem Answerable.daemon {ans : Answer} {stack : QhgpuKuRequest} (h : Answerable d s)
    (hl : StageInv d s.loop.st)
    (hcall : Paired s.kernel s.loop.st s.loop.pc (s.kernel.threads daemonTid))
    (hs : stepDaemon d s ans stack = some s') : Answerable d s' := by
  obtain ⟨k, st, lpc⟩ := s
  -- the thread enters a call or leaves one
  have moves {u : Loop} {pc : Pc} (hpc : pc.kuRequest = none)
      (hread : ∀ kureq ∈ u.st.requests, Connector.Found d kureq) :
      Answerable d ⟨k.goto daemonTid pc, u⟩ := by
    refine ⟨h.callback, h.waiting, ?_, hread⟩
    intro kureq hk
    rw [Kernel.State.threads_goto_self, hpc] at hk
    cases hk
  have stays {u : Loop} (hread : ∀ kureq ∈ u.st.requests, Connector.Found d kureq) :
      Answerable d ⟨k, u⟩ := ⟨h.callback, h.waiting, h.reading, hread⟩
  -- only a `read` adds a request
  have same {ans' : Answer} (hne : lpc ≠ .reading) :
      ∀ kureq ∈ (stepLoop d ⟨st, lpc⟩ ans').st.requests, Connector.Found d kureq := by
    rcases requests_stepLoop (l := ⟨st, lpc⟩) hl ans' with heq | ⟨hpc, -⟩
    · rw [heq]
      exact h.read
    · exact absurd hpc hne
  unfold stepDaemon at hs
  dsimp only at hs
  split at hs
  · next i rest hpc =>
    have hbegin : Kernel.step k (.write daemonTid Kernel.kuResponseCount (st.response i)) =
        some (k.goto daemonTid (.writeFind Kernel.kuResponseCount (st.response i))) := by
      rw [Kernel.step, if_pos hpc]
      rfl
    rw [hbegin] at hs
    obtain rfl := Option.some.inj hs
    exact moves rfl (same (by simp))
  · obtain rfl := Option.some.inj hs
    exact stays (same (by simp))
  · next hpc =>
    split at hs
    · have hbegin : Kernel.step k (.read daemonTid Kernel.kuRequestCount false stack) =
          some (k.goto daemonTid (.readLock Kernel.kuRequestCount false stack)) := by
        rw [Kernel.step, if_pos hpc]
      rw [hbegin] at hs
      obtain rfl := Option.some.inj hs
      exact moves rfl (same (by simp))
    · obtain rfl := Option.some.inj hs
      exact stays (same (by simp))
  · next ret buf hpc =>
    have hend : Kernel.step k (.step daemonTid) = some (k.goto daemonTid .idle) := by
      rw [Kernel.step, Kernel.stepThread, hpc]
    rw [hend] at hs
    obtain rfl := Option.some.inj hs
    have hfound (kureq : QhgpuKuRequest) (hbuf : buf = some kureq) :
        Connector.Found d kureq := by
      refine (h.reading kureq ?_).1
      rw [hpc, hbuf]
      rfl
    rw [hpc] at hcall
    apply moves rfl
    rcases requests_stepLoop (l := ⟨st, .reading⟩) hl _ with heq | ⟨-, -, hpos, -, -, heq⟩
    · rw [heq]
      exact h.read
    · rw [heq]
      intro kureq hk
      rcases List.mem_append.mp hk with hk | hk
      · exact h.read kureq hk
      · obtain rfl := List.mem_singleton.mp hk
        cases hcall
        exact hfound _ rfl
  · obtain rfl := Option.some.inj hs
    exact stays (same (by simp))
  · obtain rfl := Option.some.inj hs
    exact stays (same (by simp))
  · cases hs

/-- The daemon can go on after a step of its own. -/
theorem Ready.step (h : Ready d s) (ha : Alone s a) (hs : step d s a = some s') :
    Ready d s' := by
  have hinv := h.inv.step ha.2 hs
  cases a with
  | kernel ka =>
    obtain rfl : ka = .step daemonTid := ha.1
    rw [System.step] at hs
    split at hs
    · obtain ⟨k', hk, rfl⟩ := Option.map_eq_some_iff.mp hs
      have hpc : s.kernel.threads daemonTid ≠ .idle := by
        intro hidle
        rw [Kernel.step, Kernel.stepThread, hidle] at hk
        cases hk
      exact ⟨hinv, h.running,
        h.answerable.device (Kernel.trans_of_step hk) (h.call.ofClient hpc)⟩
    · cases hs
  | daemon ans stack =>
    refine ⟨hinv, ?_, h.answerable.daemon h.stage h.call hs⟩
    rcases (h.agreed.daemon h.inv.loop h.inv.clean ha.2 hs).2 with hagreed | ⟨-, -, kureq, hpc, hstop⟩
    · exact hagreed.call.runs
    · -- no request that stops the daemon waits
      have hhandled := h.answerable.reading kureq (by rw [hpc]; rfl)
      rw [not_stop_of_handled hhandled] at hstop
      cases hstop

/-- The daemon stays ready. -/
theorem Ready.reaches (h : Ready d s) (hr : Reaches (System.step d) Alone s s') : Ready d s' :=
  hr.invariant (fun _ _ _ hs ha hstep ↦ hs.step ha hstep) h

/-! ### One call of the driver -/

/-- The daemon moves inside the driver. -/
theorem reaches_kernel {k' : Kernel.State} (hk : Kernel.step s.kernel (.step daemonTid) = some k')
    (hread : ∀ ret buf, s.kernel.threads daemonTid ≠ .readReturn ret buf) :
    Reaches (System.step d) Alone s ⟨k', s.loop⟩ := by
  have hp : s.permits (.step daemonTid) = true := by
    cases hpc : s.kernel.threads daemonTid with
    | readReturn ret buf => exact absurd hpc (hread ret buf)
    | _ => simp only [State.permits, hpc]
  apply Reaches.single (a := .kernel (.step daemonTid)) ⟨rfl, trivial⟩
  rw [System.step, if_pos hp, hk]
  rfl

/-- The steps that are left of a `qhgpu_write` that has found its item. -/
def stepsLeft : WritePhase → Nat
  | .errcode _ => 6
  | .callback => 5
  | .client => 1
  | .kdata => 4
  | .done _ => 3
  | .wake _ => 2
  | .free => 0

/-- Each step of `qhgpu_write` can be taken, the callback not being null. -/
theorem write_step {j : ItemId} {count : Kernel.Count} {p : WritePhase} {t : Tid}
    (hpc : k.threads t = .write j count p)
    (hcb : p = .callback → (k.request (k.itemReq j)).callback ≠ .null) :
    ∃ k', Kernel.step k (.step t) = some k' ∧ k'.reqs = k.reqs ∧
      (k'.threads t = .idle ∨
        ∃ p', k'.threads t = .write j count p' ∧ stepsLeft p' < stepsLeft p) := by
  have hsync (data : Kdata) (f : Kernel.SyncCallData → Kernel.State)
      (hf : ∀ b, (f b).reqs = k.reqs) : (k.withSync data f).reqs = k.reqs := by
    unfold Kernel.State.withSync
    split
    · exact hf _
    · rfl
  simp only [Kernel.step, Kernel.stepThread, hpc]
  cases p with
  | errcode e =>
    exact ⟨_, rfl, rfl, Or.inr ⟨.callback, Kernel.State.threads_goto_self .., by simp [stepsLeft]⟩⟩
  | callback =>
    simp only [Kernel.stepWrite]
    cases hc : (k.request (k.itemReq j)).callback with
    | null => exact absurd hc (hcb rfl)
    | client fn =>
      exact ⟨_, rfl, rfl, Or.inr ⟨.client, Kernel.State.threads_goto_self .., by decide⟩⟩
    | syncCallback =>
      exact ⟨_, rfl, rfl, Or.inr ⟨.kdata, Kernel.State.threads_goto_self .., by decide⟩⟩
  | client =>
    exact ⟨_, rfl, rfl, Or.inr ⟨.free, Kernel.State.threads_goto_self .., by simp [stepsLeft]⟩⟩
  | kdata =>
    exact ⟨_, rfl, rfl, Or.inr ⟨.done _, Kernel.State.threads_goto_self .., by simp [stepsLeft]⟩⟩
  | done data =>
    refine ⟨_, rfl, ?_, Or.inr ⟨.wake data, Kernel.State.threads_goto_self .., by simp [stepsLeft]⟩⟩
    apply hsync
    intro b
    cases data <;> rfl
  | wake data =>
    refine ⟨_, rfl, ?_, Or.inr ⟨.free, Kernel.State.threads_goto_self .., by simp [stepsLeft]⟩⟩
    apply hsync
    intro b
    rfl
  | free => exact ⟨_, rfl, rfl, Or.inl (Kernel.State.threads_goto_self ..)⟩

/-- A `qhgpu_write` that has found its item returns. -/
theorem Ready.write_returns {j : ItemId} {count : Kernel.Count} {p : WritePhase}
    (h : Ready d s) (hpc : s.kernel.threads daemonTid = .write j count p) :
    ∃ k', Reaches (System.step d) Alone s ⟨k', s.loop⟩ ∧ k'.reqs = s.kernel.reqs ∧
      k'.threads daemonTid = .idle := by
  induction hn : stepsLeft p using Nat.strong_induction_on generalizing s p with
  | _ n ih =>
    have hcb : p = .callback →
        (s.kernel.request (s.kernel.itemReq j)).callback ≠ .null := by
      rintro rfl
      have hremoved : s.kernel.handOff.removed daemonTid = some j := by
        change (s.kernel.threads daemonTid).removed = some j
        rw [hpc]
        rfl
      obtain ⟨hen, hnot⟩ := h.inv.numbered.conserved.of_removed hremoved
      exact h.answerable.callback j hen hnot
    obtain ⟨k', hk, hreqs, hidle | ⟨p', hp', hlt⟩⟩ := write_step hpc hcb
    · exact ⟨k', reaches_kernel hk (by simp [hpc]), hreqs, hidle⟩
    · have hstep : Reaches (System.step d) Alone s ⟨k', s.loop⟩ :=
        reaches_kernel hk (by simp [hpc])
      obtain ⟨u, hu, hureqs, huidle⟩ :=
        ih (stepsLeft p') (hn ▸ hlt) (h.reaches hstep) hp' rfl
      exact ⟨u, hstep.trans hu, hureqs.trans hreqs, huidle⟩

/-- The daemon moves outside the driver. -/
theorem reaches_daemon (ans : Answer) (stack : QhgpuKuRequest) (hcode : ans.code = 0)
    (halloc : ans.env.alloc = true) (hok : PollOk s (.daemon ans stack))
    (hs : stepDaemon d s ans stack = some s') : Reaches (System.step d) Alone s s' :=
  .single (a := .daemon ans stack) ⟨⟨hcode, halloc⟩, hok⟩ hs

/-- The answer to a response is found, and the response pass goes on. -/
theorem Ready.write_ends {i : Nat} {rest : List Nat}
    (h : Ready d ⟨k, ⟨st, .writing i rest⟩⟩) : ∃ k',
      Reaches (System.step d) Alone ⟨k, ⟨st, .writing i rest⟩⟩
        ⟨k', ⟨(Connector.qcServiceDone st i).1, .walk .serviceDone rest⟩⟩ ∧
      k'.reqs = k.reqs := by
  -- the call ends
  obtain ⟨u, hu, hreqs, hidle⟩ : ∃ u, Reaches (System.step d) Alone
      ⟨k, ⟨st, .writing i rest⟩⟩ ⟨u, ⟨st, .writing i rest⟩⟩ ∧ u.reqs = k.reqs ∧
        u.threads daemonTid = .idle := by
    have hcall := h.call
    generalize hpc : k.threads daemonTid = pc at hcall
    cases hcall with
    | writeFind =>
      have hi := (LoopInv.responding h.inv.loop).1
      have howed : (st.response i).id ∈ heldIds st (.writing i rest) (k.threads daemonTid) := by
        rw [hpc]
        exact List.mem_map.mpr ⟨i, hi, rfl⟩
      obtain ⟨j, hfind, -⟩ := h.agreed.ids.find howed
      have hfind' : Kernel.findRequest k (st.response i).id = some j := hfind
      have hk : Kernel.step k (.step daemonTid) = some ({ k with
          rtdreqs := k.rtdreqs.erase j
          completed := k.completed ++ [j] }.goto daemonTid
            (.write j Kernel.kuResponseCount (.errcode (st.response i).errcode))) := by
        simp only [Kernel.step, Kernel.stepThread, hpc, hfind']
      have hfirst := reaches_kernel (d := d) (s := ⟨k, ⟨st, .writing i rest⟩⟩) hk
        (by simp [hpc])
      obtain ⟨u, hu, hreqs, hidle⟩ := (h.reaches hfirst).write_returns
        (Kernel.State.threads_goto_self ..)
      exact ⟨u, hfirst.trans hu, hreqs, hidle⟩
    | write => exact h.write_returns hpc
    | written => exact ⟨k, .refl _, rfl, hpc⟩
  have hready := h.reaches hu
  have hcall := hready.call
  rw [hidle] at hcall
  cases hcall with
  | written hret =>
    refine ⟨u, hu.trans ?_, hreqs⟩
    refine reaches_daemon expired .zeroed rfl rfl (by rintro ⟨⟩) ?_
    rw [← stepLoop_written (d := d) hret hready.inv.clean expired]
    simp only [stepDaemon, hidle]

/-! ### The passes -/

private theorem Ready.idle_of_walk {p : Pass} {rest : List Nat}
    (h : Ready d ⟨k, ⟨st, .walk p rest⟩⟩) : k.threads daemonTid = .idle := by
  have hcall := h.call
  generalize k.threads daemonTid = pc at hcall ⊢
  cases hcall
  rfl

/-- A pass comes to its end, and the driver's queue stays. -/
theorem Ready.walk_ends {p : Pass} {rest : List Nat}
    (h : Ready d ⟨k, ⟨st, .walk p rest⟩⟩) (r : Int) : ∃ k',
      Reaches (System.step d) Alone ⟨k, ⟨st, .walk p rest⟩⟩
        ⟨k', .endPass (Connector.qcProcessRequest (p.op 0) p.once rest st r).1 p⟩ ∧
      k'.reqs = k.reqs := by
  induction rest generalizing k st r with
  | nil =>
    have hidle := h.idle_of_walk
    refine ⟨k, reaches_daemon expired .zeroed rfl rfl (by rintro ⟨⟩) ?_, rfl⟩
    cases p <;> simp only [stepDaemon, hidle] <;> rfl
  | cons i rest ih =>
    have hidle := h.idle_of_walk
    cases p with
    | serviceDone =>
      have hfirst : Reaches (System.step d) Alone ⟨k, ⟨st, .walk .serviceDone (i :: rest)⟩⟩
          ⟨k.goto daemonTid (.writeFind Kernel.kuResponseCount (st.response i)),
            ⟨st, .writing i rest⟩⟩ := by
        refine reaches_daemon expired .zeroed rfl rfl (by rintro ⟨⟩) ?_
        simp only [stepDaemon, hidle, Kernel.step]
        rfl
      obtain ⟨u, hu, hreqs⟩ := (h.reaches hfirst).write_ends
      have hsecond := hfirst.trans hu
      obtain ⟨k', hk', hreqs'⟩ := ih (h.reaches hsecond) 0
      exact ⟨k', hsecond.trans hk', hreqs'.trans hreqs⟩
    | postExec =>
      -- the first item is posted, which ends the pass
      refine ⟨k, reaches_daemon expired .zeroed rfl rfl (by rintro ⟨⟩) ?_, rfl⟩
      simp only [stepDaemon, hidle]
      rfl
    | launchExec =>
      have hfirst : Reaches (System.step d) Alone ⟨k, ⟨st, .walk .launchExec (i :: rest)⟩⟩
          ⟨k, ⟨(Connector.qcLaunchExec 0 st i).1, .walk .launchExec rest⟩⟩ := by
        refine reaches_daemon expired .zeroed rfl rfl (by rintro ⟨⟩) ?_
        simp only [stepDaemon, hidle]
        rfl
      obtain ⟨k', hk', hreqs'⟩ := ih (h.reaches hfirst) 0
      exact ⟨k', hfirst.trans hk', hreqs'⟩

/-- The lists when the passes that are left have been made. -/
def afterPasses : Pass → List Nat → Connector.State → Connector.State
  | .launchExec, rest, st =>
    (Connector.qcProcessRequest (Pass.launchExec.op 0) false rest st 0).1
  | .postExec, rest, st =>
    let st := (Connector.qcProcessRequest (Pass.postExec.op 0) true rest st 0).1
    (Connector.qcProcessRequest (Pass.launchExec.op 0) false st.initReqs st 0).1
  | .serviceDone, rest, st =>
    let st := (Connector.qcProcessRequest (Pass.serviceDone.op 0) false rest st 0).1
    let st := (Connector.qcProcessRequest (Pass.postExec.op 0) true st.runningReqs st 0).1
    (Connector.qcProcessRequest (Pass.launchExec.op 0) false st.initReqs st 0).1

/-- The loop comes to its next `poll`. -/
theorem Ready.passes_end {p : Pass} {rest : List Nat}
    (h : Ready d ⟨k, ⟨st, .walk p rest⟩⟩) : ∃ k',
      Reaches (System.step d) Alone ⟨k, ⟨st, .walk p rest⟩⟩
        ⟨k', ⟨afterPasses p rest st, .getNext⟩⟩ ∧ k'.reqs = k.reqs := by
  cases p with
  | launchExec => exact h.walk_ends 0
  | postExec =>
    obtain ⟨u, hu, hreqs⟩ := h.walk_ends 0
    obtain ⟨v, hv, hreqs'⟩ := (h.reaches hu).walk_ends 0
    exact ⟨v, hu.trans hv, hreqs'.trans hreqs⟩
  | serviceDone =>
    obtain ⟨u, hu, hreqs⟩ := h.walk_ends 0
    have hready := h.reaches hu
    obtain ⟨v, hv, hreqs'⟩ := hready.walk_ends 0
    obtain ⟨w, hw, hreqs''⟩ := (hready.reaches hv).walk_ends 0
    exact ⟨w, hu.trans (hv.trans hw), hreqs''.trans (hreqs'.trans hreqs)⟩

/-! ### A request is read -/

/-- The request in the daemon's buffer is taken in. -/
theorem Ready.read_returns {ret : Int} {kureq : QhgpuKuRequest}
    (h : Ready d ⟨k, ⟨st, .reading⟩⟩)
    (hpc : k.threads daemonTid = .readReturn ret (some kureq)) :
    Handled d kureq.serviceName ∧ Reaches (System.step d) Alone ⟨k, ⟨st, .reading⟩⟩
      ⟨k.goto daemonTid .idle,
        .beginPass (Connector.qcAccept d st kureq).2 .serviceDone⟩ := by
  have hhandled : Handled d kureq.serviceName := h.answerable.reading kureq (by rw [hpc]; rfl)
  refine ⟨hhandled, ?_⟩
  have hcall := h.call
  rw [hpc] at hcall
  cases hcall
  have hend : Kernel.step k (.step daemonTid) = some (k.goto daemonTid .idle) := by
    rw [Kernel.step, Kernel.stepThread, hpc]
  refine reaches_daemon expired .zeroed rfl rfl (by rintro ⟨⟩) ?_
  simp only [stepDaemon, hpc, hend, Option.map_some]
  rw [show stepLoop d ⟨st, .reading⟩ _ = Connector.readDevice d _ st from rfl,
    readDevice_read kureq h.stage rfl rfl, not_stop_of_handled hhandled]
  rfl

/-- A `read` that has begun takes in a request; one that begins takes it off `reqs`. -/
theorem Ready.read_ends (h : Ready d ⟨k, ⟨st, .reading⟩⟩) : ∃ k' kureq,
    Handled d kureq.serviceName ∧
      Reaches (System.step d) Alone ⟨k, ⟨st, .reading⟩⟩
        ⟨k', .beginPass (Connector.qcAccept d st kureq).2 .serviceDone⟩ ∧
      ∀ count nonblock stack, k.threads daemonTid = .readLock count nonblock stack →
        k'.reqs = k.reqs.tail := by
  -- the second locked section
  have hand {k : Kernel.State} (h : Ready d ⟨k, ⟨st, .reading⟩⟩) {j : ItemId}
      {count : Kernel.Count} {kureq : QhgpuKuRequest}
      (hpc : k.threads daemonTid = .readHand j count kureq) : ∃ k',
        Handled d kureq.serviceName ∧ Reaches (System.step d) Alone ⟨k, ⟨st, .reading⟩⟩
          ⟨k', .beginPass (Connector.qcAccept d st kureq).2 .serviceDone⟩ ∧
        k'.reqs = k.reqs := by
    have hcall := h.call
    rw [hpc] at hcall
    cases hcall
    have hcount : 0 < Kernel.kuRequestCount.val := by decide
    have hk : Kernel.step k (.step daemonTid) =
        some ({ k with rtdreqs := k.rtdreqs ++ [j] }.goto daemonTid
          (.readReturn sizeofKuRequest (some kureq))) := by
      simp only [Kernel.step, Kernel.stepThread, hpc, if_pos hcount]
      rfl
    have hfirst := reaches_kernel (d := d) (s := ⟨k, ⟨st, .reading⟩⟩) hk
      (by simp [hpc])
    obtain ⟨hhandled, hlast⟩ := (h.reaches hfirst).read_returns
      (Kernel.State.threads_goto_self ..)
    exact ⟨_, hhandled, hfirst.trans hlast, rfl⟩
  have hcall := h.call
  generalize hpc : k.threads daemonTid = pc at hcall
  cases hcall with
  | readLock hreqs =>
    obtain ⟨j, rest, hcons⟩ : ∃ j rest, k.reqs = j :: rest :=
      List.exists_cons_of_ne_nil hreqs
    obtain ⟨kureq, hk⟩ : ∃ kureq, Kernel.step k (.step daemonTid) =
        some ({ k with reqs := rest, taken := k.taken ++ [j] }.goto daemonTid
          (.readHand j Kernel.kuRequestCount kureq)) := by
      simp only [Kernel.step, Kernel.stepThread, hpc, hcons]
      exact ⟨_, rfl⟩
    have hfirst := reaches_kernel (d := d) (s := ⟨k, ⟨st, .reading⟩⟩) hk
      (by simp [hpc])
    obtain ⟨k', hhandled, hlast, hreqs'⟩ := hand (h.reaches hfirst)
      (Kernel.State.threads_goto_self ..)
    refine ⟨k', kureq, hhandled, hfirst.trans hlast, ?_⟩
    intro _ _ _ _
    rw [hreqs', hcons]
    rfl
  | @readHand j kureq =>
    obtain ⟨k', hhandled, hlast, -⟩ := hand h hpc
    exact ⟨k', kureq, hhandled, hlast, by simp⟩
  | @readReturn kureq =>
    obtain ⟨hhandled, hlast⟩ := h.read_returns hpc
    exact ⟨_, kureq, hhandled, hlast, by simp⟩

/-! ### What is left to do -/

/-- A request that waits counts 4, and one less for each list that it has moved on to. -/
def work (k : Kernel.State) (st : Connector.State) : Nat :=
  4 * k.reqs.length + 3 * st.initReqs.length + 2 * st.runningReqs.length +
    st.postExecReqs.length

/-- What the three passes of one iteration do to the lists. -/
theorem afterPasses_lists (h : StageInv d st) :
    (afterPasses .serviceDone st.postExecReqs st).initReqs = [] ∧
      (afterPasses .serviceDone st.postExecReqs st).runningReqs =
        st.runningReqs.tail ++ st.initReqs ∧
      (afterPasses .serviceDone st.postExecReqs st).postExecReqs =
        st.runningReqs.head?.toList := by
  let code : Nat → Int := fun _ ↦ 0
  have h1 := h.serviceDonePass
  have p1 := Connector.serviceDonePass_spec h
  have h2 := h1.postExecPass code
  have p2 := Connector.postExecPass_spec h1 code
  have p3 := Connector.launchExecPass_spec h2 code
  have hafter : afterPasses .serviceDone st.postExecReqs st =
      Connector.launchExecPass code
        (Connector.postExecPass code (Connector.serviceDonePass st)) := rfl
  rw [hafter]
  refine ⟨?_, ?_, ?_⟩
  · rw [p3.init]
    simp [code]
  · rw [p3.running, p2.running, p2.init, p1.running, p1.init]
    cases st.runningReqs <;> simp [code]
  · rw [p3.postExec, p2.postExec, p1.postExec, p1.running]
    cases st.runningReqs <;> simp [code]

/-- After the passes there is less to do by what was on the lists. -/
theorem work_afterPasses (h : StageInv d st) (hreqs : k'.reqs = k.reqs) :
    work k' (afterPasses .serviceDone st.postExecReqs st) + st.initReqs.length +
      st.postExecReqs.length + min 1 st.runningReqs.length = work k st := by
  obtain ⟨hinit, hrunning, hpost⟩ := afterPasses_lists h
  unfold work
  rw [hinit, hrunning, hpost, hreqs, List.length_append, List.length_tail]
  cases st.runningReqs with
  | nil =>
    simp only [List.length_nil, List.head?_nil, Option.toList_none]
    omega
  | cons i rest =>
    simp only [List.length_cons, List.head?_cons, Option.toList_some, List.length_nil]
    omega

/-- A request of a registered service that is taken in goes to `init_reqs`. -/
theorem qcAccept_handled (h : StageInv d st) {kureq : QhgpuKuRequest}
    (hk : Handled d kureq.serviceName) :
    (Connector.qcAccept d st kureq).2.initReqs = st.initReqs ++ [st.requests.length] ∧
      (Connector.qcAccept d st kureq).2.runningReqs = st.runningReqs ∧
      (Connector.qcAccept d st kureq).2.postExecReqs = st.postExecReqs := by
  obtain ⟨-, g, sr, -, -, -, -, hrec, hsteps, hstage⟩ :=
    h.qcAccept_spec (not_stop_of_handled hk)
  obtain rfl : g = .init := by
    cases g with
    | init => rfl
    | running => cases hsteps
    | postExec => cases hsteps
    | done => exact absurd hk.1 (Connector.Stage.record_done hrec)
  have hinit := hstage .init
  have hrunning := hstage .running
  have hpost := hstage .postExec
  simp only [Connector.State.stage, if_true, reduceCtorEq, if_false, List.append_nil]
    at hinit hrunning hpost
  exact ⟨hinit, hrunning, hpost⟩

/-- With all services registered no item is on `done_reqs`. -/
theorem Ready.doneReqs_nil (h : Ready d ⟨k, ⟨st, .getNext⟩⟩) : st.doneReqs = [] := by
  apply List.eq_nil_iff_forall_not_mem.mpr
  intro i hi
  obtain ⟨kureq, hreq, hrec, -⟩ := h.stage.item .done i hi
  exact Connector.Stage.record_done hrec (h.answerable.read kureq (List.mem_of_getElem? hreq))

/-- From one `poll` to the next there is less to do, or there was nothing. -/
theorem Ready.next (h : Ready d ⟨k, ⟨st, .getNext⟩⟩) : (k.reqs = [] ∧ st.allReqs = []) ∨
    ∃ k' st', Reaches (System.step d) Alone ⟨k, ⟨st, .getNext⟩⟩ ⟨k', ⟨st', .getNext⟩⟩ ∧
      work k' st' < work k st := by
  have hstage : StageInv d st := h.stage
  have hidle : k.threads daemonTid = .idle := by
    have hcall := h.call
    generalize k.threads daemonTid = pc at hcall ⊢
    cases hcall
    rfl
  cases hreqs : k.reqs with
  | nil =>
    by_cases hall : st.allReqs = []
    · exact Or.inl ⟨rfl, hall⟩
    · -- `poll` returns at once, and the passes find something
      have hfirst : Reaches (System.step d) Alone ⟨k, ⟨st, .getNext⟩⟩
          ⟨k, ⟨st, .walk .serviceDone st.postExecReqs⟩⟩ := by
        refine reaches_daemon expired .zeroed rfl rfl ?_ ?_
        · intro _
          refine .expired ?_ ?_
          · rw [qhgpuPoll, hreqs]
            rfl
          · rw [pollTimeout, if_neg hall]
        · simp only [stepDaemon, hidle]
          rfl
      obtain ⟨k', hk', hreqs'⟩ := (h.reaches hfirst).passes_end
      refine Or.inr ⟨k', _, hfirst.trans hk', ?_⟩
      have hwork := work_afterPasses hstage hreqs'
      obtain ⟨i, hi⟩ := List.exists_mem_of_ne_nil _ hall
      obtain ⟨g, hg⟩ := (hstage.mem_all i).mp hi
      have hpos := List.length_pos_of_mem hg
      cases g with
      | done =>
        rw [Connector.State.stage, h.doneReqs_nil] at hg
        cases hg
      | init | running | postExec =>
        simp only [Connector.State.stage] at hpos
        omega
  | cons j rest =>
    have hfirst : Reaches (System.step d) Alone ⟨k, ⟨st, .getNext⟩⟩
        ⟨k.goto daemonTid (.readLock Kernel.kuRequestCount false .zeroed),
          ⟨st, .reading⟩⟩ := by
      refine reaches_daemon (polled 1) .zeroed rfl rfl ?_ ?_
      · intro _
        apply Polls.ready
        rw [qhgpuPoll, hreqs]
        rfl
      · have hpoll : stepLoop d ⟨st, .getNext⟩ (polled 1) = ⟨st, .reading⟩ := rfl
        simp only [stepDaemon, hidle, hpoll, Kernel.step, if_true, Option.map_some]
    have hready := h.reaches hfirst
    obtain ⟨u, kureq, hhandled, hu, htail⟩ := hready.read_ends
    have hreqs' := htail _ _ _ (Kernel.State.threads_goto_self ..)
    have hsecond := hready.reaches hu
    obtain ⟨k', hk', hreqs''⟩ := hsecond.passes_end
    refine Or.inr ⟨k', _, hfirst.trans (hu.trans hk'), ?_⟩
    have hstage' : StageInv d (Connector.qcAccept d st kureq).2 := hsecond.stage
    have hwork := work_afterPasses hstage' hreqs''
    obtain ⟨hinit, hrunning, hpost⟩ := qcAccept_handled hstage hhandled
    have hu : u.reqs = rest := by
      rw [hreqs', Kernel.State.goto, hreqs]
      rfl
    have htaken : work u (Connector.qcAccept d st kureq).2 + 1 = work k st := by
      unfold work
      rw [hinit, hrunning, hpost, hu, hreqs, List.length_append, List.length_singleton,
        List.length_cons]
      omega
    have hle : work k' (afterPasses .serviceDone (Connector.qcAccept d st kureq).2.postExecReqs
        (Connector.qcAccept d st kureq).2) ≤ work u (Connector.qcAccept d st kureq).2 := by
      omega
    exact Nat.lt_of_le_of_lt hle (by omega)

/-- The loop comes to a `poll` from wherever it is. -/
theorem Ready.to_poll (h : Ready d s) :
    ∃ k st, Reaches (System.step d) Alone s ⟨k, ⟨st, .getNext⟩⟩ := by
  obtain ⟨k, st, lpc⟩ := s
  cases lpc with
  | walk p rest =>
    obtain ⟨u, hu, -⟩ := h.passes_end
    exact ⟨u, _, hu⟩
  | writing i rest =>
    obtain ⟨u, hu, -⟩ := h.write_ends
    obtain ⟨v, hv, -⟩ := (h.reaches hu).passes_end
    exact ⟨v, _, hu.trans hv⟩
  | getNext => exact ⟨k, st, .refl _⟩
  | reading =>
    obtain ⟨u, kureq, -, hu, -⟩ := h.read_ends
    obtain ⟨v, hv, -⟩ := (h.reaches hu).passes_end
    exact ⟨v, _, hu.trans hv⟩
  | stopped => exact absurd rfl h.running

/-! ### Every request is answered -/

/-- The daemon enqueues nothing. -/
theorem Ready.enqueued (h : Ready d s) (ha : Alone s a) (hs : System.step d s a = some s') :
    s'.kernel.enqueued = s.kernel.enqueued := by
  cases a with
  | kernel ka =>
    obtain rfl : ka = .step daemonTid := ha.1
    rw [System.step] at hs
    split at hs
    · obtain ⟨k', hk, rfl⟩ := Option.map_eq_some_iff.mp hs
      have hpc : s.kernel.threads daemonTid ≠ .idle := by
        intro hidle
        rw [Kernel.step, Kernel.stepThread, hidle] at hk
        cases hk
      exact ((Kernel.trans_of_step hk).deviceStep (h.call.ofClient hpc)).enqueued
    · cases hs
  | daemon ans stack =>
    rcases stepDaemon_kernel hs with heq | ⟨ka, ht, -, hen⟩
    · rw [heq]
    · rcases ht.enqueued_cases with heq | ⟨t, i, rfl, hi, -⟩
      · exact heq
      · rw [hen t rfl] at hi
        cases hi

/-- With nothing left for the daemon, every enqueued item has been finished. -/
theorem Ready.all_finished (h : Ready d ⟨k, ⟨st, .getNext⟩⟩) (hreqs : k.reqs = [])
    (hall : st.allReqs = []) : k.rtdreqs = [] ∧ ∀ j ∈ k.enqueued, j ∈ k.finished := by
  have hidle : k.threads daemonTid = .idle := by
    have hcall := h.call
    generalize k.threads daemonTid = pc at hcall ⊢
    cases hcall
    rfl
  have hrtd : k.rtdreqs = [] := by
    have hids : (k.rtdreqs.map (idOf k)).Perm (st.allReqs.map fun i ↦ (st.sr i).id) :=
      h.agreed.ids
    rw [hall] at hids
    exact List.map_eq_nil_iff.mp (List.perm_nil.mp hids)
  refine ⟨hrtd, ?_⟩
  intro j hj
  have hclient (t : Tid) : (k.threads t).ofClient = true := by
    by_cases ht : t = daemonTid
    · rw [ht, hidle]
      rfl
    · exact h.inv.clients t ht
  apply h.inv.numbered.conserved.all_finished hreqs h.inv.clean.dropped hrtd ?_ hj
  intro t
  change (k.threads t).inHand = none ∧ (k.threads t).removed = none ∧
    (k.threads t).calling = none
  have hof := hclient t
  cases hpc : k.threads t with
  | idle | sync | asyncEnqueue => exact ⟨rfl, rfl, rfl⟩
  | readLock | readWait | readHand | readReturn | writeFind | write =>
    rw [hpc] at hof
    cases hof

/-- The daemon is never stuck: from every state of a run, with the clients making no further
step, the daemon's own steps bring every request that was enqueued to the end of its callback
and leave no request in either program, if services are found and return 0. -/
theorem drains_of_meets (d : Daemon) (n : Nat) (arr : Int → Word) (pool : QhgpuMempool)
    (acts : List Act) (s : State) (hm : StepRun.Meets (step d) PollOk (.start n arr pool) acts)
    (h : StepRun.run (step d) (.start n arr pool) acts = some s) (hpc : s.loop.pc ≠ .stopped)
    (ha : Answerable d s) : ∃ t, Reaches (step d) Alone s t ∧ t.kernel.reqs = [] ∧
      t.kernel.rtdreqs = [] ∧ t.loop.st.allReqs = [] ∧
      ∀ j ∈ s.kernel.enqueued, j ∈ t.kernel.finished := by
  have hready : Ready d s := ⟨pollInv_of_run hm h, hpc, ha⟩
  obtain ⟨k, st, hpoll⟩ := hready.to_poll
  let I (u : State) : Prop := Ready d u ∧ u.loop.pc = .getNext
  let goal (u : State) : Prop := u.kernel.reqs = [] ∧ u.loop.st.allReqs = []
  have hdown (u : State) (hu : I u) : goal u ∨ ∃ t, Reaches (step d) Alone u t ∧ I t ∧
      work t.kernel t.loop.st < work u.kernel u.loop.st := by
    obtain ⟨k, st, lpc⟩ := u
    obtain rfl : lpc = .getNext := hu.2
    rcases hu.1.next with hgoal | ⟨k', st', hr, hlt⟩
    · exact Or.inl hgoal
    · exact Or.inr ⟨_, hr, ⟨hu.1.reaches hr, rfl⟩, hlt⟩
  obtain ⟨t, ht, ⟨hlast, htpc⟩, hreqs, hall⟩ := StepRun.reaches_of_rank
    (fun u : State ↦ work u.kernel u.loop.st) hdown (s := ⟨k, ⟨st, .getNext⟩⟩)
    ⟨hready.reaches hpoll, rfl⟩
  have hst := hpoll.trans ht
  have hen : t.kernel.enqueued = s.kernel.enqueued := by
    let same (u : State) : Prop := Ready d u ∧ u.kernel.enqueued = s.kernel.enqueued
    have hkeep (u : State) (a : Act) (u' : State) (hu : same u) (ha : Alone u a)
        (hs : System.step d u a = some u') : same u' :=
      ⟨hu.1.step ha hs, (hu.1.enqueued ha hs).trans hu.2⟩
    have hsame : same s := ⟨hready, rfl⟩
    exact (hst.invariant hkeep hsame).2
  obtain ⟨k', st', lpc⟩ := t
  obtain rfl : lpc = .getNext := htpc
  obtain ⟨hrtd, hfinished⟩ := hlast.all_finished hreqs hall
  refine ⟨_, hst, hreqs, hrtd, hall, ?_⟩
  rw [← hen]
  exact hfinished

/-- A request that waits is answered. -/
theorem drains_of_meets_submitted : ∃ s t,
    StepRun.run (step Connector.batchDaemon) (.start 1 (fun _ ↦ 0) .zeroed) (submit 0) =
      some s ∧ s.kernel.reqs = [0] ∧ Reaches (step Connector.batchDaemon) Alone s t ∧
      t.kernel.reqs = [] ∧ 0 ∈ t.kernel.finished := by
  have hm : StepRun.Meets (step Connector.batchDaemon) PollOk (.start 1 (fun _ ↦ 0) .zeroed)
      (submit 0) := by
    iterate 3 refine StepRun.meets_cons trivial rfl ?_
    trivial
  have hr : ∃ s, StepRun.run (step Connector.batchDaemon) (.start 1 (fun _ ↦ 0) .zeroed)
      (submit 0) = some s ∧ s.kernel.reqs = [0] ∧ s.kernel.enqueued = [0] ∧
      s.loop.pc ≠ .stopped ∧ Answerable Connector.batchDaemon s := by
    refine ⟨_, rfl, rfl, rfl, nofun, ?_, ?_, nofun, nofun⟩
    · intro j hj _
      obtain rfl := List.mem_singleton.mp hj
      exact nofun
    · intro j hj
      obtain rfl := List.mem_singleton.mp hj
      exact ⟨Option.some_ne_none _, by decide⟩
  obtain ⟨s, hr, hreqs, hen, hpc, ha⟩ := hr
  obtain ⟨t, hst, htreqs, -, -, hfin⟩ := drains_of_meets Connector.batchDaemon 1 (fun _ ↦ 0)
    .zeroed (submit 0) s hm hr hpc ha
  refine ⟨s, t, hr, hreqs, hst, htreqs, hfin 0 ?_⟩
  rw [hen]
  exact List.mem_singleton.mpr rfl

end QHGPU.System
