import QHGPU.Connector.Fidelity
import QHGPU.Connector.Passes

/-!
# When the loop drains

With no further request and every call returning 0, the pipeline empties one running item
per iteration. Nothing visits `done_reqs`.
-/

namespace QHGPU.Connector

variable {d : Daemon} {s t : State}

/-- An iteration in which every call returns 0 and `poll` reports no request. -/
def quiet : IterInput where
  launchCode _ := 0
  postCode _ := 0
  env := ⟨fun _ ↦ 0, false, true, 0, false, .zeroed⟩

/-- An iteration in which every call returns 0 and `kureq` is read from the device. -/
def arrival (kureq : QhgpuKuRequest) : IterInput where
  launchCode _ := 0
  postCode _ := 0
  env := ⟨fun _ ↦ 1, true, true, sizeofKuRequest, false, kureq⟩

/-- The responses written for item `i`. -/
def responsesTo (i : Nat) (log : List Event) : List QhgpuKuResponse :=
  log.filterMap fun
    | .respond j resp => if j = i then some resp else none
    | _ => none

/-- The error code a request is answered with when all its calls return 0. -/
def recordedErrcode (d : Daemon) (kureq : QhgpuKuRequest) : Int :=
  match qcLookupService d.services kureq.serviceName with
  | none => qhgpuNoService
  | some _ => 0

/-- Every request read has had exactly one response, with its own id and recorded code. -/
def Answered (d : Daemon) (s : State) : Prop :=
  ∀ i kureq, s.requests[i]? = some kureq →
    responsesTo i s.log = [⟨kureq.id, recordedErrcode d kureq⟩]

/-- Within (items in `init_reqs`) + (items in `running_reqs`) + 2 quiet iterations no item is
left and every request is answered. -/
def Drains (d : Daemon) (s : State) : Prop :=
  ∃ k ≤ s.initReqs.length + s.runningReqs.length + 2, ∃ t,
    StepRun.run (qcMainLoop d) s (List.replicate k quiet) = some t ∧ t.allReqs = [] ∧
      Answered d t

private theorem recordedErrcode_of_found {kureq : QhgpuKuRequest} (h : Found d kureq) :
    recordedErrcode d kureq = 0 := by
  unfold recordedErrcode
  unfold Found at h
  cases hl : qcLookupService d.services kureq.serviceName with
  | none => exact absurd hl h
  | some service => rfl

/-- Responses are found among an item's steps. -/
theorem responsesTo_stepsOf (i : Nat) (log : List Event) :
    responsesTo i (stepsOf i log) = responsesTo i log := by
  induction log with
  | nil => rfl
  | cons ev log ih =>
    cases ev with
    | launch j code =>
      by_cases hj : (j == i && code == 0) = true <;>
        simpa [stepsOf, responsesTo, Event.isStep, hj] using ih
    | post j code =>
      by_cases hj : (j == i && code == 0) = true <;>
        simpa [stepsOf, responsesTo, Event.isStep, hj] using ih
    | respond j resp =>
      by_cases hj : j = i <;>
        simpa [stepsOf, responsesTo, Event.isStep, hj] using ih

/-- An item that has left `all_reqs` was answered once, with code 0. -/
theorem StageInv.responsesTo_gone (h : StageInv d s) {i : Nat} {kureq : QhgpuKuRequest}
    (hr : s.requests[i]? = some kureq) (hi : i ∉ s.allReqs) :
    responsesTo i s.log = [⟨kureq.id, recordedErrcode d kureq⟩] := by
  obtain ⟨hfound, hsteps⟩ := h.gone i kureq hr hi
  rw [← responsesTo_stepsOf, hsteps, recordedErrcode_of_found hfound]
  simp [responsesTo]

/-- A request whose service was not found stays on `done_reqs`. -/
theorem StageInv.mem_doneReqs (h : StageInv d s) {i : Nat} {kureq : QhgpuKuRequest}
    (hr : s.requests[i]? = some kureq) (hnot : ¬Found d kureq) : i ∈ s.doneReqs := by
  by_cases hi : i ∈ s.allReqs
  · obtain ⟨g, hg⟩ := (h.mem_all i).mp hi
    obtain ⟨kureq', hr', hrec, _⟩ := h.item g i hg
    obtain rfl : kureq = kureq' := Option.some.inj (hr.symm.trans hr')
    by_cases hd : g = .done
    · subst hd
      exact hg
    · exact absurd (Stage.record_found hrec hd).1 hnot
  · exact absurd (h.gone i kureq hr hi).1 hnot

/-- What one quiet iteration does to the lists. -/
theorem quiet_iteration (h : StageInv d s) (hs : s.stopped = false) :
    ∃ t, qcMainLoop d s quiet = some t ∧ StageInv d t ∧ t.stopped = false ∧
      t.initReqs = [] ∧ t.runningReqs = s.runningReqs.tail ++ s.initReqs ∧
      t.postExecReqs = s.runningReqs.head?.toList ∧ t.doneReqs = s.doneReqs ∧
      t.requests = s.requests := by
  have h1 := h.serviceDonePass
  have p1 := serviceDonePass_spec h
  have h2 := h1.postExecPass quiet.postCode
  have p2 := postExecPass_spec h1 quiet.postCode
  have h3 := h2.launchExecPass quiet.launchCode
  have p3 := launchExecPass_spec h2 quiet.launchCode
  refine ⟨_, ?_, h3, ?_, ?_, ?_, ?_, ?_, ?_⟩
  · rw [qcMainLoop, hs]
    rfl
  · rw [p3.stopped, p2.stopped, p1.stopped, hs]
  · rw [p3.init]
    simp [quiet]
  · rw [p3.running, p2.running, p2.init, p1.running, p1.init]
    cases s.runningReqs <;> simp [quiet]
  · rw [p3.postExec, p2.postExec, p1.postExec, p1.running]
    cases s.runningReqs <;> simp [quiet]
  · rw [p3.done, p2.done, p1.done]
  · rw [p3.requests, p2.requests, p1.requests]

/-- Once `init_reqs` is empty, one more iteration than there are running items empties the
other two lists. -/
theorem quiet_drain (n : Nat) (h : StageInv d s) (hs : s.stopped = false)
    (hinit : s.initReqs = []) (hn : s.runningReqs.length = n) :
    ∃ t, StepRun.run (qcMainLoop d) s (List.replicate (n + 1) quiet) = some t ∧
      StageInv d t ∧ t.initReqs = [] ∧ t.runningReqs = [] ∧ t.postExecReqs = [] ∧
      t.doneReqs = s.doneReqs ∧ t.requests = s.requests := by
  induction n generalizing s with
  | zero =>
    obtain ⟨t, hstep, ht, _, e1, e2, e3, e4, e5⟩ := quiet_iteration h hs
    have hrun := List.eq_nil_of_length_eq_zero hn
    refine ⟨t, StepRun.run_cons_iff.mpr ⟨t, hstep, rfl⟩, ht, e1, ?_, ?_, e4, e5⟩
    · rw [e2, hrun, hinit]
      rfl
    · rw [e3, hrun]
      rfl
  | succ n ih =>
    obtain ⟨u, hstep, hu, hus, e1, e2, _, e4, e5⟩ := quiet_iteration h hs
    have hlen : u.runningReqs.length = n := by
      rw [e2, hinit, List.append_nil, List.length_tail, hn]
      rfl
    obtain ⟨t, hrun, ht, f1, f2, f3, f4, f5⟩ := ih hu hus e1 hlen
    exact ⟨t, StepRun.run_cons_iff.mpr ⟨u, hstep, hrun⟩, ht, f1, f2, f3, f4.trans e4,
      f5.trans e5⟩

/-- Quiet iterations never touch `done_reqs`. -/
theorem quiet_doneReqs (k : Nat) (h : StageInv d s)
    (hrun : StepRun.run (qcMainLoop d) s (List.replicate k quiet) = some t) :
    StageInv d t ∧ t.doneReqs = s.doneReqs := by
  induction k generalizing s with
  | zero =>
    obtain rfl := Option.some.inj hrun
    exact ⟨h, rfl⟩
  | succ k ih =>
    obtain ⟨u, hstep, hrest⟩ := StepRun.run_cons_iff.mp hrun
    have hs : s.stopped = false := by
      cases hst : s.stopped
      · rfl
      · simp [qcMainLoop, hst] at hstep
    obtain ⟨v, hv, hinv, _, _, _, _, hdone, _⟩ := quiet_iteration h hs
    obtain rfl : v = u := Option.some.inj (hv.symm.trans hstep)
    obtain ⟨ht, hd⟩ := ih hinv hrest
    exact ⟨ht, hd.trans hdone⟩

/-- From any state of the running loop: the loop drains exactly when every request read so
far names a registered service. -/
theorem drains_iff {inps : List IterInput}
    (hreach : StepRun.run (qcMainLoop d) .start inps = some s) (hs : s.stopped = false) :
    Drains d s ↔ ∀ kureq ∈ s.requests, Found d kureq := by
  have h := stageInv_of_run hreach
  constructor
  · rintro ⟨k, _, t, hrun, hall, _⟩ kureq hmem
    by_contra hnot
    obtain ⟨i, hr⟩ := List.mem_iff_getElem?.mp hmem
    obtain ⟨ht, hdone⟩ := quiet_doneReqs k h hrun
    have hi : i ∈ t.stage .done := by
      rw [State.stage, hdone]
      exact h.mem_doneReqs hr hnot
    have := (ht.mem_all i).mpr ⟨.done, hi⟩
    rw [hall] at this
    cases this
  · intro hfound
    have hdone : s.doneReqs = [] := by
      refine List.eq_nil_iff_forall_not_mem.mpr ?_
      intro i hi
      obtain ⟨kureq, hr, hrec, _⟩ := h.item .done i hi
      exact Stage.record_done hrec (hfound kureq (List.mem_of_getElem? hr))
    obtain ⟨u, hstep, hu, hus, e1, e2, _, e4, e5⟩ := quiet_iteration h hs
    obtain ⟨t, hrun, ht, f1, f2, f3, f4, f5⟩ := quiet_drain _ hu hus e1 rfl
    have hall : t.allReqs = [] := by
      refine List.eq_nil_iff_forall_not_mem.mpr ?_
      intro i hi
      obtain ⟨g, hg⟩ := (ht.mem_all i).mp hi
      cases g <;> simp [State.stage, f1, f2, f3, f4, e4, hdone] at hg
    refine ⟨u.runningReqs.length + 1 + 1, ?_, t, StepRun.run_cons_iff.mpr ⟨u, hstep, hrun⟩,
      hall, ?_⟩
    · rw [e2, List.length_append, List.length_tail]
      omega
    · intro i kureq hr
      refine ht.responsesTo_gone hr ?_
      rw [hall]
      exact List.not_mem_nil

/-- A request for `batch_service` is answered. -/
theorem drains_iff_batch : ∃ s, StepRun.run (qcMainLoop batchDaemon) .start
      [arrival (fillKuRequest .zeroed .zeroed (batchRequest 0 0))] = some s ∧
    s.stopped = false ∧ Drains batchDaemon s := by
  let kureq := fillKuRequest .zeroed .zeroed (batchRequest 0 0)
  have hrun : StepRun.run (qcMainLoop batchDaemon) .start [arrival kureq] =
      some (qcMainLoopBody batchDaemon .start (arrival kureq)) := rfl
  refine ⟨_, hrun, rfl, (drains_iff hrun rfl).mpr ?_⟩
  intro kureq hmem
  obtain rfl := List.mem_singleton.mp hmem
  exact Option.some_ne_none _

/-- A request for a service that is not registered stays in the daemon. -/
theorem not_drains_unregistered : ¬∀ (d : Daemon) (inps : List IterInput) (s : State),
    StepRun.run (qcMainLoop d) .start inps = some s → s.stopped = false → Drains d s := by
  intro hall
  let d : Daemon := { batchDaemon with services := [] }
  let kureq := fillKuRequest .zeroed .zeroed (batchRequest 0 0)
  have hrun : StepRun.run (qcMainLoop d) .start [arrival kureq] =
      some (qcMainLoopBody d .start (arrival kureq)) := rfl
  obtain ⟨k, _, t, hdrain, hempty, _⟩ := hall d _ _ hrun rfl
  obtain ⟨ht, hdone⟩ := quiet_doneReqs k (stageInv_of_run hrun) hdrain
  have h0 : 0 ∈ t.stage .done := by
    rw [State.stage, hdone]
    decide
  have hmem := (ht.mem_all 0).mpr ⟨.done, h0⟩
  rw [hempty] at hmem
  cases hmem

end QHGPU.Connector
