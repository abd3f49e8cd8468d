import QHGPU.Connector.Drain

/-!
# Order of stages, order of responses, and failed calls

Properties of the log of any run of the main loop: what precedes a response, in which order
responses are written, and what becomes of a call that fails.
-/

namespace QHGPU.Connector

variable {d : Daemon} {s t : State}

/-- The code a call returned; a response is no call. -/
def Event.code : Event → Int
  | .launch _ code => code
  | .post _ code => code
  | .respond _ _ => 0

/-- Every `launch` and `post` in the log returned 0. -/
def AllZero (log : List Event) : Prop := ∀ ev ∈ log, ev.code = 0

/-- The items responded to, in order. -/
def respondedIn (log : List Event) : List Nat :=
  log.filterMap fun
    | .respond i _ => some i
    | _ => none

/-- What was logged between two states of a run. -/
def newEvents (s t : State) : List Event := t.log.drop s.log.length

/-! ### The log of one iteration -/

/-- The three passes of an iteration in closed form. -/
theorem passes_spec (h : StageInv d s) (inp : IterInput) :
    ∃ s1 s2 s3, s1 = serviceDonePass s ∧ s2 = postExecPass inp.postCode s1 ∧
      s3 = launchExecPass inp.launchCode s2 ∧ DonePass s s1 ∧ PostPass inp.postCode s1 s2 ∧
      LaunchPass inp.launchCode s2 s3 ∧ StageInv d s1 ∧ StageInv d s2 ∧ StageInv d s3 := by
  have h1 := h.serviceDonePass
  have h2 := h1.postExecPass inp.postCode
  exact ⟨_, _, _, rfl, rfl, rfl, serviceDonePass_spec h, postExecPass_spec h1 _,
    launchExecPass_spec h2 _, h1, h2, h2.launchExecPass inp.launchCode⟩

/-- After the passes an iteration takes in at most one request: it changes no other list
than `init_reqs`, and the log not at all. -/
theorem qcMainLoopBody_tail (h : StageInv d s) (inp : IterInput) :
    let s3 := launchExecPass inp.launchCode (postExecPass inp.postCode (serviceDonePass s))
    let t := qcMainLoopBody d s inp
    t.log = s3.log ∧ t.postExecReqs = s3.postExecReqs ∧ t.runningReqs = s3.runningReqs ∧
      s3.requests.length ≤ t.requests.length ∧
      (t.initReqs = s3.initReqs ∨
        (t.initReqs = s3.initReqs ++ [s3.requests.length] ∧
          t.requests.length = s3.requests.length + 1)) := by
  have h3 := (h.serviceDonePass.postExecPass inp.postCode).launchExecPass inp.launchCode
  unfold qcMainLoopBody
  dsimp only
  generalize launchExecPass inp.launchCode
    (postExecPass inp.postCode (serviceDonePass s)) = s3 at h3 ⊢
  have same : s3.log = s3.log ∧ s3.postExecReqs = s3.postExecReqs ∧
      s3.runningReqs = s3.runningReqs ∧ s3.requests.length ≤ s3.requests.length ∧
      (s3.initReqs = s3.initReqs ∨ (s3.initReqs = s3.initReqs ++ [s3.requests.length] ∧
        s3.requests.length = s3.requests.length + 1)) :=
    ⟨rfl, rfl, rfl, Nat.le_refl _, Or.inl rfl⟩
  rcases qcGetNextServiceRequest_cases d inp.env s3 with hr | hr | hr
  · rw [hr]
    exact same
  · rw [hr]
    exact same
  · rw [hr]
    cases hstop : isStopRequest inp.env.kureq
    · obtain ⟨hret, g, sr, hreq, _, hlog, _, _, _, hstage⟩ := h3.qcAccept_spec hstop
      have hrun := hstage .running
      have hpost := hstage .postExec
      have hinit := hstage .init
      have hg : g ≠ .running ∧ g ≠ .postExec := by
        constructor <;> rintro rfl <;> simp_all [Stage.steps]
      rw [if_neg (Ne.symm hg.1), List.append_nil] at hrun
      rw [if_neg (Ne.symm hg.2), List.append_nil] at hpost
      dsimp only
      rw [hret, if_neg (by decide)]
      refine ⟨hlog, hpost, hrun, ?_, ?_⟩
      · rw [hreq, List.length_append]
        omega
      · by_cases hi : g = .init
        · rw [if_pos hi.symm] at hinit
          refine Or.inr ⟨hinit, ?_⟩
          rw [hreq, List.length_append, List.length_singleton]
        · rw [if_neg (Ne.symm hi), List.append_nil] at hinit
          exact Or.inl hinit
    · rw [qcAccept, hstop]
      exact same

/-- The log only grows: an iteration adds responses, then posts, then launches. -/
theorem qcMainLoopBody_log (h : StageInv d s) (inp : IterInput) :
    s.log <+: (qcMainLoopBody d s inp).log := by
  obtain ⟨s1, s2, s3, rfl, rfl, rfl, p1, p2, p3, _⟩ := passes_spec h inp
  rw [(qcMainLoopBody_tail h inp).1, p3.log, p2.log, p1.log, List.append_assoc,
    List.append_assoc]
  exact List.prefix_append ..

/-! ### Stage order -/

/-- In a log that holds with the invariant, a response comes after exactly one successful
launch and, after it, one successful post of its item, and is the item's only one. -/
theorem StageInv.steps_before_respond (h : StageInv d s) {i : Nat} {resp : QhgpuKuResponse}
    {pre suf : List Event} (hlog : s.log = pre ++ .respond i resp :: suf) :
    stepsOf i pre = [.launch i 0, .post i 0] ∧ stepsOf i suf = [] := by
  have hsplit : stepsOf i s.log = stepsOf i pre ++ .respond i resp :: stepsOf i suf := by
    rw [hlog, stepsOf_append]
    simp [stepsOf, Event.isStep]
  have hmem : Event.respond i resp ∈ stepsOf i s.log := by
    rw [hsplit]
    exact List.mem_append_right _ List.mem_cons_self
  have hlt : i < s.requests.length := by
    by_contra hge
    rw [h.unread i (Nat.not_lt.mp hge)] at hmem
    cases hmem
  have hread := List.getElem?_eq_getElem hlt
  by_cases hall : i ∈ s.allReqs
  · obtain ⟨g, hg⟩ := (h.mem_all i).mp hall
    obtain ⟨_, _, _, hsteps⟩ := h.item g i hg
    rw [hsteps] at hmem
    cases g <;> simp [Stage.steps] at hmem
  · obtain ⟨_, hsteps⟩ := h.gone i _ hread hall
    rw [hsplit] at hsteps
    generalize stepsOf i pre = a at hsteps ⊢
    generalize stepsOf i suf = b at hsteps ⊢
    rcases a with _ | ⟨e₁, _ | ⟨e₂, _ | ⟨e₃, a⟩⟩⟩
    · simp at hsteps
    · simp at hsteps
    · simp_all
    · simp at hsteps

/-! ### Response order -/

/-- The items with a service, the furthest advanced first. -/
def State.pipeline (s : State) : List Nat :=
  respondedIn s.log ++ s.postExecReqs ++ s.runningReqs ++ s.initReqs

private theorem respondedIn_append (log log' : List Event) :
    respondedIn (log ++ log') = respondedIn log ++ respondedIn log' := List.filterMap_append ..

/-- Only items that were read are responded to. -/
theorem StageInv.lt_of_responded (h : StageInv d s) {i : Nat} (hi : i ∈ respondedIn s.log) :
    i < s.requests.length := by
  obtain ⟨ev, hev, hi⟩ := List.mem_filterMap.mp hi
  cases ev with
  | launch j code => cases hi
  | post j code => cases hi
  | respond j resp =>
    obtain rfl := Option.some.inj hi
    by_contra hge
    have hmem : Event.respond j resp ∈ stepsOf j s.log :=
      List.mem_filter.mpr ⟨hev, by simp [Event.isStep]⟩
    rw [h.unread j (Nat.not_lt.mp hge)] at hmem
    cases hmem

/-- Nothing in the pipeline is newer than the last request read. -/
theorem StageInv.lt_of_pipeline (h : StageInv d s) {i : Nat} (hi : i ∈ s.pipeline) :
    i < s.requests.length := by
  simp only [State.pipeline, List.mem_append] at hi
  rcases hi with ((hi | hi) | hi) | hi
  · exact h.lt_of_responded hi
  · exact h.lt_length (g := .postExec) hi
  · exact h.lt_length (g := .running) hi
  · exact h.lt_length (g := .init) hi

private theorem DonePass.pipeline (h : DonePass s t) : t.pipeline = s.pipeline := by
  have hresp : respondedIn (s.postExecReqs.map fun i ↦ .respond i (s.response i)) =
      s.postExecReqs := by
    simp [respondedIn, List.filterMap_map]
  rw [State.pipeline, h.log, respondedIn_append, hresp, h.postExec, h.running, h.init,
    List.append_nil, State.pipeline]

/-- A post pass without failures moves the oldest running item. -/
theorem PostPass.pipeline {postCode : Nat → Int} (h : PostPass postCode s t)
    (hz : ∀ i ∈ visited postCode s.runningReqs, postCode i = 0) : t.pipeline = s.pipeline := by
  have hresp : respondedIn ((visited postCode s.runningReqs).map fun i ↦
      .post i (postCode i)) = [] := by
    simp [respondedIn, List.filterMap_map]
  rw [State.pipeline, h.log, respondedIn_append, hresp, h.postExec, h.running, h.init,
    List.append_nil, State.pipeline]
  cases hr : s.runningReqs with
  | nil => simp
  | cons i rest =>
    have hi : postCode i = 0 := by
      refine hz i ?_
      rw [hr, visited]
      split <;> exact List.mem_cons_self
    simp [hi]

/-- A launch pass without failures moves every item of `init_reqs`. -/
theorem LaunchPass.pipeline {launchCode : Nat → Int} (h : LaunchPass launchCode s t)
    (hz : ∀ i ∈ s.initReqs, launchCode i = 0) : t.pipeline = s.pipeline := by
  have hresp : respondedIn (s.initReqs.map fun i ↦ .launch i (launchCode i)) = [] := by
    simp [respondedIn, List.filterMap_map]
  have hall : (s.initReqs.filter fun i ↦ launchCode i = 0) = s.initReqs := by
    refine List.filter_eq_self.mpr ?_
    intro i hi
    exact decide_eq_true (hz i hi)
  have hnone : (s.initReqs.filter fun i ↦ launchCode i ≠ 0) = [] := by
    refine List.filter_eq_nil_iff.mpr ?_
    intro i hi
    simp [hz i hi]
  rw [State.pipeline, h.log, respondedIn_append, hresp, h.postExec, h.running, h.init, hall,
    hnone, State.pipeline, List.append_nil, List.append_nil, List.append_assoc _ s.runningReqs]

/-- While no call fails, an iteration keeps the pipeline in the order of the reads. -/
theorem pipeline_sorted_iteration (h : StageInv d s) (hp : s.pipeline.Pairwise (· < ·))
    {inp : IterInput} (hz : AllZero (qcMainLoopBody d s inp).log) :
    (qcMainLoopBody d s inp).pipeline.Pairwise (· < ·) := by
  obtain ⟨s1, s2, s3, rfl, rfl, rfl, p1, p2, p3, _, _, h3⟩ := passes_spec h inp
  obtain ⟨hlog, hpost, hrun, hlen, hinit⟩ := qcMainLoopBody_tail h inp
  generalize serviceDonePass s = s1 at *
  generalize postExecPass inp.postCode s1 = s2 at *
  generalize launchExecPass inp.launchCode s2 = s3 at *
  have hz3 : AllZero s3.log := by
    rw [← hlog]
    exact hz
  have hlaunch : ∀ i ∈ s2.initReqs, inp.launchCode i = 0 := by
    intro i hi
    refine hz3 (.launch i (inp.launchCode i)) ?_
    rw [p3.log]
    exact List.mem_append_right _ (List.mem_map.mpr ⟨i, hi, rfl⟩)
  have hposts : ∀ i ∈ visited inp.postCode s1.runningReqs, inp.postCode i = 0 := by
    intro i hi
    refine hz3 (.post i (inp.postCode i)) ?_
    rw [p3.log, p2.log]
    exact List.mem_append_left _ (List.mem_append_right _ (List.mem_map.mpr ⟨i, hi, rfl⟩))
  have hp3 : s3.pipeline.Pairwise (· < ·) := by
    rw [p3.pipeline hlaunch, p2.pipeline hposts, p1.pipeline]
    exact hp
  rcases hinit with hinit | ⟨hinit, _⟩
  · rw [State.pipeline, hlog, hpost, hrun, hinit]
    exact hp3
  · rw [State.pipeline, hlog, hpost, hrun, hinit, ← List.append_assoc]
    refine List.pairwise_append.mpr ⟨hp3, List.pairwise_singleton _ _, ?_⟩
    intro i hi j hj
    rw [List.mem_singleton.mp hj]
    exact h3.lt_of_pipeline hi

/-- The log of a run begins with the log of its first state. -/
theorem log_prefix_of_run (h : StageInv d s) {inps : List IterInput}
    (hrun : StepRun.run (qcMainLoop d) s inps = some t) : s.log <+: t.log := by
  induction inps generalizing s with
  | nil =>
    obtain rfl := Option.some.inj hrun
    exact List.prefix_rfl
  | cons inp inps ih =>
    obtain ⟨u, hu, hrest⟩ := StepRun.run_cons_iff.mp hrun
    obtain rfl := qcMainLoop_eq_some hu
    exact (qcMainLoopBody_log h inp).trans (ih (h.qcMainLoopBody inp) hrest)

/-- While no call fails, the whole run keeps the pipeline in the order of the reads. -/
theorem pipeline_sorted_run (h : StageInv d s) (hp : s.pipeline.Pairwise (· < ·))
    {inps : List IterInput} (hrun : StepRun.run (qcMainLoop d) s inps = some t)
    (hz : AllZero t.log) : t.pipeline.Pairwise (· < ·) := by
  induction inps generalizing s with
  | nil =>
    obtain rfl := Option.some.inj hrun
    exact hp
  | cons inp inps ih =>
    obtain ⟨u, hu, hrest⟩ := StepRun.run_cons_iff.mp hrun
    obtain rfl := qcMainLoop_eq_some hu
    have hinv := h.qcMainLoopBody inp
    refine ih hinv (pipeline_sorted_iteration h hp ?_) hrest
    intro ev hev
    exact hz ev ((log_prefix_of_run hinv hrest).subset hev)

/-- In every run of the main loop: a response is preceded by one successful launch and then
one successful post of its request; each request read has at most one response, and nothing
else has one; while no call fails, responses come in the order of the reads. -/
theorem response_order (d : Daemon) (inps : List IterInput) (s : State)
    (h : StepRun.run (qcMainLoop d) .start inps = some s) :
    (∀ i resp pre suf, s.log = pre ++ .respond i resp :: suf →
      stepsOf i pre = [.launch i 0, .post i 0]) ∧
    (∀ i, (responsesTo i s.log).length ≤ 1) ∧
    (∀ i ∈ respondedIn s.log, i < s.requests.length) ∧
    (AllZero s.log → (respondedIn s.log).Pairwise (· < ·)) := by
  have hinv := stageInv_of_run h
  refine ⟨?_, ?_, ?_, ?_⟩
  · intro i resp pre suf hlog
    exact (hinv.steps_before_respond hlog).1
  · intro i
    rw [← responsesTo_stepsOf]
    by_cases hlt : i < s.requests.length
    · by_cases hall : i ∈ s.allReqs
      · obtain ⟨g, hg⟩ := (hinv.mem_all i).mp hall
        obtain ⟨_, _, _, hsteps⟩ := hinv.item g i hg
        rw [hsteps]
        cases g <;> simp [Stage.steps, responsesTo]
      · rw [(hinv.gone i _ (List.getElem?_eq_getElem hlt) hall).2]
        simp [responsesTo]
    · rw [hinv.unread i (Nat.not_lt.mp hlt)]
      exact Nat.zero_le 1
  · intro i hi
    exact hinv.lt_of_responded hi
  · intro hz
    have hp := pipeline_sorted_run StageInv.start List.Pairwise.nil h hz
    rw [State.pipeline, List.append_assoc, List.append_assoc] at hp
    exact (List.pairwise_append.mp hp).1

/-- Two requests for `batch_service` read one after the other, then time to answer them. -/
def twoRequests : List IterInput :=
  [arrival (fillKuRequest .zeroed .zeroed (batchRequest 0 0)),
    arrival (fillKuRequest .zeroed .zeroed (batchRequest 1 1)), quiet, quiet, quiet, quiet]

/-- Two requests are answered in the order in which they were read. -/
theorem response_order_two : ∃ s,
    StepRun.run (qcMainLoop batchDaemon) .start twoRequests = some s ∧
      respondedIn s.log = [0, 1] ∧ (respondedIn s.log).Pairwise (· < ·) :=
  ⟨_, rfl, by decide, (response_order batchDaemon twoRequests _ rfl).2.2.2
    (by unfold AllZero; decide)⟩

end QHGPU.Connector
