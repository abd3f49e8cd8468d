import QHGPU.Connector.Fidelity
import QHGPU.Connector.StageOrder

/-!
# What becomes of a failed call

A failed launch or post leaves its item on the list that the same pass walks in every later
iteration; no response is sent for it.
-/

namespace QHGPU.Connector

variable {d : Daemon} {s t : State}

/-- A call of `launch` for item `i`. -/
def Event.isLaunch (i : Nat) : Event → Bool
  | .launch j _ => j == i
  | _ => false

/-- A call of `post` for item `i`. -/
def Event.isPost (i : Nat) : Event → Bool
  | .post j _ => j == i
  | _ => false

/-- No request is launched twice or posted twice. -/
def CalledOnce (log : List Event) : Prop :=
  ∀ i, log.countP (Event.isLaunch i) ≤ 1 ∧ log.countP (Event.isPost i) ≤ 1

/-- The next response pass writes exactly one response for item `i`, with code `e`. -/
def SendsOne (s : State) (i : Nat) (e : Int) : Prop :=
  responsesTo i (serviceDonePass s).log = responsesTo i s.log ++ [⟨(s.sr i).id, e⟩]

/-- In this iteration each pass moves a request whose call returned `e ≠ 0` from the list it
walks to the one that responses are sent from, with code `e`. -/
def IterationReports (inp : IterInput) (s : State) : Prop :=
  let s1 := serviceDonePass s
  let s2 := postExecPass inp.postCode s1
  let s3 := launchExecPass inp.launchCode s2
  (∀ i e, e ≠ 0 → .post i e ∈ newEvents s1 s2 → i ∉ s2.runningReqs ∧ SendsOne s2 i e) ∧
    (∀ i e, e ≠ 0 → .launch i e ∈ newEvents s2 s3 → i ∉ s3.initReqs ∧ SendsOne s3 i e)

/-- Every iteration of the run reports its failed calls. -/
def RunReports (d : Daemon) : State → List IterInput → Prop
  | _, [] => True
  | s, inp :: inps => IterationReports inp s ∧ RunReports d (qcMainLoopBody d s inp) inps

/-- The items whose post failed stay on `running_reqs`. -/
theorem PostPass.mem_running {postCode : Nat → Int} (h : PostPass postCode s t) {i : Nat}
    (hi : i ∈ visited postCode s.runningReqs) (hc : postCode i ≠ 0) : i ∈ t.runningReqs := by
  have hvisited : ∀ l : List Nat, i ∈ visited postCode l → i ∈ l := by
    intro l
    induction l with
    | nil => exact id
    | cons j l ih =>
      rw [visited]
      split
      · intro hj
        exact List.mem_cons.mpr (Or.inl (List.mem_singleton.mp hj))
      · intro hj
        rcases List.mem_cons.mp hj with rfl | hj
        · exact List.mem_cons_self
        · exact List.mem_cons_of_mem j (ih hj)
  rw [h.running]
  exact (List.mem_eraseP_of_neg (by simpa using hc)).mpr (hvisited _ hi)

/-- An iteration that reports its failed calls has none. -/
theorem allZero_of_iterationReports (h : StageInv d s) {inp : IterInput}
    (hrep : IterationReports inp s) (hz : AllZero s.log) :
    AllZero (qcMainLoopBody d s inp).log := by
  obtain ⟨s1, s2, s3, rfl, rfl, rfl, p1, p2, p3, _⟩ := passes_spec h inp
  obtain ⟨hpost, hlaunch⟩ := hrep
  rw [AllZero, (qcMainLoopBody_tail h inp).1]
  generalize serviceDonePass s = s1 at *
  generalize postExecPass inp.postCode s1 = s2 at *
  generalize launchExecPass inp.launchCode s2 = s3 at *
  rw [newEvents, p2.log, List.drop_left] at hpost
  rw [newEvents, p3.log, List.drop_left] at hlaunch
  intro ev hev
  rw [p3.log, p2.log, p1.log] at hev
  simp only [List.mem_append, List.mem_map] at hev
  by_contra hne
  rcases hev with ((hev | ⟨i, _, rfl⟩) | ⟨i, hi, rfl⟩) | ⟨i, hi, rfl⟩
  · exact hne (hz ev hev)
  · exact hne rfl
  · have hmem := (hpost i _ hne (List.mem_map.mpr ⟨i, hi, rfl⟩)).1
    exact hmem (p2.mem_running hi hne)
  · have hmem := (hlaunch i _ hne (List.mem_map.mpr ⟨i, hi, rfl⟩)).1
    refine hmem ?_
    rw [p3.init]
    exact List.mem_filter.mpr ⟨hi, decide_eq_true hne⟩

/-- An iteration without failed calls has nothing to report. -/
theorem iterationReports_of_allZero (h : StageInv d s) {inp : IterInput}
    (hz : AllZero (qcMainLoopBody d s inp).log) : IterationReports inp s := by
  obtain ⟨s1, s2, s3, rfl, rfl, rfl, p1, p2, p3, _⟩ := passes_spec h inp
  rw [AllZero, (qcMainLoopBody_tail h inp).1] at hz
  unfold IterationReports
  dsimp only
  generalize serviceDonePass s = s1 at *
  generalize postExecPass inp.postCode s1 = s2 at *
  generalize launchExecPass inp.launchCode s2 = s3 at *
  constructor
  · intro i e he hev
    have hmem : Event.post i e ∈ s3.log := by
      rw [p3.log]
      exact List.mem_append_left _ (List.mem_of_mem_drop hev)
    exact absurd (hz _ hmem) he
  · intro i e he hev
    exact absurd (hz _ (List.mem_of_mem_drop hev)) he

/-- Counting calls that all returned 0 is counting among an item's steps. -/
private theorem countP_stepsOf {log : List Event} (hz : AllZero log) (i : Nat)
    {p : Event → Bool} (hp : ∀ ev, p ev = true → ev.code = 0 → ev.isStep i = true) :
    log.countP p = (stepsOf i log).countP p := by
  rw [stepsOf, List.countP_filter]
  refine List.countP_congr ?_
  intro ev hev
  constructor
  · intro h
    rw [h, hp ev h (hz ev hev)]
    rfl
  · intro h
    exact (Bool.and_eq_true_iff.mp h).1

/-- Without failed calls no call is repeated. -/
theorem StageInv.calledOnce (h : StageInv d s) (hz : AllZero s.log) : CalledOnce s.log := by
  intro i
  rw [countP_stepsOf hz i (p := Event.isLaunch i), countP_stepsOf hz i (p := Event.isPost i)]
  · by_cases hlt : i < s.requests.length
    · by_cases hall : i ∈ s.allReqs
      · obtain ⟨g, hg⟩ := (h.mem_all i).mp hall
        obtain ⟨_, _, _, hsteps⟩ := h.item g i hg
        rw [hsteps]
        cases g <;> simp [Stage.steps, Event.isLaunch, Event.isPost]
      · rw [(h.gone i _ (List.getElem?_eq_getElem hlt) hall).2]
        simp [Event.isLaunch, Event.isPost]
    · rw [h.unread i (Nat.not_lt.mp hlt)]
      simp
  · intro ev hev hcode
    cases ev <;> simp_all [Event.isPost, Event.code, Event.isStep]
  · intro ev hev hcode
    cases ev <;> simp_all [Event.isLaunch, Event.code, Event.isStep]

/-- Reports of a run, by induction on its iterations. -/
theorem runReports_iff (h : StageInv d s) (hz : AllZero s.log) {inps : List IterInput}
    (hrun : StepRun.run (qcMainLoop d) s inps = some t) :
    RunReports d s inps ↔ AllZero t.log := by
  induction inps generalizing s with
  | nil =>
    obtain rfl := Option.some.inj hrun
    exact iff_of_true trivial hz
  | cons inp inps ih =>
    obtain ⟨u, hu, hrest⟩ := StepRun.run_cons_iff.mp hrun
    obtain rfl := qcMainLoop_eq_some hu
    have hinv := h.qcMainLoopBody inp
    constructor
    · rintro ⟨hiter, hruns⟩
      exact (ih hinv (allZero_of_iterationReports h hiter hz) hrest).mp hruns
    · intro ht
      have hu : AllZero (qcMainLoopBody d s inp).log := fun ev hev ↦
        ht ev ((log_prefix_of_run hinv hrest).subset hev)
      exact ⟨iterationReports_of_allZero h hu, (ih hinv hu hrest).mpr ht⟩

/-- A run of the main loop launches and posts nothing twice and reports every failed call
exactly when no call of the run fails. -/
theorem failedCalls_iff (d : Daemon) (inps : List IterInput) (s : State)
    (h : StepRun.run (qcMainLoop d) .start inps = some s) :
    (CalledOnce s.log ∧ RunReports d .start inps) ↔ AllZero s.log := by
  have hstart : AllZero State.start.log := nofun
  have hiff := runReports_iff StageInv.start hstart h
  constructor
  · rintro ⟨_, hrep⟩
    exact hiff.mp hrep
  · intro hz
    exact ⟨(stageInv_of_run h).calledOnce hz, hiff.mpr hz⟩

/-- Two requests whose calls all return 0 are launched once and posted once each. -/
theorem failedCalls_iff_two : ∃ s,
    StepRun.run (qcMainLoop batchDaemon) .start twoRequests = some s ∧
      CalledOnce s.log ∧ RunReports batchDaemon .start twoRequests :=
  ⟨_, rfl, (failedCalls_iff batchDaemon twoRequests _ rfl).mpr (by unfold AllZero; decide)⟩

/-- A request whose launch returns 1 is launched again in the next iteration. -/
theorem not_calledOnce_relaunch : ¬∀ (d : Daemon) (inps : List IterInput) (s : State),
    StepRun.run (qcMainLoop d) .start inps = some s →
      CalledOnce s.log ∧ RunReports d .start inps := by
  intro hall
  let failing : IterInput := { quiet with launchCode := fun _ ↦ 1 }
  have h := (hall batchDaemon [arrival (fillKuRequest .zeroed .zeroed (batchRequest 0 0)),
    failing, failing] _ rfl).1
  exact absurd (h 0).1 (by decide)

end QHGPU.Connector
