import QHGPU.Connector.StageInvariant

/-!
# What a pass does, as a whole

Closed forms of the three passes of the main loop for every assignment of return codes:
which items change lists, and what is logged.
-/

namespace QHGPU.Connector

variable {d : Daemon} {s t : State}

/-- The launch pass: every item is launched once, those with code 0 move on. -/
structure LaunchPass (launchCode : Nat → Int) (s t : State) : Prop where
  init : t.initReqs = s.initReqs.filter fun i ↦ launchCode i ≠ 0
  running : t.runningReqs = s.runningReqs ++ s.initReqs.filter fun i ↦ launchCode i = 0
  postExec : t.postExecReqs = s.postExecReqs
  done : t.doneReqs = s.doneReqs
  all : t.allReqs = s.allReqs
  requests : t.requests = s.requests
  stopped : t.stopped = s.stopped
  log : t.log = s.log ++ s.initReqs.map fun i ↦ .launch i (launchCode i)

/-- The items the post pass visits: up to the first whose code is 0. -/
def visited (postCode : Nat → Int) : List Nat → List Nat
  | [] => []
  | i :: rest => if postCode i = 0 then [i] else i :: visited postCode rest

/-- The post pass: the first item with code 0 moves on, and ends the pass. -/
structure PostPass (postCode : Nat → Int) (s t : State) : Prop where
  init : t.initReqs = s.initReqs
  running : t.runningReqs = s.runningReqs.eraseP fun i ↦ postCode i = 0
  postExec : t.postExecReqs =
    s.postExecReqs ++ (s.runningReqs.find? fun i ↦ postCode i = 0).toList
  done : t.doneReqs = s.doneReqs
  all : t.allReqs = s.allReqs
  requests : t.requests = s.requests
  stopped : t.stopped = s.stopped
  log : t.log = s.log ++ (visited postCode s.runningReqs).map fun i ↦ .post i (postCode i)

/-- The response for the item as its record stands. -/
def State.response (s : State) (i : Nat) : QhgpuKuResponse := ⟨(s.sr i).id, (s.sr i).errcode⟩

/-- The response pass: one response for each item, in list order, and no item left. -/
structure DonePass (s t : State) : Prop where
  init : t.initReqs = s.initReqs
  running : t.runningReqs = s.runningReqs
  postExec : t.postExecReqs = []
  done : t.doneReqs = s.doneReqs
  all : ∀ i, i ∈ t.allReqs ↔ i ∈ s.allReqs ∧ i ∉ s.postExecReqs
  requests : t.requests = s.requests
  stopped : t.stopped = s.stopped
  log : t.log = s.log ++ s.postExecReqs.map fun i ↦ .respond i (s.response i)

/-- An item on one stage list is not on another. -/
theorem StageInv.not_mem_of_ne (h : StageInv d s) {i : Nat} {g : Stage}
    (hi : i ∈ s.stage g) (k : Stage) (hne : g ≠ k) : i ∉ s.stage k := fun hi' ↦
  hne (h.stage_unique hi hi')

/-- Unlinking the first unvisited item of a list without duplicates. -/
private theorem erase_middle {kept rest : List Nat} {i : Nat}
    (h : (kept ++ i :: rest).Nodup) : (kept ++ i :: rest).erase i = kept ++ rest := by
  have hi : i ∉ kept := by
    intro hk
    exact (List.nodup_append.mp h).2.2 i hk i List.mem_cons_self rfl
  rw [List.erase_append_right _ hi, List.erase_cons_head]

/-- A launch with code 0 takes its item from `init_reqs` to the end of `running_reqs`. -/
theorem qcLaunchExec_zero (h : StageInv d s) {i : Nat} (hi : i ∈ s.initReqs) :
    (qcLaunchExec 0 s i).1.initReqs = s.initReqs.erase i ∧
      (qcLaunchExec 0 s i).1.runningReqs = s.runningReqs ++ [i] ∧
      (qcLaunchExec 0 s i).1.postExecReqs = s.postExecReqs ∧
      (qcLaunchExec 0 s i).1.doneReqs = s.doneReqs := by
  have hi' : i ∈ s.stage .init := hi
  have hr : i ∉ s.runningReqs := h.not_mem_of_ne hi' .running (by decide)
  have hp : i ∉ s.postExecReqs := h.not_mem_of_ne hi' .postExec (by decide)
  have hd : i ∉ s.doneReqs := h.not_mem_of_ne hi' .done (by decide)
  refine ⟨rfl, ?_, ?_, ?_⟩
  · exact congrArg (· ++ [i]) (List.erase_of_not_mem hr)
  · exact List.erase_of_not_mem hp
  · exact List.erase_of_not_mem hd

/-- A post with code 0 takes its item from `running_reqs` to the end of `post_exec_reqs`. -/
theorem qcPostExec_zero (h : StageInv d s) {i : Nat} (hi : i ∈ s.runningReqs) :
    (qcPostExec 0 s i).1.initReqs = s.initReqs ∧
      (qcPostExec 0 s i).1.runningReqs = s.runningReqs.erase i ∧
      (qcPostExec 0 s i).1.postExecReqs = s.postExecReqs ++ [i] ∧
      (qcPostExec 0 s i).1.doneReqs = s.doneReqs := by
  have hi' : i ∈ s.stage .running := hi
  have hn : i ∉ s.initReqs := h.not_mem_of_ne hi' .init (by decide)
  have hp : i ∉ s.postExecReqs := h.not_mem_of_ne hi' .postExec (by decide)
  have hd : i ∉ s.doneReqs := h.not_mem_of_ne hi' .done (by decide)
  refine ⟨?_, rfl, ?_, ?_⟩
  · exact List.erase_of_not_mem hn
  · exact congrArg (· ++ [i]) (List.erase_of_not_mem hp)
  · exact List.erase_of_not_mem hd

/-- The launch walk, `kept` being the visited items that stayed. -/
private theorem launch_walk (launchCode : Nat → Int) (kept rest : List Nat) (r : Int)
    (h : StageInv d s) (hs : s.initReqs = kept ++ rest)
    (ht : t = (qcProcessRequest (fun s i ↦ qcLaunchExec (launchCode i) s i) false rest s r).1) :
    t.initReqs = kept ++ rest.filter (fun i ↦ launchCode i ≠ 0) ∧
      t.runningReqs = s.runningReqs ++ rest.filter (fun i ↦ launchCode i = 0) ∧
      t.postExecReqs = s.postExecReqs ∧ t.doneReqs = s.doneReqs ∧ t.allReqs = s.allReqs ∧
      t.requests = s.requests ∧ t.stopped = s.stopped ∧
      t.log = s.log ++ rest.map fun i ↦ .launch i (launchCode i) := by
  induction rest generalizing s kept r with
  | nil =>
    subst ht
    simpa [qcProcessRequest] using hs
  | cons i rest ih =>
    have hi : i ∈ s.initReqs := by
      rw [hs]
      exact List.mem_append_right kept List.mem_cons_self
    simp only [qcProcessRequest, Bool.false_eq_true, and_false, if_false] at ht
    by_cases hc : launchCode i = 0
    · rw [hc] at ht
      obtain ⟨h1, h2, h3, h4⟩ := qcLaunchExec_zero h hi
      have hnodup := h.nodup .init
      rw [State.stage, hs] at hnodup
      rw [hs, erase_middle hnodup] at h1
      obtain ⟨e1, e2, e3, e4, e5, e6, e7, e8⟩ := ih kept _ (h.qcLaunchExec hi 0) h1 ht
      refine ⟨?_, ?_, e3.trans h3, e4.trans h4, e5, e6, e7, ?_⟩
      · rw [e1]
        simp [hc]
      · rw [e2, h2]
        simp [hc]
      · rw [e8]
        simp [qcLaunchExec, State.unlink, hc]
    · have hstep : (qcLaunchExec (launchCode i) s i).1 =
          { s with log := s.log ++ [.launch i (launchCode i)] } := by
        simp [qcLaunchExec, hc]
      have hinv := h.qcLaunchExec hi (launchCode i)
      rw [hstep] at ht hinv
      obtain ⟨e1, e2, e3, e4, e5, e6, e7, e8⟩ := ih (kept ++ [i]) _ hinv (by simpa using hs) ht
      refine ⟨?_, ?_, e3, e4, e5, e6, e7, ?_⟩
      · rw [e1]
        simp [hc]
      · rw [e2]
        simp [hc]
      · rw [e8]
        simp

/-- The launch pass in closed form. -/
theorem launchExecPass_spec (h : StageInv d s) (launchCode : Nat → Int) :
    LaunchPass launchCode s (launchExecPass launchCode s) := by
  obtain ⟨e1, e2, e3, e4, e5, e6, e7, e8⟩ := launch_walk launchCode [] s.initReqs 0 h rfl rfl
  exact ⟨e1, e2, e3, e4, e5, e6, e7, e8⟩

/-- The post walk, `kept` being the visited items that stayed. -/
private theorem post_walk (postCode : Nat → Int) (kept rest : List Nat) (r : Int)
    (h : StageInv d s) (hs : s.runningReqs = kept ++ rest)
    (ht : t = (qcProcessRequest (fun s i ↦ qcPostExec (postCode i) s i) true rest s r).1) :
    t.initReqs = s.initReqs ∧
      t.runningReqs = kept ++ rest.eraseP (fun i ↦ postCode i = 0) ∧
      t.postExecReqs = s.postExecReqs ++ (rest.find? fun i ↦ postCode i = 0).toList ∧
      t.doneReqs = s.doneReqs ∧ t.allReqs = s.allReqs ∧ t.requests = s.requests ∧
      t.stopped = s.stopped ∧
      t.log = s.log ++ (visited postCode rest).map fun i ↦ .post i (postCode i) := by
  induction rest generalizing s kept r with
  | nil =>
    subst ht
    simpa [qcProcessRequest, visited] using hs
  | cons i rest ih =>
    have hi : i ∈ s.runningReqs := by
      rw [hs]
      exact List.mem_append_right kept List.mem_cons_self
    simp only [qcProcessRequest, and_true] at ht
    by_cases hc : postCode i = 0
    · have hret : (qcPostExec (postCode i) s i).2 = 0 := by
        rw [hc]
        rfl
      rw [if_pos hret, hc] at ht
      obtain ⟨h1, h2, h3, h4⟩ := qcPostExec_zero h hi
      have hnodup := h.nodup .running
      rw [State.stage, hs] at hnodup
      rw [hs, erase_middle hnodup] at h2
      subst ht
      refine ⟨h1, ?_, ?_, h4, rfl, rfl, rfl, ?_⟩
      · rw [h2]
        simp [hc]
      · rw [h3]
        simp [hc]
      · simp [qcPostExec, State.unlink, visited, hc]
    · have hstep : qcPostExec (postCode i) s i =
          ({ s with log := s.log ++ [.post i (postCode i)] }, postCode i) := by
        simp [qcPostExec, hc]
      have hinv := h.qcPostExec hi (postCode i)
      rw [hstep] at ht hinv
      rw [if_neg hc] at ht
      obtain ⟨e1, e2, e3, e4, e5, e6, e7, e8⟩ := ih (kept ++ [i]) _ hinv (by simpa using hs) ht
      refine ⟨e1, ?_, ?_, e4, e5, e6, e7, ?_⟩
      · rw [e2]
        simp [hc]
      · rw [e3]
        simp [hc]
      · rw [e8]
        simp [visited, hc]

/-- The post pass in closed form. -/
theorem postExecPass_spec (h : StageInv d s) (postCode : Nat → Int) :
    PostPass postCode s (postExecPass postCode s) := by
  obtain ⟨e1, e2, e3, e4, e5, e6, e7, e8⟩ := post_walk postCode [] s.runningReqs 0 h rfl rfl
  exact ⟨e1, e2, e3, e4, e5, e6, e7, e8⟩

/-- The response walk. -/
private theorem done_walk (rest : List Nat) (r : Int) (h : StageInv d s)
    (hs : s.postExecReqs = rest) (ht : t = (qcProcessRequest qcServiceDone false rest s r).1) :
    t.initReqs = s.initReqs ∧ t.runningReqs = s.runningReqs ∧ t.postExecReqs = [] ∧
      t.doneReqs = s.doneReqs ∧ (∀ i, i ∈ t.allReqs ↔ i ∈ s.allReqs ∧ i ∉ rest) ∧
      t.requests = s.requests ∧ t.stopped = s.stopped ∧
      t.log = s.log ++ rest.map fun i ↦ .respond i (s.response i) := by
  induction rest generalizing s r with
  | nil =>
    subst ht
    simpa [qcProcessRequest] using hs
  | cons i rest ih =>
    have hi : i ∈ s.postExecReqs := by
      rw [hs]
      exact List.mem_cons_self
    have hi' : i ∈ s.stage .postExec := hi
    have hn : i ∉ s.initReqs := h.not_mem_of_ne hi' .init (by decide)
    have hr : i ∉ s.runningReqs := h.not_mem_of_ne hi' .running (by decide)
    have hd : i ∉ s.doneReqs := h.not_mem_of_ne hi' .done (by decide)
    simp only [qcProcessRequest, Bool.false_eq_true, and_false, if_false] at ht
    have hpost : (qcServiceDone s i).1.postExecReqs = rest := by
      change s.postExecReqs.erase i = rest
      rw [hs, List.erase_cons_head]
    obtain ⟨e1, e2, e3, e4, e5, e6, e7, e8⟩ := ih _ (h.qcServiceDone hi) hpost ht
    refine ⟨?_, ?_, e3, ?_, ?_, e6, e7, ?_⟩
    · exact e1.trans (List.erase_of_not_mem hn)
    · exact e2.trans (List.erase_of_not_mem hr)
    · exact e4.trans (List.erase_of_not_mem hd)
    · intro j
      have hall : j ∈ (qcServiceDone s i).1.allReqs ↔ j ≠ i ∧ j ∈ s.allReqs :=
        h.all_nodup.mem_erase_iff
      rw [e5, hall, List.mem_cons, not_or]
      constructor
      · rintro ⟨⟨hne, hj⟩, hrest⟩
        exact ⟨hj, hne, hrest⟩
      · rintro ⟨hj, hne, hrest⟩
        exact ⟨⟨hne, hj⟩, hrest⟩
    · rw [e8]
      simp [qcServiceDone, State.unlink, State.response]

/-- The response pass in closed form. -/
theorem serviceDonePass_spec (h : StageInv d s) : DonePass s (serviceDonePass s) := by
  obtain ⟨e1, e2, e3, e4, e5, e6, e7, e8⟩ := done_walk s.postExecReqs 0 h rfl rfl
  exact ⟨e1, e2, e3, e4, e5, e6, e7, e8⟩

end QHGPU.Connector
