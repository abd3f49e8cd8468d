import QHGPU.Connector.StageInvariant

/-!
# The main loop in small steps

The loop of `src/qhgpu/connector.c:957–978`, one operation at a time. A pass stops at each
item, and a call of `read` or `write` begins and ends in different steps, so that other
programs can run in between. An iteration of `qcMainLoop` is a run of these steps.
-/

namespace QHGPU.Connector

/-- The three calls of `__qc_process_request`, `src/qhgpu/connector.c:958–960`. -/
inductive Pass where
  | serviceDone
  | postExec
  | launchExec
  deriving DecidableEq

/-- The list that the pass walks. -/
def Pass.stage : Pass → Stage
  | .serviceDone => .postExec
  | .postExec => .running
  | .launchExec => .init

/-- The last argument of the call. -/
def Pass.once : Pass → Bool
  | .postExec => true
  | _ => false

/-- The operation of the pass, `code` being what the service answers. -/
def Pass.op (code : Int) : Pass → State → Nat → State × Int
  | .serviceDone => qcServiceDone
  | .postExec => qcPostExec code
  | .launchExec => qcLaunchExec code

/-- What the loop does next: look at the rest of a walk, or wait inside a system call. -/
inductive LoopPc where
  | walk (p : Pass) (rest : List Nat)
  | writing (i : Nat) (rest : List Nat)
  | getNext
  | reading
  | stopped
  deriving DecidableEq

/-- The lists, and where the loop is. -/
structure Loop where
  st : State
  pc : LoopPc

/-- What is answered in one step: the code of `launch` or `post`, the value of `write`, and
the answers to `qc_get_next_service_request`. -/
structure Answer where
  code : Int
  written : Int
  env : PollRead

/-- The walk starts at the first item. -/
def Loop.beginPass (s : State) (p : Pass) : Loop := ⟨s, .walk p (s.stage p.stage)⟩

/-- What follows a pass. -/
def Loop.endPass (s : State) : Pass → Loop
  | .serviceDone => .beginPass s .postExec
  | .postExec => .beginPass s .launchExec
  | .launchExec => ⟨s, .getNext⟩

/-- After the operation on an item, with `rest` to come. -/
def Loop.visited (s : State) (p : Pass) (rest : List Nat) (r : Int) : Loop :=
  if r = 0 ∧ p.once = true then .endPass s p else ⟨s, .walk p rest⟩

/-- Before the first iteration. -/
def Loop.start : Loop := .beginPass .start .serviceDone

/-- The loop is left, or the process aborts. -/
def Loop.stop (s : State) : Loop := ⟨{ s with stopped := true }, .stopped⟩

/-- `src/qhgpu/connector.c:598–629`: `poll` and the allocation of an item. -/
def pollDevice (env : PollRead) (s : State) : Loop :=
  let err := env.poll (if s.allReqs = [] then -1 else 0)
  if err = 0 ∨ (err ≠ 0 ∧ env.pollin = false) then .beginPass s .serviceDone
  else if err = 1 ∧ env.pollin = true then
    if env.alloc = false then .beginPass s .serviceDone else ⟨s, .reading⟩
  else .stop s

/-- `src/qhgpu/connector.c:631–693`: what happens to the value of `read`. -/
def readDevice (d : Daemon) (env : PollRead) (s : State) : Loop :=
  if env.read ≤ 0 then
    if env.eagain = true ∨ env.read = 0 then .beginPass s .serviceDone else .stop s
  else
    let (r, s) := qcAccept d s env.kureq
    if r = -123 then .stop s else .beginPass s .serviceDone

/-- One step, `src/qhgpu/connector.c:945–988`. A `write` that fails aborts the process. -/
def stepLoop (d : Daemon) (l : Loop) (ans : Answer) : Loop :=
  match l.pc with
  | .walk p [] => .endPass l.st p
  | .walk .serviceDone (i :: rest) => ⟨l.st, .writing i rest⟩
  | .walk p (i :: rest) =>
    let (s, r) := p.op ans.code l.st i
    .visited s p rest r
  | .writing i rest =>
    if ans.written < 0 then .stop l.st
    else
      let (s, r) := qcServiceDone l.st i
      .visited s .serviceDone rest r
  | .getNext => pollDevice ans.env l.st
  | .reading => readDevice d ans.env l.st
  | .stopped => l

/-! ### An iteration in small steps -/

section Iteration

variable (d : Daemon)

/-- A pass is a run of its steps, when every `write` succeeds. -/
theorem foldl_walk (p : Pass) (code : Nat → Int) (env : PollRead) (rest : List Nat) (s : State)
    (r : Int) : ∃ answers : List Answer,
      answers.foldl (stepLoop d) ⟨s, .walk p rest⟩ =
        .endPass (qcProcessRequest (fun s i ↦ p.op (code i) s i) p.once rest s r).1 p := by
  induction rest generalizing s r with
  | nil => exact ⟨[⟨0, 0, env⟩], rfl⟩
  | cons i rest ih =>
    obtain ⟨first, hfirst⟩ : ∃ first : List Answer,
        first.foldl (stepLoop d) ⟨s, .walk p (i :: rest)⟩ =
          .visited (p.op (code i) s i).1 p rest (p.op (code i) s i).2 := by
      cases p with
      | serviceDone => exact ⟨[⟨0, 0, env⟩, ⟨0, 0, env⟩], rfl⟩
      | postExec => exact ⟨[⟨code i, 0, env⟩], rfl⟩
      | launchExec => exact ⟨[⟨code i, 0, env⟩], rfl⟩
    have hwalk : qcProcessRequest (fun s i ↦ p.op (code i) s i) p.once (i :: rest) s r =
        if (p.op (code i) s i).2 = 0 ∧ p.once = true then p.op (code i) s i
        else qcProcessRequest (fun s i ↦ p.op (code i) s i) p.once rest (p.op (code i) s i).1
          (p.op (code i) s i).2 := rfl
    rw [Loop.visited] at hfirst
    rw [hwalk]
    split at hfirst
    · next hbreak =>
      refine ⟨first, ?_⟩
      rw [hfirst, if_pos hbreak]
    · next hgo =>
      obtain ⟨later, hlater⟩ := ih (p.op (code i) s i).1 (p.op (code i) s i).2
      refine ⟨first ++ later, ?_⟩
      rw [List.foldl_append, hfirst, hlater, if_neg hgo]

/-- What the loop does with the outcome of `qc_get_next_service_request`. -/
def Loop.afterGetNext : Outcome → Loop
  | .ret r s => if r = -123 then .stop s else .beginPass s .serviceDone
  | .abort s => .stop s

/-- The call that takes in a request, in small steps. -/
theorem foldl_getNext (env : PollRead) (s : State) : ∃ answers : List Answer,
    answers.foldl (stepLoop d) ⟨s, .getNext⟩ =
      .afterGetNext (qcGetNextServiceRequest d env s) := by
  have hpoll : [(⟨0, 0, env⟩ : Answer)].foldl (stepLoop d) ⟨s, .getNext⟩ = pollDevice env s := rfl
  have hread : [(⟨0, 0, env⟩ : Answer)].foldl (stepLoop d) ⟨s, .reading⟩ =
      readDevice d env s := rfl
  unfold pollDevice at hpoll
  unfold readDevice at hread
  unfold qcGetNextServiceRequest
  dsimp only at hpoll hread ⊢
  generalize env.poll _ = err at hpoll ⊢
  split_ifs at hpoll with hnone hready halloc
  · rw [if_pos hnone]
    exact ⟨_, hpoll⟩
  · rw [if_neg hnone, if_pos hready, if_pos halloc]
    exact ⟨_, hpoll⟩
  · -- the only branch that goes on to `read`
    rw [if_neg hnone, if_pos hready, if_neg halloc]
    refine ⟨[⟨0, 0, env⟩] ++ [⟨0, 0, env⟩], ?_⟩
    rw [List.foldl_append, hpoll, hread]
    split_ifs <;> simp [Loop.afterGetNext, *]
  · rw [if_neg hnone, if_neg hready]
    exact ⟨_, hpoll⟩

/-- Only the end of the loop sets `stopped`. -/
theorem stopped_op (p : Pass) (code : Int) (s : State) (i : Nat) :
    (p.op code s i).1.stopped = s.stopped := by
  cases p with
  | serviceDone => rfl
  | postExec =>
    rw [Pass.op, qcPostExec]
    split <;> rfl
  | launchExec =>
    rw [Pass.op, qcLaunchExec]
    split <;> rfl

private theorem stopped_walk (p : Pass) (code : Nat → Int) (once : Bool) (rest : List Nat)
    (s : State)
    (r : Int) : (qcProcessRequest (fun s i ↦ p.op (code i) s i) once rest s r).1.stopped =
      s.stopped := by
  induction rest generalizing s r with
  | nil => rfl
  | cons i rest ih =>
    rw [qcProcessRequest]
    dsimp only
    split
    · exact stopped_op p (code i) s i
    · exact (ih _ _).trans (stopped_op p (code i) s i)

private theorem stopped_qcAccept (s : State) (kureq : QhgpuKuRequest) :
    (qcAccept d s kureq).2.stopped = s.stopped := by
  unfold qcAccept qcInitServiceRequest
  split
  · rfl
  · dsimp only
    split <;> rfl

/-- One iteration of the loop is a run of small steps. -/
theorem foldl_qcMainLoopBody (inp : IterInput) (s : State) (hs : s.stopped = false) :
    ∃ answers : List Answer, answers.foldl (stepLoop d) (.beginPass s .serviceDone) =
      if (qcMainLoopBody d s inp).stopped = true then .stop (qcMainLoopBody d s inp)
      else .beginPass (qcMainLoopBody d s inp) .serviceDone := by
  obtain ⟨as, ha⟩ := foldl_walk d .serviceDone inp.postCode inp.env s.postExecReqs s 0
  let s₁ := serviceDonePass s
  obtain ⟨bs, hb⟩ := foldl_walk d .postExec inp.postCode inp.env s₁.runningReqs s₁ 0
  let s₂ := postExecPass inp.postCode s₁
  obtain ⟨cs, hc⟩ := foldl_walk d .launchExec inp.launchCode inp.env s₂.initReqs s₂ 0
  let s₃ := launchExecPass inp.launchCode s₂
  obtain ⟨ds, hd⟩ := foldl_getNext d inp.env s₃
  have hrun : (as ++ (bs ++ (cs ++ ds))).foldl (stepLoop d) (.beginPass s .serviceDone) =
      .afterGetNext (qcGetNextServiceRequest d inp.env s₃) := by
    rw [List.foldl_append, List.foldl_append, List.foldl_append, ← hd]
    exact congrArg (ds.foldl _) ((congrArg (fun l ↦ cs.foldl _ (bs.foldl _ l)) ha).trans
      ((congrArg (cs.foldl _) hb).trans hc))
  have hstopped : s₃.stopped = false :=
    (stopped_walk .launchExec inp.launchCode false s₂.initReqs s₂ 0).trans
      ((stopped_walk .postExec inp.postCode true s₁.runningReqs s₁ 0).trans
        ((stopped_walk .serviceDone inp.postCode false s.postExecReqs s 0).trans hs))
  have hbody : qcMainLoopBody d s inp = match qcGetNextServiceRequest d inp.env s₃ with
      | .ret r s => if r = -123 then { s with stopped := true } else s
      | .abort s => { s with stopped := true } := rfl
  refine ⟨_, hrun.trans ?_⟩
  rw [hbody]
  rcases qcGetNextServiceRequest_cases d inp.env s₃ with h | h | h
  · rw [h]
    simp [Loop.afterGetNext, hstopped]
  · rw [h]
    simp [Loop.afterGetNext, Loop.stop]
  · rw [h]
    have haccept := (stopped_qcAccept d s₃ inp.env.kureq).trans hstopped
    by_cases hret : (qcAccept d s₃ inp.env.kureq).1 = -123
    · simp [Loop.afterGetNext, Loop.stop, hret]
    · simp [Loop.afterGetNext, hret, haccept]

end Iteration

/-! ### The invariant between small steps -/

/-- The stage lists are as in `StageInv`, and the items a pass has still to visit are the end
of the list it walks. -/
structure LoopInv (d : Daemon) (l : Loop) : Prop where
  stage : StageInv d l.st
  walk : ∀ p rest, l.pc = .walk p rest → rest <:+ l.st.stage p.stage
  writing : ∀ i rest, l.pc = .writing i rest → (i :: rest) <:+ l.st.postExecReqs

variable {d : Daemon} {s : State}

/-- A pass begins with all of its list to visit. -/
theorem loopInv_beginPass (h : StageInv d s) (p : Pass) : LoopInv d (.beginPass s p) where
  stage := h
  walk q rest hpc := by
    obtain ⟨rfl, rfl⟩ := LoopPc.walk.inj hpc
    exact List.suffix_refl _
  writing i rest hpc := by cases hpc

private theorem loopInv_endPass (h : StageInv d s) (p : Pass) : LoopInv d (.endPass s p) := by
  cases p with
  | serviceDone => exact loopInv_beginPass h .postExec
  | postExec => exact loopInv_beginPass h .launchExec
  | launchExec =>
    constructor
    · exact h
    · intro p rest hpc
      cases hpc
    · intro i rest hpc
      cases hpc

private theorem loopInv_stop (h : StageInv d s) : LoopInv d (.stop s) := by
  constructor
  · exact h.stop
  · intro p rest hpc
    cases hpc
  · intro i rest hpc
    cases hpc

/-- The operation of a pass keeps the invariant of the lists. -/
theorem StageInv.op (h : StageInv d s) {p : Pass} {i : Nat} (hi : i ∈ s.stage p.stage)
    (code : Int) : StageInv d (p.op code s i).1 := by
  cases p with
  | serviceDone => exact h.qcServiceDone hi
  | postExec => exact h.qcPostExec hi code
  | launchExec => exact h.qcLaunchExec hi code

/-- The operation leaves the list it walks alone, or takes its item off. -/
theorem stage_op (p : Pass) (code : Int) (s : State) (i : Nat) :
    (p.op code s i).1.stage p.stage = s.stage p.stage ∨
      (p.op code s i).1.stage p.stage = (s.stage p.stage).erase i := by
  cases p with
  | serviceDone => exact Or.inr rfl
  | postExec =>
    rw [Pass.op, qcPostExec]
    split
    · exact Or.inr rfl
    · exact Or.inl rfl
  | launchExec =>
    rw [Pass.op, qcLaunchExec]
    split
    · exact Or.inr rfl
    · exact Or.inl rfl

/-- Visiting an item leaves the rest of the walk at the end of the list. -/
theorem loopInv_visited (h : StageInv d s) {p : Pass} {i : Nat} {rest : List Nat}
    (hrest : (i :: rest) <:+ s.stage p.stage) (code : Int) :
    LoopInv d (.visited (p.op code s i).1 p rest (p.op code s i).2) := by
  obtain ⟨kept, hkept⟩ := hrest
  have hi : i ∈ s.stage p.stage := by
    rw [← hkept]
    exact List.mem_append_right kept List.mem_cons_self
  have hop := h.op hi code
  rw [Loop.visited]
  split
  · exact loopInv_endPass hop p
  · refine ⟨hop, ?_, ?_⟩
    · intro q rest' hpc
      obtain ⟨rfl, rfl⟩ := LoopPc.walk.inj hpc
      change rest <:+ (p.op code s i).1.stage p.stage
      rcases stage_op p code s i with heq | heq
      · rw [heq, ← hkept]
        exact ⟨kept ++ [i], by simp⟩
      · have hnot : i ∉ kept := by
          intro hk
          have hnd := h.nodup p.stage
          rw [← hkept] at hnd
          exact (List.nodup_append.mp hnd).2.2 i hk i List.mem_cons_self rfl
        rw [heq, ← hkept, List.erase_append_right _ hnot, List.erase_cons_head]
        exact List.suffix_append kept rest
    · intro j rest' hpc
      cases hpc

/-- What `poll` and the allocation lead to. -/
theorem pollDevice_cases (env : PollRead) (s : State) :
    pollDevice env s = .beginPass s .serviceDone ∨ pollDevice env s = ⟨s, .reading⟩ ∨
      pollDevice env s = .stop s := by
  unfold pollDevice
  dsimp only
  generalize env.poll _ = err
  split_ifs <;> simp

/-- What the value of `read` leads to. -/
theorem readDevice_cases (d : Daemon) (env : PollRead) (s : State) :
    (env.read ≤ 0 ∧ (readDevice d env s = .beginPass s .serviceDone ∨
        readDevice d env s = .stop s)) ∨
      (0 < env.read ∧ readDevice d env s =
        .afterGetNext (.ret (qcAccept d s env.kureq).1 (qcAccept d s env.kureq).2)) := by
  unfold readDevice
  split
  · next hle =>
    refine Or.inl ⟨hle, ?_⟩
    split <;> simp
  · next hpos => exact Or.inr ⟨Int.not_le.mp hpos, rfl⟩

/-- Each small step keeps the invariant. -/
theorem LoopInv.step {l : Loop} (h : LoopInv d l) (ans : Answer) :
    LoopInv d (stepLoop d l ans) := by
  obtain ⟨s, pc⟩ := l
  have hs : StageInv d s := h.stage
  cases pc with
  | walk p rest =>
    have hrest : rest <:+ s.stage p.stage := h.walk p rest rfl
    cases rest with
    | nil => exact loopInv_endPass hs p
    | cons i rest =>
      cases p with
      | serviceDone =>
        refine ⟨hs, ?_, ?_⟩
        · intro p rest' hpc
          cases hpc
        · intro j rest' hpc
          obtain ⟨rfl, rfl⟩ := LoopPc.writing.inj hpc
          exact hrest
      | postExec => exact loopInv_visited (p := .postExec) hs hrest ans.code
      | launchExec => exact loopInv_visited (p := .launchExec) hs hrest ans.code
  | writing i rest =>
    change LoopInv d (if ans.written < 0 then .stop s
      else .visited (qcServiceDone s i).1 .serviceDone rest (qcServiceDone s i).2)
    split
    · exact loopInv_stop hs
    · exact loopInv_visited (p := .serviceDone) hs (h.writing i rest rfl) 0
  | getNext =>
    change LoopInv d (pollDevice ans.env s)
    rcases pollDevice_cases ans.env s with hpoll | hpoll | hpoll
    · rw [hpoll]
      exact loopInv_beginPass hs .serviceDone
    · rw [hpoll]
      refine ⟨hs, ?_, ?_⟩
      · intro p rest hpc
        cases hpc
      · intro i rest hpc
        cases hpc
    · rw [hpoll]
      exact loopInv_stop hs
  | reading =>
    change LoopInv d (readDevice d ans.env s)
    rcases readDevice_cases d ans.env s with ⟨_, hread | hread⟩ | ⟨_, hread⟩
    · rw [hread]
      exact loopInv_beginPass hs .serviceDone
    · rw [hread]
      exact loopInv_stop hs
    · rw [hread, Loop.afterGetNext]
      split
      · exact loopInv_stop (hs.qcAccept ans.env.kureq)
      · exact loopInv_beginPass (hs.qcAccept ans.env.kureq) .serviceDone
  | stopped => exact h

/-- Every state that small steps reach satisfies the invariant. -/
theorem loopInv_of_run (answers : List Answer) :
    LoopInv d (answers.foldl (stepLoop d) .start) := by
  have h : LoopInv d .start := loopInv_beginPass StageInv.start .serviceDone
  generalize Loop.start = l at h ⊢
  induction answers generalizing l with
  | nil => exact h
  | cons ans answers ih => exact ih _ (h.step ans)

end QHGPU.Connector
