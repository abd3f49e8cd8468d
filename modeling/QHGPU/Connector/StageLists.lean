import QHGPU.Connector.MemoryLists

/-!
# The loop in memory refines the loop over lists

Each step in memory is matched by a small step of the loop over lists, so no step follows a
bad pointer, and what is invariant of the lists is true of the rings.
-/

namespace QHGPU.Connector.Memory

open LinkedRing

/-- The responses that the device has taken. -/
def responses (log : List Event) : List QhgpuKuResponse :=
  log.filterMap fun
    | .respond _ resp => some resp
    | _ => none

/-- The nodes a walk has still to look at, the head last. -/
def nodesFrom (addr : Nat → Addr) (p : Pass) (rest : List Nat) : List Node :=
  listNodes addr rest ++ [.reqs p.stage]

/-- The two pointers of a walk lead to the first two of the nodes it has still to look at. -/
inductive PcHolds (addr : Nat → Addr) (m : State) (s : Connector.State) : LoopPc → Pc → Prop
  | walk {p rest pos n} (hpos : pos = (nodesFrom addr p rest).head?)
      (hn : rest ≠ [] → n = (nodesFrom addr p rest).tail.head?) :
      PcHolds addr m s (.walk p rest) (.walk p pos n)
  | writing {i rest} : PcHolds addr m s (.writing i rest)
      (.writing (addr i) (s.response i) (nodesFrom addr .serviceDone rest).head?)
  | getNext : PcHolds addr m s .getNext .getNext
  | reading {a} (hnew : New addr m s a) : PcHolds addr m s .reading (.reading a)
  | stopped : PcHolds addr m s .stopped .stopped

/-- Memory represents the loop over lists, items being at the addresses `addr`. -/
structure Rep (addr : Nat → Addr) (m : State) (l : Loop) : Prop where
  holds : Holds addr m l.st
  written : m.written = responses l.st.log
  pc : PcHolds addr m l.st l.pc m.pc

variable {d : Daemon} {addr : Nat → Addr} {m : State} {s : Connector.State} {i : Nat}
  {p : Pass} {rest : List Nat}

/-- The position of the loop is in no list. -/
theorem Holds.setPc (hm : Holds addr m s) (pc : Pc) (written : List QhgpuKuResponse) :
    Holds addr { m with written := written, pc := pc } s :=
  ⟨hm.inj, hm.all, hm.stage, hm.sr, hm.both⟩

/-! ### Pointers of a walk -/

/-- `head->next` leads to the first item, or to the head. -/
theorem Holds.getNext_head (hm : Holds addr m s) (p : Pass) :
    m.lists.getNext (some (.reqs p.stage)) = some (nodesFrom addr p (s.stage p.stage)).head? :=
  (hm.stage p.stage).getNext [] rfl

/-- `pos->next` leads to the item after an item of the list, or to the head. -/
theorem Holds.getNext_item (hm : Holds addr m s) (hsuf : (i :: rest) <:+ s.stage p.stage) :
    m.lists.getNext (some (.list (addr i))) = some (nodesFrom addr p rest).head? := by
  obtain ⟨kept, hkept⟩ := hsuf
  refine (hm.stage p.stage).getNext (.reqs p.stage :: listNodes addr kept) ?_
  rw [← hkept, listNodes_append, listNodes_cons]
  rfl

/-- `pos->next` can be read at every node that a walk looks at. -/
theorem Holds.getNext_first (hm : Holds addr m s) (hsuf : rest <:+ s.stage p.stage) :
    ∃ n, m.lists.getNext (nodesFrom addr p rest).head? = some n ∧
      (rest ≠ [] → n = (nodesFrom addr p rest).tail.head?) := by
  cases rest with
  | nil => exact ⟨_, hm.getNext_head p, fun hne ↦ absurd rfl hne⟩
  | cons i rest => exact ⟨_, hm.getNext_item hsuf, fun _ ↦ rfl⟩

/-- A pass starts at the first item. -/
theorem Holds.beginPass (hm : Holds addr m s) (hw : m.written = responses s.log) (p : Pass) :
    ∃ m', m.beginPass p = some m' ∧ Rep addr m' (.beginPass s p) := by
  obtain ⟨n, hnext, hn⟩ := hm.getNext_first (List.suffix_refl (s.stage p.stage))
  refine ⟨{ m with pc := .walk p _ n }, ?_, hm.setPc _ _, hw, .walk rfl hn⟩
  rw [State.beginPass, hm.getNext_head, Option.bind_eq_bind, Option.bind_some, hnext]
  rfl

private theorem Holds.endPass (hm : Holds addr m s) (hw : m.written = responses s.log) (p : Pass) :
    ∃ m', m.endPass p = some m' ∧ Rep addr m' (.endPass s p) := by
  cases p with
  | serviceDone => exact hm.beginPass hw .postExec
  | postExec => exact hm.beginPass hw .launchExec
  | launchExec => exact ⟨_, rfl, hm.setPc _ _, hw, .getNext⟩

/-- After the operation on an item the walk goes on to `n`, which is still on the list. -/
theorem Holds.visited (hm : Holds addr m s) (hw : m.written = responses s.log) {r : Int}
    (hinv : LoopInv d (.visited s p rest r)) :
    ∃ m', m.visited p (nodesFrom addr p rest).head? r = some m' ∧
      Rep addr m' (.visited s p rest r) := by
  unfold Loop.visited at hinv ⊢
  unfold State.visited
  split at hinv
  · next hbreak =>
    rw [if_pos hbreak, if_pos hbreak]
    exact hm.endPass hw p
  · next hgo =>
    rw [if_neg hgo, if_neg hgo]
    obtain ⟨n, hnext, hn⟩ := hm.getNext_first (hinv.walk p rest rfl)
    refine ⟨{ m with pc := .walk p _ n }, ?_, hm.setPc _ _, hw, .walk rfl hn⟩
    rw [hnext]
    rfl

/-- Leaving the loop. -/
theorem Holds.stop (hm : Holds addr m s) (hw : m.written = responses s.log) :
    Rep addr { m with pc := .stopped } (.stop s) := by
  refine ⟨⟨hm.inj, hm.all, ?_, hm.sr, hm.both⟩, hw, .stopped⟩
  intro g
  have hg := hm.stage g
  cases g <;> exact hg

/-! ### The simulation -/

/-- Only a response adds to what the device has taken. -/
theorem responses_append (log : List Event) (ev : Event) :
    responses (log ++ [ev]) = responses log ++ responses [ev] := List.filterMap_append ..

private theorem responses_op (code : Int) (hp : p ≠ .serviceDone) :
    responses (p.op code s i).1.log = responses s.log := by
  cases p with
  | serviceDone => exact absurd rfl hp
  | postExec =>
    rw [Pass.op, Connector.qcPostExec]
    split <;> simp [responses, State.unlink]
  | launchExec =>
    rw [Pass.op, Connector.qcLaunchExec]
    split <;> simp [responses, State.unlink]

/-- `all_reqs` is empty when its head is linked to itself. -/
theorem Holds.listEmpty (hm : Holds addr m s) :
    ∃ first, m.lists.getNext (some .allReqs) = some first ∧
      (first = some .allReqs ↔ s.allReqs = []) := by
  refine ⟨_, hm.all.getNext [] rfl, ?_⟩
  cases s.allReqs with
  | nil => exact iff_of_true rfl rfl
  | cons i items => exact iff_of_false (fun h ↦ by cases h) (List.cons_ne_nil i items)

/-- `poll`, and an item allocated at `a` unless that address is in use. -/
theorem Holds.pollDevice (hm : Holds addr m s) (hw : m.written = responses s.log)
    (env : PollRead) (a : Addr) : ∃ env' m', pollDevice env a m = some m' ∧
      Rep addr m' (Connector.pollDevice env' s) := by
  obtain ⟨first, hfirst, hempty⟩ := hm.listEmpty
  refine ⟨{ env with alloc := env.alloc && !m.lists.live (.list a) }, ?_⟩
  unfold Memory.pollDevice Connector.pollDevice
  rw [hfirst, Option.bind_eq_bind, Option.bind_some]
  simp only [hempty, Bool.and_eq_false_iff, Bool.not_eq_false']
  generalize env.poll _ = err
  split_ifs with hnone hready hnomem
  · exact hm.beginPass hw .serviceDone
  · exact hm.beginPass hw .serviceDone
  · obtain ⟨m', halloc, hm', hnew, hw'⟩ :=
      hm.alloc (Bool.eq_false_iff.mpr fun hlive ↦ hnomem (Or.inr hlive))
    refine ⟨{ m' with pc := .reading a }, ?_, hm'.setPc _ _, hw'.trans hw, .reading ?_⟩
    · rw [halloc]
      rfl
    · exact ⟨hnew.list, hnew.glist, hnew.other⟩
  · exact ⟨_, rfl, hm.stop hw⟩

/-- Taking in a request logs nothing. -/
theorem log_qcAccept (kureq : QhgpuKuRequest) : (qcAccept d s kureq).2.log = s.log := by
  unfold qcAccept Connector.qcInitServiceRequest
  split
  · rfl
  · dsimp only
    split <;> rfl

/-- What happens to the value of `read`, with the new item at `a`. -/
theorem Holds.readDevice (hm : Holds addr m s) (hs : StageInv d s)
    (hw : m.written = responses s.log) {a : Addr} (hnew : New addr m s a) (env : PollRead) :
    ∃ addr' m', readDevice d env m a = some m' ∧
      Rep addr' m' (Connector.readDevice d env s) := by
  unfold Memory.readDevice Connector.readDevice
  split
  · split
    · exact ⟨addr, hm.beginPass hw .serviceDone⟩
    · exact ⟨addr, _, rfl, hm.stop hw⟩
  · cases hstop : isStopRequest env.kureq with
    | true =>
      have haccept : qcAccept d s env.kureq = (-123, s) := by
        rw [qcAccept, hstop]
        rfl
      rw [haccept]
      exact ⟨addr, _, rfl, hm.stop hw⟩
    | false =>
      obtain ⟨m', hinit, hm', hw'⟩ := hm.qcInitServiceRequest hs hnew hstop
      have hret := (hs.qcAccept_spec hstop).1
      have hlog : responses (qcAccept d s env.kureq).2.log = responses s.log :=
        congrArg responses (log_qcAccept env.kureq)
      obtain ⟨m'', hbegin, hrep⟩ := hm'.beginPass (hw'.trans (hw.trans hlog.symm)) .serviceDone
      refine ⟨Function.update addr s.requests.length a, m'', ?_, ?_⟩
      · rw [if_neg Bool.false_ne_true, hinit]
        exact hbegin
      · dsimp only
        rw [if_neg (by rw [hret]; decide)]
        exact hrep

/-- A step in memory succeeds, and a small step of the loop over lists matches it. -/
theorem Rep.step {l : Loop} (h : Rep addr m l) (hinv : LoopInv d l) (inp : Answer × Addr) :
    ∃ ans addr' m', step d m inp = some m' ∧ Rep addr' m' (stepLoop d l ans) := by
  obtain ⟨s, pc⟩ := l
  obtain ⟨hm, hw, hpc⟩ := h
  have hs : StageInv d s := hinv.stage
  obtain ⟨lists, sr, written, mpc⟩ := m
  have hnext := hinv.step inp.1
  cases hpc with
  | @walk p rest pos n hpos hn =>
    cases rest with
    | nil =>
      obtain ⟨m', hend, hrep⟩ := hm.endPass hw p
      exact ⟨inp.1, addr, m', (if_pos hpos).trans hend, hrep⟩
    | cons i rest =>
      have hsuf : (i :: rest) <:+ s.stage p.stage := hinv.walk p (i :: rest) rfl
      have hi : i ∈ s.stage p.stage := hsuf.subset List.mem_cons_self
      have hn : n = (nodesFrom addr p rest).head? := hn (List.cons_ne_nil i rest)
      have hpos : pos = some (.list (addr i)) := hpos
      subst hn hpos
      cases p with
      | serviceDone =>
        refine ⟨inp.1, addr, ⟨lists, sr, written, .writing (addr i) (s.response i) _⟩, ?_,
          hm.setPc _ _, hw, .writing⟩
        exact Option.bind_eq_some_iff.mpr ⟨_, hm.getSr hs hi, rfl⟩
      | postExec =>
        obtain ⟨m', hop, hm', hw'⟩ := hm.qcPostExec hs hi inp.1.code
        obtain ⟨m'', hvisit, hrep⟩ := hm'.visited
          (hw'.trans (hw.trans (responses_op (p := .postExec) inp.1.code (by decide)).symm)) hnext
        refine ⟨inp.1, addr, m'', ?_, hrep⟩
        exact Option.bind_eq_some_iff.mpr ⟨_, hop, hvisit⟩
      | launchExec =>
        obtain ⟨m', hop, hm', hw'⟩ := hm.qcLaunchExec hs hi inp.1.code
        obtain ⟨m'', hvisit, hrep⟩ := hm'.visited
          (hw'.trans (hw.trans (responses_op (p := .launchExec) inp.1.code (by decide)).symm)) hnext
        refine ⟨inp.1, addr, m'', ?_, hrep⟩
        exact Option.bind_eq_some_iff.mpr ⟨_, hop, hvisit⟩
  | @writing i rest =>
    have hi : i ∈ s.postExecReqs := (hinv.writing i rest rfl).subset List.mem_cons_self
    have hstep : stepLoop d ⟨s, .writing i rest⟩ inp.1 = if inp.1.written < 0 then .stop s
      else .visited (Connector.qcServiceDone s i).1 .serviceDone rest 0 := rfl
    by_cases habort : inp.1.written < 0
    · rw [if_pos habort] at hstep
      refine ⟨inp.1, addr, ⟨lists, sr, written, .stopped⟩, if_pos habort, ?_⟩
      rw [hstep]
      exact hm.stop hw
    · rw [if_neg habort] at hstep
      rw [hstep] at hnext
      obtain ⟨m', hop, hm', hw'⟩ :=
        (hm.setPc (.writing (addr i) (s.response i) (nodesFrom addr .serviceDone rest).head?)
          (written ++ [s.response i])).qcServiceDone hs hi
      have hlog : m'.written = responses (Connector.qcServiceDone s i).1.log := by
        refine hw'.trans ?_
        change written ++ [s.response i] = responses (s.log ++ [.respond i (s.response i)])
        have hw : written = responses s.log := hw
        rw [responses_append, hw]
        rfl
      obtain ⟨m'', hvisit, hrep⟩ := hm'.visited hlog hnext
      refine ⟨inp.1, addr, m'', ?_, ?_⟩
      · refine (if_neg habort).trans ?_
        exact Option.bind_eq_some_iff.mpr ⟨_, hop, hvisit⟩
      · rw [hstep]
        exact hrep
  | getNext =>
    obtain ⟨env', m', hpoll, hrep⟩ := hm.pollDevice hw inp.1.env inp.2
    exact ⟨⟨inp.1.code, inp.1.written, env'⟩, addr, m', hpoll, hrep⟩
  | reading hnew =>
    obtain ⟨addr', m', hread, hrep⟩ := hm.readDevice hs hw hnew inp.1.env
    exact ⟨inp.1, addr', m', hread, hrep⟩
  | stopped => exact ⟨inp.1, addr, _, rfl, hm, hw, .stopped⟩

/-- A list head that `LIST_HEAD` set up. -/
theorem ring_staticLists {head : Node} (hlive : staticLists.live head = true) :
    Ring staticLists head [] := by
  refine ⟨?_, List.nodup_singleton head, List.isChain_pair.mpr ⟨rfl, rfl⟩⟩
  intro x hx
  rw [List.mem_singleton.mp hx]
  exact hlive

/-- Before the first iteration all lists are empty rings. -/
theorem rep_start (addr : Nat → Addr) : Rep addr .start .start where
  holds := by
    constructor
    · intro i hi
      cases hi
    · exact ring_staticLists rfl
    · intro g
      cases g <;> exact ring_staticLists rfl
    · intro i hi
      cases hi
    · intro a
      rfl
  written := rfl
  pc := .walk rfl fun hne ↦ absurd rfl hne

/-- Every run in memory goes through, and represents a run of the loop over lists. -/
theorem rep_of_run (d : Daemon) (inps : List (Answer × Addr)) :
    ∃ (m : State) (addr : Nat → Addr) (answers : List Answer),
    StepRun.run (step d) .start inps = some m ∧
      Rep addr m (answers.foldl (stepLoop d) .start) := by
  have hstart : Rep id .start .start := rep_start id
  have hinv : LoopInv d .start := loopInv_of_run []
  generalize State.start = m, Loop.start = l, (id : Nat → Addr) = addr at hstart hinv ⊢
  induction inps generalizing m l addr with
  | nil => exact ⟨m, addr, [], rfl, hstart⟩
  | cons inp inps ih =>
    obtain ⟨ans, addr', m', hstep, hrep⟩ := hstart.step hinv inp
    obtain ⟨m'', addr'', answers, hrun, hfin⟩ :=
      ih m' (stepLoop d l ans) addr' hrep (hinv.step ans)
    exact ⟨m'', addr'', ans :: answers, StepRun.run_cons_iff.mpr ⟨m', hstep, hrun⟩, hfin⟩

/-! ### The stage lists in every reachable state -/

/-- The five lists are well-formed rings, `all` and `on g` being the items on them. An item is
in `all_reqs` exactly when it is on a stage list, on one only, and its state says which. The
walk in progress looks at the head or at an item of its list, and the item whose response is
being written is still on its list. -/
structure StageLists (m : State) (all : List Addr) (on : Stage → List Addr) : Prop where
  all_ring : Ring m.lists .allReqs (all.map .glist)
  stage_ring : ∀ g, Ring m.lists (.reqs g) ((on g).map .list)
  on_one : ∀ a ∈ all, ∃! g, a ∈ on g
  in_all : ∀ g, ∀ a ∈ on g, a ∈ all
  state : ∀ g, ∀ a ∈ on g, (m.sr a).state = g.reqState
  visits : ∀ p pos n, m.pc = .walk p pos n →
    pos = some (.reqs p.stage) ∨ ∃ a ∈ on p.stage, pos = some (.list a)
  responds : ∀ a resp n, m.pc = .writing a resp n → a ∈ on .postExec

/-- The lists of the loop, with each item's address, are what the rings hold. -/
theorem Rep.stageLists {l : Loop} (h : Rep addr m l) (hinv : LoopInv d l) :
    StageLists m (l.st.allReqs.map addr) (fun g ↦ (l.st.stage g).map addr) := by
  obtain ⟨s, pc⟩ := l
  obtain ⟨hm, _, hpc⟩ := h
  have hs : StageInv d s := hinv.stage
  constructor
  · rw [List.map_map]
    exact hm.all
  · intro g
    rw [List.map_map]
    exact hm.stage g
  · intro a ha
    obtain ⟨i, hi, rfl⟩ := List.mem_map.mp ha
    obtain ⟨g, hg⟩ := (hs.mem_all i).mp hi
    refine ⟨g, List.mem_map_of_mem hg, ?_⟩
    intro k hk
    obtain ⟨j, hj, heq⟩ := List.mem_map.mp hk
    obtain rfl := hm.inj j (mem_all_of_stage hs hj) i hi heq
    exact hs.stage_unique hj hg
  · intro g a ha
    obtain ⟨i, hi, rfl⟩ := List.mem_map.mp ha
    exact List.mem_map_of_mem (mem_all_of_stage hs hi)
  · intro g a ha
    obtain ⟨i, hi, rfl⟩ := List.mem_map.mp ha
    obtain ⟨_, _, hrec, _⟩ := hs.item g i hi
    rw [hm.sr i (mem_all_of_stage hs hi)]
    exact Stage.record_state hrec
  · intro p pos n heq
    rw [heq] at hpc
    cases hpc with
    | @walk _ rest _ _ hpos _ =>
      cases rest with
      | nil => exact Or.inl hpos
      | cons i rest =>
        refine Or.inr ⟨addr i, List.mem_map_of_mem ?_, hpos⟩
        exact (hinv.walk p (i :: rest) rfl).subset List.mem_cons_self
  · intro a resp n heq
    rw [heq] at hpc
    cases hpc with
    | @writing i rest =>
      exact List.mem_map_of_mem ((hinv.writing i rest rfl).subset List.mem_cons_self)

/-- For every sequence of answers by the services, the device and `malloc`, the loop follows no
bad pointer, and the stage lists are as `StageLists` says. -/
theorem stageLists_of_run (d : Daemon) (inps : List (Answer × Addr)) : ∃ m all on,
    StepRun.run (step d) .start inps = some m ∧ StageLists m all on := by
  obtain ⟨m, addr, answers, hrun, hrep⟩ := rep_of_run d inps
  exact ⟨m, _, _, hrun, hrep.stageLists (loopInv_of_run answers)⟩

/-- An item at address 7, for a service that is not registered, ends up on `done_reqs`. -/
example : (StepRun.run (step ⟨[], fun _ ↦ 0, 3⟩) .start
    (List.replicate 5 (⟨0, 0, ⟨fun _ ↦ 1, true, true, 120, false, .zeroed⟩⟩, 7))).map
      (fun m ↦ (m.lists.next (.reqs .done), m.lists.prev .allReqs, m.pc)) =
    some (some (.list 7), some (.glist 7), .walk .serviceDone (some (.reqs .postExec))
      (some (.reqs .postExec))) := by
  rfl

end QHGPU.Connector.Memory
