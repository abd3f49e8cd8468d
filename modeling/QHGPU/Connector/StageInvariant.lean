import QHGPU.Connector.MainLoop
import QHGPU.Library.StepRun
import Mathlib.Data.List.Nodup

/-!
# What each stage list holds

The invariant that carries the results about the main loop: an item is on one stage list,
its record is the one copied at the start with that stage's state, and the successful steps
logged for it are those the stage asks for. Each operation of the loop keeps it.
-/

namespace QHGPU.Connector

/-- The stage lists. -/
inductive Stage where
  | init
  | running
  | postExec
  | done
  deriving DecidableEq

/-- The items on a stage list. -/
def State.stage (s : State) : Stage → List Nat
  | .init => s.initReqs
  | .running => s.runningReqs
  | .postExec => s.postExecReqs
  | .done => s.doneReqs

/-- The value of `sr.state` on a stage list. -/
def Stage.reqState : Stage → ReqState
  | .init => .init
  | .running => .running
  | .postExec => .postExec
  | .done => .done

/-- A step that brings item `i` forward: a call that returned 0, or its response. -/
def Event.isStep (i : Nat) : Event → Bool
  | .launch j code => j == i && code == 0
  | .post j code => j == i && code == 0
  | .respond j _ => j == i

/-- The steps of item `i`, in the order in which they happened. -/
def stepsOf (i : Nat) (log : List Event) : List Event := log.filter (Event.isStep i)

/-- The steps behind an item on a stage list. -/
def Stage.steps (i : Nat) : Stage → List Event
  | .init => []
  | .running => [.launch i 0]
  | .postExec => [.launch i 0, .post i 0]
  | .done => []

/-- The record that `qc_init_service_request` copies, before the lookup. -/
def copiedRecord (d : Daemon) (kureq : QhgpuKuRequest) : QhgpuServiceRequest :=
  srOfKuRequest d { kureq with mmapAddr := d.mmapAddrArr kureq.id }

/-- The record of an item on a stage list: a service found, or none and an error code. -/
def Stage.record (d : Daemon) (kureq : QhgpuKuRequest) (g : Stage) :
    Option QhgpuServiceRequest :=
  match qcLookupService d.services kureq.serviceName, g with
  | some _, .done => none
  | some service, g =>
    some { copiedRecord d kureq with s := some service, state := g.reqState, errcode := 0 }
  | none, .done => some { copiedRecord d kureq with state := .done, errcode := qhgpuNoService }
  | none, _ => none

/-- The service that the request names is registered. -/
def Found (d : Daemon) (kureq : QhgpuKuRequest) : Prop :=
  qcLookupService d.services kureq.serviceName ≠ none

/-- The invariant of the stage lists. -/
structure StageInv (d : Daemon) (s : State) : Prop where
  nodup : ∀ g, (s.stage g).Nodup
  all_nodup : s.allReqs.Nodup
  mem_all : ∀ i, i ∈ s.allReqs ↔ ∃ g, i ∈ s.stage g
  item : ∀ g, ∀ i ∈ s.stage g, ∃ kureq, s.requests[i]? = some kureq ∧
    g.record d kureq = some (s.sr i) ∧ stepsOf i s.log = g.steps i
  gone : ∀ i kureq, s.requests[i]? = some kureq → i ∉ s.allReqs → Found d kureq ∧
    stepsOf i s.log = [.launch i 0, .post i 0, .respond i ⟨kureq.id, 0⟩]
  unread : ∀ i, s.requests.length ≤ i → stepsOf i s.log = []

/-- The steps of an item in two parts of the log. -/
theorem stepsOf_append (i : Nat) (log log' : List Event) :
    stepsOf i (log ++ log') = stepsOf i log ++ stepsOf i log' := List.filter_append ..

private theorem stepsOf_singleton (i : Nat) (ev : Event) :
    stepsOf i [ev] = if ev.isStep i then [ev] else [] := by
  cases h : ev.isStep i <;> simp [stepsOf, h]

/-- A record shows the stage it belongs to. -/
theorem Stage.record_state {d : Daemon} {kureq : QhgpuKuRequest} {g : Stage}
    {sr : QhgpuServiceRequest} (h : g.record d kureq = some sr) : sr.state = g.reqState := by
  unfold Stage.record at h
  cases hl : qcLookupService d.services kureq.serviceName <;> cases g <;>
    simp only [hl, reduceCtorEq, Option.some.injEq] at h <;> subst h <;> rfl

/-- An item with a service keeps the request's id and error code 0. -/
theorem Stage.record_found {d : Daemon} {kureq : QhgpuKuRequest} {g : Stage}
    {sr : QhgpuServiceRequest} (h : g.record d kureq = some sr) (hg : g ≠ .done) :
    Found d kureq ∧ sr.id = kureq.id ∧ sr.errcode = 0 := by
  unfold Stage.record at h
  unfold Found
  cases hl : qcLookupService d.services kureq.serviceName <;> cases g <;>
    simp only [hl, reduceCtorEq, Option.some.injEq] at h hg <;> first
      | contradiction
      | (subst h; exact ⟨Option.some_ne_none _, rfl, rfl⟩)

/-- An item on the failure list names no registered service. -/
theorem Stage.record_done {d : Daemon} {kureq : QhgpuKuRequest} {sr : QhgpuServiceRequest}
    (h : Stage.done.record d kureq = some sr) : ¬Found d kureq := by
  unfold Stage.record at h
  unfold Found
  cases hl : qcLookupService d.services kureq.serviceName <;> simp [hl] at h ⊢

/-- Moving a record to another stage changes its state only. -/
theorem Stage.record_move {d : Daemon} {kureq : QhgpuKuRequest} {g g' : Stage}
    {sr : QhgpuServiceRequest} (h : g.record d kureq = some sr) (hg : g ≠ .done)
    (hg' : g' ≠ .done) : g'.record d kureq = some { sr with state := g'.reqState } := by
  unfold Stage.record at h ⊢
  cases hl : qcLookupService d.services kureq.serviceName <;> cases g <;> cases g' <;>
    simp only [hl, reduceCtorEq, Option.some.injEq, ne_eq, not_true] at h hg hg' ⊢ <;>
    subst h <;> rfl

namespace StageInv

variable {d : Daemon} {s : State}

/-- No item is on two stage lists. -/
theorem stage_unique (h : StageInv d s) {i : Nat} {g g' : Stage} (hg : i ∈ s.stage g)
    (hg' : i ∈ s.stage g') : g = g' := by
  obtain ⟨_, _, hr, _⟩ := h.item g i hg
  obtain ⟨_, _, hr', _⟩ := h.item g' i hg'
  have hs := (Stage.record_state hr).symm.trans (Stage.record_state hr')
  cases g <;> cases g' <;> simp [Stage.reqState] at hs ⊢

/-- Items on a stage list have been read. -/
theorem lt_length (h : StageInv d s) {i : Nat} {g : Stage} (hg : i ∈ s.stage g) :
    i < s.requests.length := by
  obtain ⟨_, hr, _⟩ := h.item g i hg
  exact (List.getElem?_eq_some_iff.mp hr).1

/-- Before the first iteration nothing is on any list. -/
theorem start : StageInv d .start where
  nodup g := by cases g <;> exact List.nodup_nil
  all_nodup := List.nodup_nil
  mem_all i := by
    constructor
    · intro hi
      cases hi
    · rintro ⟨g, hi⟩
      cases g <;> cases hi
  item g i hi := by cases g <;> cases hi
  gone i kureq hi := by simp [State.start] at hi
  unread i _ := rfl

/-- A call with a non-zero code leaves the item where it is. -/
theorem failed (h : StageInv d s) {ev : Event} (hev : ∀ j, ev.isStep j = false) :
    StageInv d { s with log := s.log ++ [ev] } := by
  have hsteps (j : Nat) : stepsOf j (s.log ++ [ev]) = stepsOf j s.log := by
    rw [stepsOf_append, stepsOf_singleton, hev j]
    exact List.append_nil _
  refine ⟨h.nodup, h.all_nodup, h.mem_all, ?_, ?_, ?_⟩
  · intro g j hj
    obtain ⟨kureq, hreq, hrec, hlog⟩ := h.item g j hj
    exact ⟨kureq, hreq, hrec, (hsteps j).trans hlog⟩
  · intro j kureq hreq hj
    obtain ⟨hfound, hlog⟩ := h.gone j kureq hreq hj
    exact ⟨hfound, (hsteps j).trans hlog⟩
  · intro j hj
    exact (hsteps j).trans (h.unread j hj)

/-- A step of item `i` is no step of another item. -/
private theorem stepsOf_other {i j : Nat} {ev : Event} (hev : ∀ k, ev.isStep k = (i == k))
    (hj : j ≠ i) (log : List Event) : stepsOf j (log ++ [ev]) = stepsOf j log := by
  rw [stepsOf_append, stepsOf_singleton, hev j, beq_eq_false_iff_ne.mpr (Ne.symm hj)]
  exact List.append_nil _

private theorem stepsOf_self {i : Nat} {ev : Event} (hev : ∀ k, ev.isStep k = (i == k))
    (log : List Event) : stepsOf i (log ++ [ev]) = stepsOf i log ++ [ev] := by
  rw [stepsOf_append, stepsOf_singleton, hev i, beq_self_eq_true, if_pos rfl]

/-- A successful call moves its item to the next stage list. -/
theorem move (h : StageInv d s) {t : State} {i : Nat} {g : Stage} {ev : Event} (g' : Stage)
    (hi : i ∈ s.stage g) (hg : g ≠ .done) (hg' : g' ≠ .done)
    (hstage : ∀ k, t.stage k = (s.stage k).erase i ++ if k = g' then [i] else [])
    (hall : t.allReqs = s.allReqs) (hreq : t.requests = s.requests)
    (hsr : t.sr = Function.update s.sr i { s.sr i with state := g'.reqState })
    (hlog : t.log = s.log ++ [ev]) (hev : ∀ k, ev.isStep k = (i == k))
    (hsteps : g'.steps i = g.steps i ++ [ev]) : StageInv d t := by
  have hmem (j : Nat) (k : Stage) :
      j ∈ t.stage k ↔ (j ≠ i ∧ j ∈ s.stage k) ∨ (j = i ∧ k = g') := by
    rw [hstage, List.mem_append, (h.nodup k).mem_erase_iff]
    by_cases hk : k = g' <;> simp [hk]
  refine ⟨?_, ?_, ?_, ?_, ?_, ?_⟩
  · intro k
    rw [hstage]
    split
    · refine List.nodup_append.mpr ⟨(h.nodup k).erase i, List.nodup_singleton i, ?_⟩
      intro a ha b hb hab
      rw [List.mem_singleton.mp hb] at hab
      exact ((h.nodup k).mem_erase_iff.mp ha).1 hab
    · rw [List.append_nil]
      exact (h.nodup k).erase i
  · rw [hall]
    exact h.all_nodup
  · intro j
    rw [hall, h.mem_all]
    constructor
    · rintro ⟨k, hk⟩
      by_cases hj : j = i
      · exact ⟨g', (hmem j g').mpr (Or.inr ⟨hj, rfl⟩)⟩
      · exact ⟨k, (hmem j k).mpr (Or.inl ⟨hj, hk⟩)⟩
    · rintro ⟨k, hk⟩
      rcases (hmem j k).mp hk with ⟨_, hk⟩ | ⟨rfl, _⟩
      · exact ⟨k, hk⟩
      · exact ⟨g, hi⟩
  · intro k j hj
    rw [hreq, hsr, hlog]
    rcases (hmem j k).mp hj with ⟨hne, hk⟩ | ⟨rfl, rfl⟩
    · obtain ⟨kureq, hr, hrec, hl⟩ := h.item k j hk
      refine ⟨kureq, hr, ?_, (stepsOf_other hev hne _).trans hl⟩
      rw [Function.update_of_ne hne]
      exact hrec
    · obtain ⟨kureq, hr, hrec, hl⟩ := h.item g j hi
      refine ⟨kureq, hr, ?_, ?_⟩
      · rw [Function.update_self]
        exact Stage.record_move hrec hg hg'
      · rw [stepsOf_self hev, hl, hsteps]
  · intro j kureq hr hj
    rw [hreq] at hr
    rw [hall] at hj
    have hne : j ≠ i := by
      rintro rfl
      exact hj ((h.mem_all j).mpr ⟨g, hi⟩)
    obtain ⟨hfound, hl⟩ := h.gone j kureq hr hj
    rw [hlog]
    exact ⟨hfound, (stepsOf_other hev hne _).trans hl⟩
  · intro j hj
    rw [hreq] at hj
    have hne : j ≠ i := by
      rintro rfl
      exact absurd (h.lt_length hi) (Nat.not_lt.mpr hj)
    rw [hlog]
    exact (stepsOf_other hev hne _).trans (h.unread j hj)

/-- `qc_launch_exec` on an item of `init_reqs`. -/
theorem qcLaunchExec (h : StageInv d s) {i : Nat} (hi : i ∈ s.initReqs) (code : Int) :
    StageInv d (qcLaunchExec code s i).1 := by
  unfold Connector.qcLaunchExec
  by_cases hc : code = 0
  · subst code
    refine h.move (g := .init) .running hi nofun nofun ?_
      rfl rfl rfl rfl ?_ rfl
    · intro k
      cases k <;> simp [State.stage, State.unlink]
    · intro k
      exact Bool.and_true _
  · simp only [hc, if_false]
    refine h.failed ?_
    intro j
    simp [Event.isStep, hc]

/-- `qc_post_exec` on an item of `running_reqs`. -/
theorem qcPostExec (h : StageInv d s) {i : Nat} (hi : i ∈ s.runningReqs) (code : Int) :
    StageInv d (qcPostExec code s i).1 := by
  unfold Connector.qcPostExec
  by_cases hc : code = 0
  · subst code
    refine h.move (g := .running) .postExec hi nofun nofun ?_
      rfl rfl rfl rfl ?_ rfl
    · intro k
      cases k <;> simp [State.stage, State.unlink]
    · intro k
      exact Bool.and_true _
  · simp only [hc, if_false]
    refine h.failed ?_
    intro j
    simp [Event.isStep, hc]

/-- `qc_service_done` on an item of `post_exec_reqs`. -/
theorem qcServiceDone (h : StageInv d s) {i : Nat} (hi : i ∈ s.postExecReqs) :
    StageInv d (qcServiceDone s i).1 := by
  have hi' : i ∈ s.stage .postExec := hi
  obtain ⟨kureq, hreq, hrec, hsteps⟩ := h.item .postExec i hi'
  obtain ⟨hfound, hid, herr⟩ := Stage.record_found hrec nofun
  have hev (k : Nat) : (Event.respond i ⟨(s.sr i).id, (s.sr i).errcode⟩).isStep k = (i == k) :=
    rfl
  have hstage (k : Stage) : (Connector.qcServiceDone s i).1.stage k = (s.stage k).erase i := by
    cases k <;> rfl
  have hmem (j : Nat) (k : Stage) :
      j ∈ (Connector.qcServiceDone s i).1.stage k ↔ j ≠ i ∧ j ∈ s.stage k := by
    rw [hstage, (h.nodup k).mem_erase_iff]
  have hall (j : Nat) : j ∈ (Connector.qcServiceDone s i).1.allReqs ↔ j ≠ i ∧ j ∈ s.allReqs :=
    h.all_nodup.mem_erase_iff
  refine ⟨?_, ?_, ?_, ?_, ?_, ?_⟩
  · intro k
    rw [hstage]
    exact (h.nodup k).erase i
  · exact h.all_nodup.erase i
  · intro j
    simp only [hall, hmem, h.mem_all, exists_and_left]
  · intro k j hj
    obtain ⟨hne, hk⟩ := (hmem j k).mp hj
    obtain ⟨kureq', hr, hrec', hl⟩ := h.item k j hk
    exact ⟨kureq', hr, hrec', (stepsOf_other hev hne _).trans hl⟩
  · intro j kureq' hr hj
    by_cases hne : j = i
    · subst hne
      obtain rfl : kureq = kureq' := Option.some.inj (hreq.symm.trans hr)
      refine ⟨hfound, ?_⟩
      rw [Connector.qcServiceDone]
      dsimp only [State.unlink]
      rw [stepsOf_self hev, hsteps, hid, herr]
      rfl
    · obtain ⟨hf, hl⟩ := h.gone j kureq' hr (fun hm ↦ hj ((hall j).mpr ⟨hne, hm⟩))
      exact ⟨hf, (stepsOf_other hev hne _).trans hl⟩
  · intro j hj
    have hne : j ≠ i := by
      rintro rfl
      exact absurd (h.lt_length hi') (Nat.not_lt.mpr hj)
    exact (stepsOf_other hev hne _).trans (h.unread j hj)

/-- Taking in a request that does not stop the daemon puts a new item on `init_reqs`, or on
`done_reqs` when its service is not registered. -/
theorem qcAccept_spec (h : StageInv d s) {kureq : QhgpuKuRequest}
    (hstop : isStopRequest kureq = false) :
    (qcAccept d s kureq).1 = 0 ∧ ∃ g sr,
      (qcAccept d s kureq).2.requests = s.requests ++ [kureq] ∧
      (qcAccept d s kureq).2.allReqs = s.allReqs ++ [s.requests.length] ∧
      (qcAccept d s kureq).2.log = s.log ∧
      (qcAccept d s kureq).2.sr = Function.update s.sr s.requests.length sr ∧
      g.record d kureq = some sr ∧ g.steps s.requests.length = [] ∧
      ∀ k, (qcAccept d s kureq).2.stage k =
        s.stage k ++ if k = g then [s.requests.length] else [] := by
  have hfresh (k : Stage) : s.requests.length ∉ s.stage k := by
    intro hk
    exact absurd (h.lt_length hk) (Nat.lt_irrefl _)
  unfold qcAccept qcInitServiceRequest
  rw [hstop]
  refine ⟨rfl, ?_⟩
  cases hl : qcLookupService d.services kureq.serviceName with
  | none =>
    refine ⟨.done, { copiedRecord d kureq with state := .done, errcode := qhgpuNoService },
      rfl, rfl, rfl, ?_, ?_, rfl, ?_⟩
    · dsimp only [qcFailRequest, State.unlink]
      rw [Function.update_idem, Function.update_self]
      rfl
    · unfold Stage.record
      rw [hl]
    · intro k
      have := List.erase_of_not_mem (hfresh k)
      cases k <;> simpa [State.stage, qcFailRequest, State.unlink] using this
  | some service =>
    refine ⟨.init,
      { copiedRecord d kureq with s := some service, state := .init, errcode := 0 },
      rfl, rfl, rfl, ?_, ?_, rfl, ?_⟩
    · dsimp only
      rw [Function.update_idem, Function.update_self]
      rfl
    · unfold Stage.record
      rw [hl]
      rfl
    · intro k
      cases k <;> simp [State.stage]

/-- Taking in a request keeps the invariant. -/
theorem qcAccept (h : StageInv d s) (kureq : QhgpuKuRequest) :
    StageInv d (qcAccept d s kureq).2 := by
  cases hstop : isStopRequest kureq
  case true =>
    unfold Connector.qcAccept
    rw [hstop]
    exact h
  obtain ⟨_, g, sr, hreq, hall, hlog, hsr, hrec, hsteps, hstage⟩ := h.qcAccept_spec hstop
  generalize (Connector.qcAccept d s kureq).2 = t at *
  have hfresh (k : Stage) : s.requests.length ∉ s.stage k := by
    intro hk
    exact absurd (h.lt_length hk) (Nat.lt_irrefl _)
  have hall_lt (j : Nat) (hj : j ∈ s.allReqs) : j < s.requests.length := by
    obtain ⟨k, hk⟩ := (h.mem_all j).mp hj
    exact h.lt_length hk
  have hmem (j : Nat) (k : Stage) :
      j ∈ t.stage k ↔ j ∈ s.stage k ∨ (j = s.requests.length ∧ k = g) := by
    rw [hstage, List.mem_append]
    by_cases hk : k = g <;> simp [hk]
  refine ⟨?_, ?_, ?_, ?_, ?_, ?_⟩
  · intro k
    rw [hstage]
    split
    · rw [← List.concat_eq_append]
      exact (h.nodup k).concat (hfresh k)
    · rw [List.append_nil]
      exact h.nodup k
  · rw [hall, ← List.concat_eq_append]
    exact h.all_nodup.concat (fun hj ↦ absurd (hall_lt _ hj) (Nat.lt_irrefl _))
  · intro j
    rw [hall, List.mem_append, List.mem_singleton, h.mem_all]
    constructor
    · rintro (⟨k, hk⟩ | rfl)
      · exact ⟨k, (hmem j k).mpr (Or.inl hk)⟩
      · exact ⟨g, (hmem _ g).mpr (Or.inr ⟨rfl, rfl⟩)⟩
    · rintro ⟨k, hk⟩
      rcases (hmem j k).mp hk with hk | ⟨rfl, _⟩
      · exact Or.inl ⟨k, hk⟩
      · exact Or.inr rfl
  · intro k j hj
    rw [hreq, hlog, hsr]
    rcases (hmem j k).mp hj with hk | ⟨rfl, rfl⟩
    · obtain ⟨kureq', hr, hrec', hl⟩ := h.item k j hk
      have hlt := h.lt_length hk
      refine ⟨kureq', ?_, ?_, hl⟩
      · rw [List.getElem?_append_left hlt]
        exact hr
      · rw [Function.update_of_ne (Nat.ne_of_lt hlt)]
        exact hrec'
    · refine ⟨kureq, List.getElem?_concat_length, ?_, ?_⟩
      · rw [Function.update_self]
        exact hrec
      · rw [hsteps]
        exact h.unread _ (Nat.le_refl _)
  · intro j kureq' hr hj
    rw [hall, List.mem_append, List.mem_singleton, not_or] at hj
    rw [hreq] at hr
    have hlt : j < s.requests.length := by
      have := (List.getElem?_eq_some_iff.mp hr).1
      rw [List.length_append, List.length_singleton] at this
      omega
    rw [List.getElem?_append_left hlt] at hr
    rw [hlog]
    exact h.gone j kureq' hr hj.1
  · intro j hj
    rw [hreq, List.length_append, List.length_singleton] at hj
    rw [hlog]
    exact h.unread j (by omega)

end StageInv

/-- The walk rule: what `op` keeps when applied to an item of the list `L`, provided it takes
no other item off `L`, holds after the pass. -/
theorem qcProcessRequest_rule {I : State → Prop} {L : State → List Nat}
    {op : State → Nat → State × Int} {once : Bool}
    (hkeep : ∀ s i, I s → i ∈ L s → I (op s i).1)
    (hstay : ∀ s i j, j ∈ L s → j ≠ i → j ∈ L (op s i).1)
    {rest : List Nat} {s : State} {r : Int} (hs : I s) (hnodup : rest.Nodup)
    (hsub : ∀ j ∈ rest, j ∈ L s) : I (qcProcessRequest op once rest s r).1 := by
  induction rest generalizing s r with
  | nil => exact hs
  | cons i rest ih =>
    obtain ⟨hi, hrest⟩ := List.nodup_cons.mp hnodup
    have hI := hkeep s i hs (hsub i List.mem_cons_self)
    simp only [qcProcessRequest]
    split
    · exact hI
    · refine ih hI hrest ?_
      intro j hj
      refine hstay s i j (hsub j (List.mem_cons_of_mem i hj)) ?_
      rintro rfl
      exact hi hj

/-- A call takes in the request it has read, or changes nothing. -/
theorem qcGetNextServiceRequest_cases (d : Daemon) (env : PollRead) (s : State) :
    qcGetNextServiceRequest d env s = .ret (-1) s ∨ qcGetNextServiceRequest d env s = .abort s ∨
      qcGetNextServiceRequest d env s =
        .ret (qcAccept d s env.kureq).1 (qcAccept d s env.kureq).2 := by
  unfold qcGetNextServiceRequest
  dsimp only
  generalize env.poll _ = err
  split_ifs
  · exact Or.inl rfl
  · exact Or.inl rfl
  · exact Or.inl rfl
  · exact Or.inr (Or.inl rfl)
  · exact Or.inr (Or.inr rfl)
  · exact Or.inr (Or.inl rfl)

namespace StageInv

variable {d : Daemon} {s : State}

/-- The response pass keeps the invariant. -/
theorem serviceDonePass (h : StageInv d s) : StageInv d (serviceDonePass s) := by
  refine qcProcessRequest_rule (L := State.postExecReqs) (fun _ _ h hi ↦ h.qcServiceDone hi)
    ?_ h (h.nodup .postExec) (fun _ hj ↦ hj)
  intro s i j hj hne
  exact (List.mem_erase_of_ne hne).mpr hj

/-- The post pass keeps the invariant. -/
theorem postExecPass (h : StageInv d s) (postCode : Nat → Int) :
    StageInv d (postExecPass postCode s) := by
  refine qcProcessRequest_rule (L := State.runningReqs)
    (fun _ i h hi ↦ h.qcPostExec hi (postCode i)) ?_ h (h.nodup .running) (fun _ hj ↦ hj)
  intro s i j hj hne
  unfold Connector.qcPostExec
  split
  · exact (List.mem_erase_of_ne hne).mpr hj
  · exact hj

/-- The launch pass keeps the invariant. -/
theorem launchExecPass (h : StageInv d s) (launchCode : Nat → Int) :
    StageInv d (launchExecPass launchCode s) := by
  refine qcProcessRequest_rule (L := State.initReqs)
    (fun _ i h hi ↦ h.qcLaunchExec hi (launchCode i)) ?_ h (h.nodup .init) (fun _ hj ↦ hj)
  intro s i j hj hne
  unfold Connector.qcLaunchExec
  split
  · exact (List.mem_erase_of_ne hne).mpr hj
  · exact hj

/-- Leaving the loop changes no list. -/
theorem stop (h : StageInv d s) : StageInv d { s with stopped := true } := ⟨h.nodup,
  h.all_nodup, h.mem_all, h.item, h.gone, h.unread⟩

/-- One iteration keeps the invariant. -/
theorem qcMainLoopBody (h : StageInv d s) (inp : IterInput) :
    StageInv d (qcMainLoopBody d s inp) := by
  have hp := (h.serviceDonePass.postExecPass inp.postCode).launchExecPass inp.launchCode
  unfold Connector.qcMainLoopBody
  dsimp only
  generalize Connector.launchExecPass inp.launchCode
    (Connector.postExecPass inp.postCode (Connector.serviceDonePass s)) = t at hp ⊢
  have hacc := hp.qcAccept inp.env.kureq
  rcases qcGetNextServiceRequest_cases d inp.env t with h | h | h
  · rw [h]
    exact hp
  · rw [h]
    exact hp.stop
  · rw [h]
    dsimp only
    split
    · exact hacc.stop
    · exact hacc

end StageInv

/-- A step of the loop is an iteration. -/
theorem qcMainLoop_eq_some {d : Daemon} {s t : State} {inp : IterInput}
    (h : qcMainLoop d s inp = some t) : t = qcMainLoopBody d s inp := by
  unfold qcMainLoop at h
  split at h
  · cases h
  · exact (Option.some.inj h).symm

/-- Every state the loop reaches satisfies the invariant. -/
theorem stageInv_of_run {d : Daemon} {s : State} {inps : List IterInput}
    (h : StepRun.run (qcMainLoop d) .start inps = some s) : StageInv d s := by
  refine StepRun.run_invariant_of_step ?_ StageInv.start h
  intro s inp t hs ht
  rw [qcMainLoop_eq_some ht]
  exact hs.qcMainLoopBody inp

end QHGPU.Connector
