import QHGPU.Kernel.Frames
import QHGPU.Library.StepRun

/-!
# One transfer between the device and the daemon

`qhgpu_read` and `qhgpu_write`, `src/qhgpu/main.c:202–273` and `410–472`, from the call to the
return, with the steps of other threads in between: what the steps of the call itself do to the
queues, the error codes and the callbacks.
-/

namespace QHGPU.Kernel

/-- A call of the daemon on the device, by thread `t`. -/
inductive Transfer where
  | read (t : Tid) (count : Count) (nonblock : Bool) (stack : QhgpuKuRequest)
  | write (t : Tid) (count : Count) (resp : QhgpuKuResponse)

namespace Transfer

/-- The thread that makes the call. -/
def tid : Transfer → Tid
  | read t _ _ _ => t
  | write t _ _ => t

/-- The byte count of the call. -/
def count : Transfer → Count
  | read _ count _ _ => count
  | write _ count _ => count

/-- The call, and of `qhgpu_read` the first look at `reqs`. No other thread can see anything of
the call before, so it is counted from the state of that look on. -/
def begins : Transfer → List Act
  | read t count nonblock stack => [.read t count nonblock stack, .step t]
  | write t count resp => [.write t count resp]

end Transfer

/-- The call in progress goes on, or a signal ends its wait. -/
def Act.Continues (t : Tid) (a : Act) : Prop := a = .step t ∨ a = .signal t

/-- The steps from the call on: those of other threads are free, the thread of the call makes no
other call. -/
def Transfer.Course (x : Transfer) (acts : List Act) : Prop :=
  ∃ rest, acts = x.begins ++ rest ∧ ∀ a ∈ rest, a.tid = some x.tid → a.Continues x.tid

/-- With step `a` from `v` to `u` the transfer returns `ret`; `buf` is what it stored for the
caller. -/
def Transfer.Returns (x : Transfer) (v : State) (a : Act) (u : State) (ret : Int)
    (buf : Option QhgpuKuRequest) : Prop :=
  a.tid = some x.tid ∧
    match x with
    | .read t _ _ _ => u.threads t = .readReturn ret buf
    | .write t _ _ => u.threads t = .idle ∧ u.writeReturns = v.writeReturns ++ [ret] ∧ buf = none

/-- The bytes stored into the caller's buffer: `memcpy` copies the whole structure. -/
def storedBytes (buf : Option QhgpuKuRequest) : Nat :=
  if buf.isSome then sizeofKuRequest else 0

/-- Error codes, callbacks and the callbacks called so far are the same. -/
structure SameRequests (v u : State) : Prop where
  errcode : ∀ r, (u.request r).errcode = (v.request r).errcode
  callback : ∀ r, (u.request r).callback = (v.request r).callback
  called : u.called = v.called

/-- Neither queue has changed, and no request. -/
structure Untouched (v u : State) : Prop extends SameRequests v u where
  reqs : u.reqs = v.reqs
  rtdreqs : u.rtdreqs = v.rtdreqs

/-- What a step of a transfer does to the queues and the requests. -/
inductive Effect where
  | take (i : ItemId)
  | put (i : ItemId)
  | complete (i : ItemId) (id : Int)
  | errcode (i : ItemId) (e : Int)
  | callback (i : ItemId)

/-- The effect is all that the step from `v` to `u` does to them. -/
def Effect.Happens (v u : State) : Effect → Prop
  | .take i => SameRequests v u ∧ v.reqs = i :: u.reqs ∧ u.rtdreqs = v.rtdreqs
  | .put i => SameRequests v u ∧ u.reqs = v.reqs ∧ u.rtdreqs = v.rtdreqs ++ [i]
  | .complete i id => SameRequests v u ∧ u.reqs = v.reqs ∧ u.rtdreqs = v.rtdreqs.erase i ∧
      i ∈ v.rtdreqs ∧ (v.request (v.itemReq i)).id = id
  | .errcode i e => u.reqs = v.reqs ∧ u.rtdreqs = v.rtdreqs ∧ u.called = v.called ∧
      (∀ r, (u.request r).errcode = if r = v.itemReq i then e else (v.request r).errcode) ∧
      ∀ r, (u.request r).callback = (v.request r).callback
  | .callback i => u.reqs = v.reqs ∧ u.rtdreqs = v.rtdreqs ∧ u.called = v.called ++ [i] ∧
      (∀ r, (u.request r).errcode = (v.request r).errcode) ∧
      ∀ r, (u.request r).callback = (v.request r).callback

/-- A step from `v` to `u` adds nothing to the effects, or one. -/
def Adds (v u : State) (es es' : List Effect) : Prop :=
  (es' = es ∧ Untouched v u) ∨ ∃ e : Effect, es' = es ++ [e] ∧ e.Happens v u

/-- The steps `acts` lead from `s` to `u`, and those of thread `t` among them have the effects
`es`. -/
inductive Does (t : Tid) (s : State) : List Act → List Effect → State → Prop
  | nil : Does t s [] [] s
  | other {acts es v a u} (h : Does t s acts es v) (ha : a.tid ≠ some t)
      (hs : step v a = some u) : Does t s (acts ++ [a]) es u
  | own {acts es es' v a u} (h : Does t s acts es v) (ha : a.tid = some t)
      (hs : step v a = some u) (hadd : Adds v u es es') : Does t s (acts ++ [a]) es' u

/-- What a transfer with a positive result does: one item moved, or one completed. -/
def Transfer.Advances (es : List Effect) : Transfer → Prop
  | .read _ _ _ _ => ∃ i, es = [.take i, .put i]
  | .write _ _ resp => ∃ i, es = [.complete i resp.id, .errcode i resp.errcode, .callback i]

/-- However the call ends, whatever the other threads do meanwhile: with a result that is not
positive its steps have had no effect, with a positive one they have moved or completed one item,
and no more than `count` bytes are stored. -/
def LosesNothing (s : State) (x : Transfer) : Prop :=
  ∀ acts a v u ret buf, x.Course (acts ++ [a]) → StepRun.run step s acts = some v →
    step v a = some u → x.Returns v a u ret buf →
    ∃ es, Does x.tid s (acts ++ [a]) es u ∧
      (ret ≤ 0 → es = []) ∧ storedBytes buf ≤ x.count.val ∧ (0 < ret → x.Advances es)

/-- A read has room for the structure, or finds no item and does not wait for one. -/
def Transfer.Fits (s : State) : Transfer → Prop
  | .read _ count nonblock _ => sizeofKuRequest ≤ count.val ∨ s.reqs = [] ∧ nonblock = true
  | .write _ _ _ => True

variable {s v u : State} {t : Tid} {i : ItemId} {a : Act} {acts : List Act} {count : Count}
  {es : List Effect}

/-- Nothing is stored without a record. -/
@[simp] theorem storedBytes_none : storedBytes none = 0 := rfl

/-- A record is stored whole. -/
@[simp] theorem storedBytes_some (kureq : QhgpuKuRequest) :
    storedBytes (some kureq) = sizeofKuRequest := rfl

private theorem untouched_refl (s : State) : Untouched s s :=
  ⟨⟨fun _ ↦ rfl, fun _ ↦ rfl, rfl⟩, rfl, rfl⟩

/-- A step that only moves its thread. -/
theorem untouched_goto (s : State) (t : Tid) (pc : Pc) : Untouched s (s.goto t pc) :=
  ⟨⟨fun _ ↦ rfl, fun _ ↦ rfl, rfl⟩, rfl, rfl⟩

/-- Where the steps of one thread keep `P` of their effects and its place, a whole run does. -/
private theorem does_of_run {P : List Effect → Pc → Prop}
    (hstep : ∀ v a u es, a.Continues t → step v a = some u → P es (v.threads t) →
      ∃ es', Adds v u es es' ∧ P es' (u.threads t))
    {acts₀ : List Act} (hdoes : Does t s acts₀ es v) (hat : P es (v.threads t))
    (hrest : ∀ a ∈ acts, a.tid = some t → a.Continues t)
    (hrun : StepRun.run step v acts = some u) :
    ∃ es, Does t s (acts₀ ++ acts) es u ∧ P es (u.threads t) := by
  induction acts generalizing v es acts₀ with
  | nil =>
    obtain rfl := Option.some.inj hrun
    rw [List.append_nil]
    exact ⟨es, hdoes, hat⟩
  | cons a acts ih =>
    obtain ⟨w, ha, hrun⟩ := StepRun.run_cons_iff.mp hrun
    have hnext := fun b hb ↦ hrest b (List.mem_cons_of_mem a hb)
    rw [← List.singleton_append, ← List.append_assoc]
    by_cases htid : a.tid = some t
    · obtain ⟨es', hadd, hat'⟩ := hstep v a w es (hrest a List.mem_cons_self htid) ha hat
      exact ih (.own hdoes htid ha hadd) hat' hnext hrun
    · have hplace := (trans_of_step ha).threads_of_ne htid
      exact ih (.other hdoes htid ha) (by rw [hplace]; exact hat) hnext hrun

/-! ### Reading -/

/-- Where a `qhgpu_read` has come, with its effects so far. -/
def ReadAt (count : Count) (es : List Effect) : Pc → Prop
  | .readLock count' _ _ | .readWait count' _ _ => count' = count ∧ es = []
  | .readHand i count' _ => count' = count ∧ es = [.take i]
  | .readReturn ret buf => (ret < 0 ∧ buf = none ∧ es = []) ∨
      (ret = count.val ∧ buf.isSome ∧ (0 < count.val → ∃ i, es = [.take i, .put i]))
  | .idle => True
  | _ => False

private theorem readAt_step (v : State) (a : Act) (u : State) (es : List Effect)
    (ha : a.Continues t) (hstep : step v a = some u) (h : ReadAt count es (v.threads t)) :
    ∃ es', Adds v u es es' ∧ ReadAt count es' (u.threads t) := by
  rcases ha with rfl | rfl
  · cases trans_of_step hstep with
    | readEmpty ht hreqs hpc =>
      rw [ht] at h
      obtain ⟨rfl, rfl⟩ := h
      refine ⟨[], Or.inl ⟨rfl, untouched_goto ..⟩, ?_⟩
      rw [State.threads_goto_self]
      rcases hpc with rfl | rfl
      · exact Or.inl ⟨by decide, rfl, rfl⟩
      · exact ⟨rfl, rfl⟩
    | @readTake _ _ _ _ i _ _ ht hreqs hkureq =>
      rw [ht] at h
      obtain ⟨rfl, rfl⟩ := h
      refine ⟨[.take i], Or.inr ⟨.take i, rfl, ⟨fun _ ↦ rfl, fun _ ↦ rfl, rfl⟩, hreqs, rfl⟩, ?_⟩
      rw [State.threads_goto_self]
      exact ⟨rfl, rfl⟩
    | readWake ht hreqs =>
      rw [ht] at h
      refine ⟨es, Or.inl ⟨rfl, untouched_goto ..⟩, ?_⟩
      rw [State.threads_goto_self]
      exact h
    | @readPut _ i _ kureq ht hcount =>
      rw [ht] at h
      obtain ⟨rfl, rfl⟩ := h
      refine ⟨[.take i, .put i],
        Or.inr ⟨.put i, rfl, ⟨fun _ ↦ rfl, fun _ ↦ rfl, rfl⟩, rfl, rfl⟩, ?_⟩
      rw [State.threads_goto_self]
      exact Or.inr ⟨rfl, rfl, fun _ ↦ ⟨i, rfl⟩⟩
    | readDrop ht hcount =>
      -- the item is forgotten: it is on no list, and no list has changed
      rw [ht] at h
      obtain ⟨rfl, rfl⟩ := h
      refine ⟨_, Or.inl ⟨rfl, ⟨⟨fun _ ↦ rfl, fun _ ↦ rfl, rfl⟩, rfl, rfl⟩⟩, ?_⟩
      rw [State.threads_goto_self]
      exact Or.inr ⟨rfl, rfl, fun hpos ↦ absurd hpos (by omega)⟩
    | readReturn ht =>
      refine ⟨es, Or.inl ⟨rfl, untouched_goto ..⟩, ?_⟩
      rw [State.threads_goto_self]
      trivial
    | setKdata ht | setCallback ht | syncEnqueue ht | wait ht | restoreKdata ht
    | restoreKdataStale ht | restoreCallback ht | restoreCallbackStale ht | free ht
    | syncReturnMmap ht | syncReturn ht | asyncEnqueue ht | writeMiss ht | writeFind ht
    | writeErrcode ht | callClient ht | callSyncCallback ht | clientDone ht | callbackKdata ht
    | callbackDone ht | callbackDoneStale ht | callbackWake ht | callbackWakeStale ht
    | writeReturn ht =>
      rw [ht] at h
      exact h.elim
  · cases trans_of_step hstep with
    | signalRead ht hreqs =>
      rw [ht] at h
      obtain ⟨rfl, rfl⟩ := h
      refine ⟨[], Or.inl ⟨rfl, untouched_goto ..⟩, ?_⟩
      rw [State.threads_goto_self]
      exact Or.inl ⟨by decide, rfl, rfl⟩
    | signalSync ht hd =>
      rw [ht] at h
      exact h.elim

/-- What a call of `qhgpu_read` has done when it returns. -/
private theorem readAt_of_course {nonblock : Bool} {stack : QhgpuKuRequest}
    (hcourse : (Transfer.read t count nonblock stack).Course acts)
    (hrun : StepRun.run step s acts = some u) :
    ∃ es, Does t s acts es u ∧ ReadAt count es (u.threads t) := by
  obtain ⟨rest, rfl, hrest⟩ := hcourse
  obtain ⟨s₁, hcall, hrun⟩ := StepRun.run_cons_iff.mp hrun
  cases trans_of_step hcall with
  | read ht =>
    have hdoes : Does t s [_] [] _ := .own .nil rfl hcall (Or.inl ⟨rfl, untouched_goto ..⟩)
    have hat : ReadAt count [] ((s.goto t (.readLock count nonblock stack)).threads t) := by
      rw [State.threads_goto_self]
      exact ⟨rfl, rfl⟩
    have hown : ∀ a ∈ .step t :: rest, a.tid = some t → a.Continues t := by
      intro a ha htid
      rcases List.mem_cons.mp ha with rfl | ha
      · exact Or.inl rfl
      · exact hrest a ha htid
    obtain ⟨es, hread⟩ := does_of_run readAt_step hdoes hat hown hrun
    exact ⟨es, hread⟩

/-- A read that does not wait and finds no item. -/
private theorem again_of_course {stack : QhgpuKuRequest} (hreqs : s.reqs = [])
    (hcourse : (Transfer.read t count true stack).Course acts)
    (hrun : StepRun.run step s acts = some u) :
    ∃ es, Does t s acts es u ∧ es = [] ∧
      (u.threads t = .readReturn (-eagain) none ∨ u.threads t = .idle) := by
  obtain ⟨rest, rfl, hrest⟩ := hcourse
  obtain ⟨s₁, hcall, hrun⟩ := StepRun.run_cons_iff.mp hrun
  obtain ⟨s₂, hlook, hrun⟩ := StepRun.run_cons_iff.mp hrun
  cases trans_of_step hcall with
  | read ht =>
    have hfirst : step (s.goto t (.readLock count true stack)) (.step t) =
        some ((s.goto t (.readLock count true stack)).goto t (.readReturn (-eagain) none)) := by
      have hnone : (s.goto t (.readLock count true stack)).reqs = [] := hreqs
      simp only [step, stepThread, State.threads_goto_self, hnone, if_true]
    obtain rfl := Option.some.inj (hfirst.symm.trans hlook)
    have hdoes : Does t s [_, _] [] _ :=
      .own (.own .nil rfl hcall (Or.inl ⟨rfl, untouched_goto ..⟩)) rfl hlook
        (Or.inl ⟨rfl, untouched_goto ..⟩)
    refine does_of_run (P := fun es pc ↦ es = [] ∧ (pc = .readReturn (-eagain) none ∨ pc = .idle))
      ?_ hdoes ?_ hrest hrun
    · rintro v a u es ha hstep ⟨rfl, hpc⟩
      rcases ha with rfl | rfl
      · rcases hpc with hpc | hpc
        · rw [step, stepThread, hpc] at hstep
          obtain rfl := Option.some.inj hstep
          exact ⟨[], Or.inl ⟨rfl, untouched_goto ..⟩, rfl, Or.inr (State.threads_goto_self ..)⟩
        · rw [step, stepThread, hpc] at hstep
          cases hstep
      · rcases hpc with hpc | hpc
        all_goals
          rw [step, signalThread, hpc] at hstep
          cases hstep
    · exact ⟨rfl, Or.inl (State.threads_goto_self ..)⟩

/-! ### Writing -/

/-- Where a `qhgpu_write` has come, with its effects so far. -/
def WriteAt (count : Count) (resp : QhgpuKuResponse) (es : List Effect) : Pc → Prop
  | .writeFind count' resp' =>
    count' = count ∧ resp' = resp ∧ sizeofKuResponse ≤ count.val ∧ es = []
  | .write i count' p =>
    count' = count ∧ sizeofKuResponse ≤ count.val ∧
      match p with
      | .errcode e => e = resp.errcode ∧ es = [.complete i resp.id]
      | .callback => es = [.complete i resp.id, .errcode i resp.errcode]
      | _ => es = [.complete i resp.id, .errcode i resp.errcode, .callback i]
  | .idle => True
  | _ => False

section

variable {resp : QhgpuKuResponse}

/-- The store of the response's error code. -/
private theorem errcode_happens (v : State) (i : ItemId) (e : Int) :
    (Effect.errcode i e).Happens v
      (v.setRequest (v.itemReq i) { v.request (v.itemReq i) with errcode := e }) := by
  refine ⟨rfl, rfl, rfl, ?_, ?_⟩
  · intro r
    rw [State.setRequest]
    dsimp only
    rw [Function.update_apply]
    split
    · rfl
    · rfl
  · intro r
    rw [State.setRequest]
    dsimp only
    rw [Function.update_apply]
    split
    · next hr => rw [hr]
    · rfl

private theorem writeAt_step (v : State) (a : Act) (u : State) (es : List Effect)
    (ha : a.Continues t) (hstep : step v a = some u) (h : WriteAt count resp es (v.threads t)) :
    ∃ es', Adds v u es es' ∧ WriteAt count resp es' (u.threads t) := by
  rcases ha with rfl | rfl
  · cases trans_of_step hstep with
    | writeMiss ht hfind =>
      refine ⟨es, Or.inl ⟨rfl, ⟨⟨fun _ ↦ rfl, fun _ ↦ rfl, rfl⟩, rfl, rfl⟩⟩, ?_⟩
      rw [State.threads_goto_self]
      trivial
    | @writeFind _ _ _ i ht hfind =>
      rw [ht] at h
      obtain ⟨rfl, rfl, hcount, rfl⟩ := h
      have hid := List.find?_some hfind
      refine ⟨[.complete i _], Or.inr ⟨.complete i _, rfl, ⟨fun _ ↦ rfl, fun _ ↦ rfl, rfl⟩, rfl,
        rfl, findRequest_mem hfind, of_decide_eq_true hid⟩, ?_⟩
      rw [State.threads_goto_self]
      exact ⟨rfl, hcount, rfl, rfl⟩
    | @writeErrcode _ i _ _ ht =>
      rw [ht] at h
      obtain ⟨rfl, hcount, rfl, rfl⟩ := h
      refine ⟨_, Or.inr ⟨.errcode i _, rfl, errcode_happens v i _⟩, ?_⟩
      rw [State.threads_goto_self]
      exact ⟨rfl, hcount, rfl⟩
    | @callClient _ i _ _ ht hcb | @callSyncCallback _ i _ ht hcb =>
      rw [ht] at h
      obtain ⟨rfl, hcount, rfl⟩ := h
      refine ⟨_, Or.inr ⟨.callback i, rfl, rfl, rfl, rfl, fun _ ↦ rfl, fun _ ↦ rfl⟩, ?_⟩
      rw [State.threads_goto_self]
      exact ⟨rfl, hcount, rfl⟩
    | clientDone ht | callbackKdata ht | callbackDone ht hd | callbackDoneStale ht hd
    | callbackWake ht hd | callbackWakeStale ht hd =>
      rw [ht] at h
      refine ⟨es, Or.inl ⟨rfl, ⟨⟨fun _ ↦ rfl, fun _ ↦ rfl, rfl⟩, rfl, rfl⟩⟩, ?_⟩
      rw [State.threads_goto_self]
      exact h
    | writeReturn ht =>
      refine ⟨es, Or.inl ⟨rfl, ⟨⟨fun _ ↦ rfl, fun _ ↦ rfl, rfl⟩, rfl, rfl⟩⟩, ?_⟩
      rw [State.threads_goto_self]
      trivial
    | setKdata ht | setCallback ht | syncEnqueue ht | wait ht | restoreKdata ht
    | restoreKdataStale ht | restoreCallback ht | restoreCallbackStale ht | free ht
    | syncReturnMmap ht | syncReturn ht | asyncEnqueue ht | readEmpty ht | readTake ht
    | readWake ht | readPut ht | readDrop ht | readReturn ht =>
      rw [ht] at h
      exact h.elim
  · cases trans_of_step hstep with
    | signalRead ht | signalSync ht =>
      rw [ht] at h
      exact h.elim

/-- The step with which `qhgpu_write` returns. -/
private theorem write_return {ret : Int} (ha : a.Continues t) (hstep : step v a = some u)
    (h : WriteAt count resp es (v.threads t)) (hidle : u.threads t = .idle)
    (hret : u.writeReturns = v.writeReturns ++ [ret]) :
    Untouched v u ∧ (ret ≤ 0 → es = []) ∧
      (0 < ret → ∃ i, es = [.complete i resp.id, .errcode i resp.errcode, .callback i]) := by
  rcases ha with rfl | rfl
  · cases trans_of_step hstep with
    | writeMiss ht hfind =>
      rw [ht] at h
      obtain ⟨_, _, _, rfl⟩ := h
      have hlast : v.writeReturns ++ [-efault] = v.writeReturns ++ [ret] := hret
      obtain rfl := List.singleton_inj.mp (List.append_cancel_left hlast)
      exact ⟨⟨⟨fun _ ↦ rfl, fun _ ↦ rfl, rfl⟩, rfl, rfl⟩, fun _ ↦ rfl,
        fun hpos ↦ absurd hpos (by decide)⟩
    | @writeReturn _ i n ht =>
      rw [ht] at h
      obtain ⟨rfl, hcount, rfl⟩ := h
      have hlast : v.writeReturns ++ [(n.val : Int)] = v.writeReturns ++ [ret] := hret
      obtain rfl := List.singleton_inj.mp (List.append_cancel_left hlast)
      refine ⟨⟨⟨fun _ ↦ rfl, fun _ ↦ rfl, rfl⟩, rfl, rfl⟩, ?_, fun _ ↦ ⟨i, rfl⟩⟩
      intro hnonpos
      have hsize : sizeofKuResponse = 8 := rfl
      omega
    | writeFind ht | writeErrcode ht | callClient ht | callSyncCallback ht | clientDone ht
    | callbackKdata ht | callbackDone ht | callbackDoneStale ht | callbackWake ht
    | callbackWakeStale ht =>
      rw [State.threads_goto_self] at hidle
      cases hidle
    | setKdata ht | setCallback ht | syncEnqueue ht | wait ht | restoreKdata ht
    | restoreKdataStale ht | restoreCallback ht | restoreCallbackStale ht | free ht
    | syncReturnMmap ht | syncReturn ht | asyncEnqueue ht | readEmpty ht | readTake ht
    | readWake ht | readPut ht | readDrop ht | readReturn ht =>
      rw [ht] at h
      exact h.elim
  · cases trans_of_step hstep with
    | signalRead ht | signalSync ht =>
      rw [ht] at h
      exact h.elim

/-- However a call of `qhgpu_write` ends. -/
private theorem losesNothing_write (hidle : s.threads t = .idle) :
    LosesNothing s (.write t count resp) := by
  rintro acts a v u ret buf ⟨rest, hacts, hrest⟩ hrun hstep ⟨htid, ht, hret, rfl⟩
  cases acts with
  | nil =>
    obtain ⟨rfl, rfl⟩ := List.cons.inj hacts
    obtain rfl := Option.some.inj hrun
    cases trans_of_step hstep with
    | writeShort _ =>
      have hlast : s.writeReturns ++ [-einval] = s.writeReturns ++ [ret] := hret
      obtain rfl := List.singleton_inj.mp (List.append_cancel_left hlast)
      exact ⟨[], .own .nil rfl hstep (Or.inl ⟨rfl, ⟨⟨fun _ ↦ rfl, fun _ ↦ rfl, rfl⟩, rfl, rfl⟩⟩),
        fun _ ↦ rfl, Nat.zero_le _, fun hpos ↦ absurd hpos (by decide)⟩
    | write _ hcount =>
      have hpc := (State.threads_goto_self s t (.writeFind count resp)).symm.trans ht
      cases hpc
  | cons b acts =>
    obtain ⟨rfl, rfl⟩ := List.cons.inj hacts
    obtain ⟨s₁, hcall, hrun⟩ := StepRun.run_cons_iff.mp hrun
    have hfirst : Untouched s s₁ ∧ WriteAt count resp [] (s₁.threads t) := by
      cases trans_of_step hcall with
      | writeShort _ =>
        refine ⟨⟨⟨fun _ ↦ rfl, fun _ ↦ rfl, rfl⟩, rfl, rfl⟩, ?_⟩
        show WriteAt count resp [] (s.threads t)
        rw [hidle]
        trivial
      | write _ hcount =>
        refine ⟨untouched_goto .., ?_⟩
        rw [State.threads_goto_self]
        exact ⟨rfl, rfl, hcount, rfl⟩
    have hcalled : Does t s [_] [] s₁ := .own .nil rfl hcall (Or.inl ⟨rfl, hfirst.1⟩)
    obtain ⟨es, hdoes, hat⟩ := does_of_run writeAt_step hcalled hfirst.2
      (fun c hc ↦ hrest c (List.mem_append_left _ hc)) hrun
    have ha := hrest a (List.mem_append_right _ List.mem_cons_self) htid
    obtain ⟨hsame, hzero, hpos⟩ := write_return ha hstep hat ht hret
    exact ⟨es, .own hdoes htid hstep (Or.inl ⟨rfl, hsame⟩), hzero, Nat.zero_le _, hpos⟩

end

/-! ### Reads without room for the structure -/

/-- A read that finds an item stores the structure. -/
private theorem stores_of_look {nonblock : Bool} {stack : QhgpuKuRequest} {rest : List ItemId}
    (ht : v.threads t = .readLock count nonblock stack) (hreqs : v.reqs = i :: rest) :
    ∃ w u kureq, step v (.step t) = some w ∧ step w (.step t) = some u ∧
      u.threads t = .readReturn count.val (some kureq) := by
  obtain ⟨w, kureq, htake, hw⟩ : ∃ w kureq, step v (.step t) = some w ∧
      w.threads t = .readHand i count kureq := by
    simp only [step, stepThread, ht, hreqs]
    exact ⟨_, _, rfl, State.threads_goto_self ..⟩
  obtain ⟨u, hhand, hu⟩ : ∃ u, step w (.step t) = some u ∧
      u.threads t = .readReturn count.val (some kureq) := by
    rw [step, stepThread, hw]
    exact ⟨_, rfl, State.threads_goto_self ..⟩
  exact ⟨w, u, kureq, htake, hhand, hu⟩

/-- A read whose first look finds an item. -/
private theorem found_stores (count : Count) (nonblock : Bool) (stack : QhgpuKuRequest)
    {rest : List ItemId} (hidle : s.threads t = .idle) (hreqs : s.reqs = i :: rest) :
    ∃ acts v u kureq, (Transfer.read t count nonblock stack).Course (acts ++ [.step t]) ∧
      StepRun.run step s acts = some v ∧ step v (.step t) = some u ∧
      u.threads t = .readReturn count.val (some kureq) := by
  obtain ⟨v, u, kureq, htake, hhand, hu⟩ := stores_of_look
    (v := s.goto t (.readLock count nonblock stack)) (State.threads_goto_self ..) hreqs
  refine ⟨[.read t count nonblock stack, .step t], v, u, kureq, ⟨[.step t], rfl, ?_⟩, ?_, hhand, hu⟩
  · intro a ha _
    exact Or.inl (List.mem_singleton.mp ha)
  · exact StepRun.run_cons_iff.mpr ⟨_, if_pos hidle, StepRun.run_cons_iff.mpr ⟨v, htake, rfl⟩⟩

/-- In a run only finitely many threads have moved. -/
private theorem exists_idle {n : Nat} {arr : Int → Word} {pool : QhgpuMempool}
    (hrun : StepRun.run step (.start n arr pool) acts = some s) (t : Tid) :
    ∃ t', t' ≠ t ∧ s.threads t' = .idle := by
  obtain ⟨m, hm⟩ : ∃ m : Nat, ∀ t : Nat, m ≤ t → s.threads t = .idle := by
    refine StepRun.run_invariant_of_step
      (I := fun s : State ↦ ∃ m : Nat, ∀ t : Nat, m ≤ t → s.threads t = .idle)
      ?_ ⟨0, fun _ _ ↦ rfl⟩ hrun
    rintro v a u ⟨m, hm⟩ hstep
    refine ⟨max m (a.tid.elim 0 Nat.succ), ?_⟩
    intro t ht
    rw [(trans_of_step hstep).threads_of_ne ?_]
    · exact hm t (Nat.le_trans (Nat.le_max_left ..) ht)
    · intro heq
      rw [heq] at ht
      exact Nat.lt_irrefl t (Nat.le_trans (Nat.le_max_right ..) ht)
  exact ⟨max m (t + 1), Nat.ne_of_gt (Nat.le_max_right ..), hm _ (Nat.le_max_left ..)⟩

private theorem devState_of_run {n : Nat} {arr : Int → Word} {pool : QhgpuMempool}
    (hrun : StepRun.run step (.start n arr pool) acts = some s) : s.devState = qhgpuOk := by
  refine StepRun.run_invariant_of_step (I := fun s : State ↦ s.devState = qhgpuOk) ?_ rfl hrun
  intro v a u hv hstep
  cases trans_of_step hstep <;> exact hv

/-- An idle thread makes a request and submits it; the other threads stay where they are. -/
private theorem submitted_by_other {t' : Tid} (hidle : s.threads t' = .idle) (hreqs : s.reqs = [])
    (hstate : s.devState = qhgpuOk) :
    ∃ acts v i, StepRun.run step s acts = some v ∧ v.reqs = [i] ∧
      (∀ t ≠ t', v.threads t = s.threads t) ∧ ∀ a ∈ acts, ∀ t ≠ t', a.tid ≠ some t := by
  obtain ⟨s₁, halloc⟩ : ∃ s₁, step s (.alloc 1 [] (some (fieldsWith 0, 0))) = some s₁ := by
    rcases hslot : qhgpuMmapId s with ⟨id, s'⟩
    simp [step, qhgpuAllocRequest, hslot]
  obtain ⟨hplaces, hempty, hstate₁, hr⟩ : s₁.threads = s.threads ∧ s₁.reqs = [] ∧
      s₁.devState = qhgpuOk ∧ s.nextReq < s₁.nextReq := by
    cases trans_of_step halloc with
    | alloc hid haddr hcallback => exact ⟨rfl, hreqs, hstate, Nat.lt_succ_self _⟩
  let s₂ := { s₁ with
    itemReq := Function.update s₁.itemReq s₁.nextItem s.nextReq
    nextItem := s₁.nextItem + 1 }.goto t' (.asyncEnqueue s₁.nextItem)
  have hasync : step s₁ (.callAsync t' s.nextReq true) = some s₂ := by
    have hruns : s₁.devState ≠ qhgpuTerminated := by
      rw [hstate₁]
      decide
    have hidle₁ : s₁.threads t' = .idle := by rw [hplaces, hidle]
    rw [step, if_pos ⟨hidle₁, hr⟩, qhgpuCallAsync, if_neg hruns, if_neg (by decide)]
  have henqueue : step s₂ (.step t') = some ((s₂.enqueue s₁.nextItem).goto t' .idle) := by
    have hpc : s₂.threads t' = .asyncEnqueue s₁.nextItem := State.threads_goto_self ..
    rw [step, stepThread, hpc]
  refine ⟨[.alloc 1 [] (some (fieldsWith 0, 0)), .callAsync t' s.nextReq true, .step t'], _,
    s₁.nextItem, StepRun.run_cons_iff.mpr ⟨s₁, halloc, StepRun.run_cons_iff.mpr ⟨s₂, hasync,
      StepRun.run_cons_iff.mpr ⟨_, henqueue, rfl⟩⟩⟩, ?_, ?_, ?_⟩
  · show s₁.reqs ++ [s₁.nextItem] = [s₁.nextItem]
    rw [hempty, List.nil_append]
  · intro t hne
    rw [State.threads_goto_of_ne hne]
    show s₂.threads t = _
    rw [State.threads_goto_of_ne hne]
    show s₁.threads t = _
    rw [hplaces]
  · intro a ha t hne htid
    simp only [List.mem_cons, List.not_mem_nil, or_false] at ha
    rcases ha with rfl | rfl | rfl
    · cases htid
    · exact hne (Option.some.inj htid).symm
    · exact hne (Option.some.inj htid).symm

/-- A read that waits is given an item by another thread. -/
private theorem blocked_stores {stack : QhgpuKuRequest} {t' : Tid} (hidle : s.threads t = .idle)
    (hreqs : s.reqs = []) (hstate : s.devState = qhgpuOk) (hne : t ≠ t')
    (hidle' : s.threads t' = .idle) :
    ∃ acts v u kureq, (Transfer.read t count false stack).Course (acts ++ [.step t]) ∧
      StepRun.run step s acts = some v ∧ step v (.step t) = some u ∧
      u.threads t = .readReturn count.val (some kureq) := by
  let s₁ := s.goto t (.readLock count false stack)
  let s₂ := s₁.goto t (.readWait count false stack)
  have hcall : step s (.read t count false stack) = some s₁ := if_pos hidle
  have hlook : step s₁ (.step t) = some s₂ := by
    have hnone : s₁.reqs = [] := hreqs
    have hpc : s₁.threads t = .readLock count false stack := State.threads_goto_self ..
    simp only [step, stepThread, hpc, hnone]
    rfl
  have hidle₂ : s₂.threads t' = .idle := by
    rw [State.threads_goto_of_ne hne.symm, State.threads_goto_of_ne hne.symm, hidle']
  obtain ⟨acts, s₃, i, hrun, hqueue, hplaces, hothers⟩ :=
    submitted_by_other hidle₂ (show s₂.reqs = [] from hreqs) hstate
  have hwait : s₃.threads t = .readWait count false stack := by
    rw [hplaces t hne, State.threads_goto_self]
  let s₄ := s₃.goto t (.readLock count false stack)
  have hwake : step s₃ (.step t) = some s₄ := by
    rw [step, stepThread, hwait]
    simp only [hqueue, List.cons_ne_nil, if_false]
    rfl
  obtain ⟨v, u, kureq, htake, hhand, hu⟩ := stores_of_look (State.threads_goto_self ..)
    (show s₄.reqs = i :: [] from hqueue)
  refine ⟨.read t count false stack :: .step t :: (acts ++ [.step t, .step t]), v, u, kureq,
    ⟨acts ++ [.step t, .step t, .step t], by simp [Transfer.begins], ?_⟩, ?_, hhand, hu⟩
  · intro a ha htid
    rcases List.mem_append.mp ha with ha | ha
    · exact absurd htid (hothers a ha t hne)
    · simp only [List.mem_cons, List.not_mem_nil, or_false, or_self] at ha
      exact Or.inl ha
  · refine StepRun.run_cons_iff.mpr ⟨s₁, hcall, StepRun.run_cons_iff.mpr ⟨s₂, hlook, ?_⟩⟩
    exact StepRun.run_append hrun (StepRun.run_cons_iff.mpr ⟨s₄, hwake,
      StepRun.run_cons_iff.mpr ⟨v, htake, rfl⟩⟩)

/-- For every state that can be reached, whatever the other threads do meanwhile, every count and
every response. -/
theorem losesNothing_iff {n : Nat} {arr : Int → Word} {pool : QhgpuMempool}
    (hreach : StepRun.run step (.start n arr pool) acts = some s) (x : Transfer)
    (hidle : s.threads x.tid = .idle) : LosesNothing s x ↔ x.Fits s := by
  cases x with
  | write t count resp => exact iff_of_true (losesNothing_write hidle) trivial
  | read t count nonblock stack =>
    constructor
    · intro h
      by_contra hnot
      rw [Transfer.Fits, not_or] at hnot
      obtain ⟨hcount, hwaits⟩ := hnot
      obtain ⟨acts', v, u, kureq, hcourse, hrun, hstep, ht⟩ : ∃ acts v u kureq,
          (Transfer.read t count nonblock stack).Course (acts ++ [.step t]) ∧
            StepRun.run step s acts = some v ∧ step v (.step t) = some u ∧
            u.threads t = .readReturn count.val (some kureq) := by
        cases hreqs : s.reqs with
        | cons i rest => exact found_stores count nonblock stack hidle hreqs
        | nil =>
          obtain rfl : nonblock = false := by
            rw [← Bool.not_eq_true]
            intro htrue
            exact hwaits ⟨hreqs, htrue⟩
          obtain ⟨t', hne, hidle'⟩ := exists_idle hreach t
          exact blocked_stores hidle hreqs (devState_of_run hreach) hne.symm hidle'
      obtain ⟨_, _, _, hbytes, _⟩ := h acts' _ v u _ _ hcourse hrun hstep ⟨rfl, ht⟩
      exact hcount hbytes
    · rintro hfits acts' a v u ret buf hcourse hrun hstep ⟨htid, hret⟩
      have hall : StepRun.run step s (acts' ++ [a]) = some u :=
        StepRun.run_append hrun (StepRun.run_cons_iff.mpr ⟨u, hstep, rfl⟩)
      rcases hfits with hcount | ⟨hreqs, rfl⟩
      · obtain ⟨es, hdoes, hat⟩ := readAt_of_course hcourse hall
        rw [show u.threads t = .readReturn ret buf from hret] at hat
        refine ⟨es, hdoes, ?_⟩
        have hsize : sizeofKuRequest = 120 := rfl
        rcases hat with ⟨hneg, rfl, rfl⟩ | ⟨rfl, hbuf, hmoved⟩
        · exact ⟨fun _ ↦ rfl, Nat.zero_le _, fun hpos ↦ absurd hpos (by omega)⟩
        · refine ⟨fun hnonpos ↦ absurd hnonpos (by omega), ?_, fun _ ↦ hmoved (by omega)⟩
          rw [storedBytes, if_pos hbuf]
          exact hcount
      · obtain ⟨es, hdoes, rfl, hpc⟩ := again_of_course hreqs hcourse hall
        rw [show u.threads t = .readReturn ret buf from hret] at hpc
        rcases hpc with hpc | hpc
        · obtain ⟨rfl, rfl⟩ := Pc.readReturn.inj hpc
          exact ⟨[], hdoes, fun _ ↦ rfl, Nat.zero_le _, fun hpos ↦ absurd hpos (by decide)⟩
        · cases hpc

/-- One request is submitted by thread 1. -/
def submitOne : List Act :=
  [.alloc 1 [] (some (fieldsWith 0, 0)), .callAsync 1 0 true, .step 1]

/-- A read with a count of 0 takes the only item off `reqs` and forgets it. -/
theorem not_losesNothing_zero : ¬∀ (n : Nat) (arr : Int → Word) (pool : QhgpuMempool)
    (acts : List Act) (s : State) (x : Transfer),
    StepRun.run step (.start n arr pool) acts = some s → s.threads x.tid = .idle →
      LosesNothing s x := by
  intro hall
  obtain ⟨s, hrun, hidle, hreqs⟩ : ∃ s, StepRun.run step (.start 1 (fun _ ↦ 0) .zeroed) submitOne =
      some s ∧ s.threads 0 = .idle ∧ s.reqs = [0] := ⟨_, rfl, rfl, rfl⟩
  obtain ⟨acts, v, u, kureq, hcourse, hread, hstep, hu⟩ := found_stores ⟨0, by decide⟩ false
    .zeroed hidle hreqs
  obtain ⟨_, _, _, hbytes, _⟩ := hall _ _ _ _ s (.read 0 ⟨0, by decide⟩ false .zeroed) hrun hidle
    acts _ v u _ _ hcourse hread hstep ⟨rfl, hu⟩
  rw [storedBytes_some] at hbytes
  exact absurd hbytes (by decide)

/-- A whole structure for the same item. -/
theorem losesNothing_iff_submitOne : ∃ s,
    StepRun.run step (.start 1 (fun _ ↦ 0) .zeroed) submitOne = some s ∧
      LosesNothing s (.read 0 kuRequestCount false .zeroed) := by
  obtain ⟨s, hrun, hidle⟩ : ∃ s, StepRun.run step (.start 1 (fun _ ↦ 0) .zeroed) submitOne =
      some s ∧ s.threads 0 = .idle := ⟨_, rfl, rfl⟩
  exact ⟨s, hrun, (losesNothing_iff hrun (.read 0 kuRequestCount false .zeroed) hidle).mpr
    (Or.inl (by decide))⟩

end QHGPU.Kernel
