import QHGPU.System.RoutingInvariant

/-!
# The steps of the daemon

Each step of the daemon, outside the driver and inside it, keeps what holds between the two.
-/

namespace QHGPU.System

open Kernel (Tid ItemId ReqId Pc Count Numbered)
open Connector (Daemon Loop LoopPc Pass Answer LoopInv stepLoop)
open Correlation

variable {d : Daemon} {s s' : State} {k k' : Kernel.State} {st : Connector.State} {l : Loop}

/-! ### Outside the driver -/

/-- The loop moves by one step of its own. -/
theorem stepDaemon_loop {ans : Answer} {stack : QhgpuKuRequest}
    (h : stepDaemon d s ans stack = some s') : ∃ ans', s'.loop = stepLoop d s.loop ans' := by
  unfold stepDaemon at h
  split at h
  · obtain ⟨_, _, rfl⟩ := Option.map_eq_some_iff.mp h
    exact ⟨_, rfl⟩
  · obtain rfl := Option.some.inj h
    exact ⟨_, rfl⟩
  · split at h
    · obtain ⟨_, _, rfl⟩ := Option.map_eq_some_iff.mp h
      exact ⟨_, rfl⟩
    · obtain rfl := Option.some.inj h
      exact ⟨_, rfl⟩
  · obtain ⟨_, _, rfl⟩ := Option.map_eq_some_iff.mp h
    exact ⟨_, rfl⟩
  · obtain rfl := Option.some.inj h
    exact ⟨_, rfl⟩
  · obtain rfl := Option.some.inj h
    exact ⟨_, rfl⟩
  · cases h

/-- The driver stays, or begins or ends a call of the daemon. -/
theorem stepDaemon_kernel {ans : Answer} {stack : QhgpuKuRequest}
    (h : stepDaemon d s ans stack = some s') : s'.kernel = s.kernel ∨
      ∃ a, Kernel.Trans s.kernel a s'.kernel ∧ a.tid = some daemonTid ∧
        (∀ t, a = .step t → (s.kernel.threads t).enqueues = none) := by
  unfold stepDaemon at h
  split at h
  · obtain ⟨_, hk, rfl⟩ := Option.map_eq_some_iff.mp h
    exact Or.inr ⟨_, Kernel.trans_of_step hk, rfl, by simp⟩
  · obtain rfl := Option.some.inj h
    exact Or.inl rfl
  · split at h
    · obtain ⟨_, hk, rfl⟩ := Option.map_eq_some_iff.mp h
      exact Or.inr ⟨_, Kernel.trans_of_step hk, rfl, by simp⟩
    · obtain rfl := Option.some.inj h
      exact Or.inl rfl
  · next hpc =>
    obtain ⟨_, hk, rfl⟩ := Option.map_eq_some_iff.mp h
    refine Or.inr ⟨_, Kernel.trans_of_step hk, rfl, ?_⟩
    intro t ht
    obtain rfl := Kernel.Act.step.inj ht
    rw [hpc]
    rfl
  · obtain rfl := Option.some.inj h
    exact Or.inl rfl
  · obtain rfl := Option.some.inj h
    exact Or.inl rfl
  · cases h

/-- The steps of the loop between two calls. -/
theorem Between.stepLoop (h : Between k st) {p : Pass} {rest : List Nat} (ans : Answer)
    (hp : p = .serviceDone → rest = []) :
    Served k (stepLoop d ⟨st, .walk p rest⟩ ans) .idle := by
  cases rest with
  | nil => exact h.endPass p
  | cons i rest =>
    cases p with
    | serviceDone => exact absurd (hp rfl) (List.cons_ne_nil i rest)
    | postExec =>
      exact (h.op (p := .postExec) (by decide) ans.code i).visited .postExec rest _
    | launchExec =>
      exact (h.op (p := .launchExec) (by decide) ans.code i).visited .launchExec rest _

/-- The step that follows a `write`. -/
theorem Served.stepLoop_written {i : Nat} {rest : List Nat}
    (h : Served k ⟨st, .writing i rest⟩ .idle) (ans : Answer) :
    Served k (stepLoop d ⟨st, .writing i rest⟩ ans) .idle := by
  change Served k (if ans.written < 0 then .stop st
    else .visited (Connector.qcServiceDone st i).1 .serviceDone rest _) .idle
  split
  · exact served_stop h.serials
  · exact (Between.of_written h).visited .serviceDone rest _

/-- The step that follows a `read`. -/
theorem Served.stepLoop_read (hs : Connector.StageInv d st) {ret : Int}
    {buf : Option QhgpuKuRequest} (h : Served k ⟨st, .reading⟩ (.readReturn ret buf))
    (ans : Answer) : Served k (stepLoop d ⟨st, .reading⟩ { ans with
      env := { ans.env with
        read := ret
        eagain := ret == -eagain
        kureq := buf.getD ans.env.kureq } }) .idle := by
  generalize henv : ({ ans.env with
    read := ret
    eagain := ret == -eagain
    kureq := buf.getD ans.env.kureq } : Connector.PollRead) = env
  have hread : env.read = ret := by rw [← henv]
  have hkureq : env.kureq = buf.getD ans.env.kureq := by rw [← henv]
  change Served k (Connector.readDevice d env st) .idle
  have hcall := h.call
  have hcovered := h.covered
  cases hcall with
  | readFailed hret hlen =>
    have hbetween : Between k st := ⟨hlen, h.serials, hcovered⟩
    rcases Connector.readDevice_cases d env st with ⟨_, hdev | hdev⟩ | ⟨hpos, _⟩
    · rw [hdev]
      exact hbetween.walk .serviceDone st.postExecReqs
    · rw [hdev]
      exact served_stop h.serials
    · rw [hread] at hpos
      exact absurd hret (Int.not_le.mpr hpos)
  | @readReturn _ kureq hret =>
    rcases Connector.readDevice_cases d env st with ⟨hle, _⟩ | ⟨_, hdev⟩
    · rw [hread] at hle
      exact absurd hret (Int.not_lt.mpr hle)
    · have hbuf : env.kureq = kureq := hkureq
      rw [hdev, hbuf, Loop.afterGetNext]
      cases hstop : Connector.isStopRequest kureq with
      | false =>
        rw [if_neg (by rw [(hs.qcAccept_spec hstop).1]; decide)]
        exact (Between.accept hs h hstop).walk .serviceDone _
      | true =>
        have haccept : Connector.qcAccept d st kureq = (-123, st) := by
          rw [Connector.qcAccept, if_pos hstop]
        rw [haccept, if_pos rfl]
        exact served_stop h.serials

/-- `write` begins. -/
theorem Served.write_begins {i : Nat} {rest : List Nat} (hn : Numbered k)
    (hl : LoopInv d ⟨st, .walk .serviceDone (i :: rest)⟩)
    (h : Served k ⟨st, .walk .serviceDone (i :: rest)⟩ .idle)
    (hk : Kernel.step k (.write daemonTid Kernel.kuResponseCount (st.response i)) = some k')
    (hidle : k.threads daemonTid = .idle) (ans : Answer) :
    Served k' (stepLoop d ⟨st, .walk .serviceDone (i :: rest)⟩ ans)
      (k'.threads daemonTid) := by
  have hbegin : Kernel.step k (.write daemonTid Kernel.kuResponseCount (st.response i)) =
      some (k.goto daemonTid (.writeFind Kernel.kuResponseCount (st.response i))) := by
    rw [Kernel.step, if_pos hidle]
    rfl
  obtain rfl := Option.some.inj (hbegin.symm.trans hk)
  have hb : Between k st := Between.of_idle (l := ⟨st, .walk .serviceDone (i :: rest)⟩) h
    (by simp) (by simp)
  have hs : Served k ⟨st, .writing i rest⟩
      (.writeFind Kernel.kuResponseCount (st.response i)) :=
    ⟨.writeFind hb.len, hb.serials, hb.covered⟩
  rw [Kernel.State.threads_goto_self]
  exact hs.quiet hn (hl.step ans) (Kernel.trans_of_step hbegin) (Kernel.quiet_goto ..)

/-- `read` begins. -/
theorem Between.read_begins {stack : QhgpuKuRequest} (hn : Numbered k)
    (hl : LoopInv d ⟨st, .reading⟩) (h : Between k st)
    (hk : Kernel.step k (.read daemonTid Kernel.kuRequestCount false stack) = some k')
    (hidle : k.threads daemonTid = .idle) :
    Served k' ⟨st, .reading⟩ (k'.threads daemonTid) := by
  have hbegin : Kernel.step k (.read daemonTid Kernel.kuRequestCount false stack) =
      some (k.goto daemonTid (.readLock Kernel.kuRequestCount false stack)) := by
    rw [Kernel.step, if_pos hidle]
  obtain rfl := Option.some.inj (hbegin.symm.trans hk)
  have hs : Served k ⟨st, .reading⟩ (.readLock Kernel.kuRequestCount false stack) :=
    ⟨.readLock (by decide) h.len, h.serials, h.covered⟩
  rw [Kernel.State.threads_goto_self]
  exact hs.quiet hn hl (Kernel.trans_of_step hbegin) (Kernel.quiet_goto ..)

/-- `read` has returned. -/
theorem Served.read_ends {ret : Int} {buf : Option QhgpuKuRequest}
    (hn : Numbered k) (hl : LoopInv d l) (h : Served k l .idle)
    (hk : Kernel.step k (.step daemonTid) = some k')
    (hpc : k.threads daemonTid = .readReturn ret buf) :
    Served k' l (k'.threads daemonTid) := by
  have hend : Kernel.step k (.step daemonTid) = some (k.goto daemonTid .idle) := by
    rw [Kernel.step, Kernel.stepThread, hpc]
  obtain rfl := Option.some.inj (hend.symm.trans hk)
  rw [Kernel.State.threads_goto_self]
  exact h.quiet hn hl (Kernel.trans_of_step hend) (Kernel.quiet_goto ..)

/-- A step of the daemon outside the driver keeps `Served`. -/
theorem stepDaemon_served {ans : Answer} {stack : QhgpuKuRequest} (hn : Numbered s.kernel)
    (hl : LoopInv d s.loop) (h : Served s.kernel s.loop (s.kernel.threads daemonTid))
    (hstep : stepDaemon d s ans stack = some s') :
    Served s'.kernel s'.loop (s'.kernel.threads daemonTid) := by
  obtain ⟨k, st, lpc⟩ := s
  dsimp only at hn h
  have stays (u : Loop) (hu : Served k u .idle) (hpc : k.threads daemonTid = .idle)
      (heq : some (⟨k, u⟩ : State) = some s') :
      Served s'.kernel s'.loop (s'.kernel.threads daemonTid) := by
    obtain rfl := Option.some.inj heq
    rw [hpc]
    exact hu
  unfold stepDaemon at hstep
  dsimp only at hstep
  split at hstep
  · next i rest hpc =>
    rw [hpc] at h
    obtain ⟨k', hk, rfl⟩ := Option.map_eq_some_iff.mp hstep
    exact h.write_begins hn hl hk hpc ans
  · next i rest hpc =>
    rw [hpc] at h
    exact stays _ (h.stepLoop_written _) hpc hstep
  · next hpc =>
    rw [hpc] at h
    have hb : Between k st := Between.of_idle (l := ⟨st, .getNext⟩) h (by simp) (by simp)
    have hpoll : stepLoop d ⟨st, .getNext⟩ ans = Connector.pollDevice ans.env st := rfl
    have hl' := hl.step ans
    rw [hpoll] at hstep hl'
    rcases Connector.pollDevice_cases ans.env st with hp | hp | hp
    · rw [hp] at hstep
      exact stays _ (hb.walk .serviceDone st.postExecReqs) hpc hstep
    · rw [hp] at hstep hl'
      obtain ⟨k', hk, rfl⟩ := Option.map_eq_some_iff.mp hstep
      exact hb.read_begins hn hl' hk hpc
    · rw [hp] at hstep
      exact stays _ (served_stop hb.serials) hpc hstep
  · next ret buf hpc =>
    rw [hpc] at h
    obtain ⟨k', hk, rfl⟩ := Option.map_eq_some_iff.mp hstep
    exact (h.stepLoop_read hl.stage ans).read_ends hn (hl.step _) hk hpc
  · next p rest hne hpc =>
    rw [hpc] at h
    have hb : Between k st := Between.of_idle (l := ⟨st, .walk p rest⟩) h (by simp) (by simp)
    refine stays _ (hb.stepLoop ans ?_) hpc hstep
    rintro rfl
    cases rest with
    | nil => rfl
    | cons i rest => exact (hne i rest rfl rfl).elim
  · next hpc =>
    rw [hpc] at h
    exact stays _ h hpc hstep
  · cases hstep

/-! ### Inside the driver -/

/-- What the loop knows about an item whose response it writes. -/
theorem LoopInv.responding {i : Nat} {rest : List Nat} (hl : LoopInv d ⟨st, .writing i rest⟩) :
    i ∈ st.allReqs ∧ ∃ kureq, st.requests[i]? = some kureq ∧ (st.sr i).id = kureq.id ∧
      .launch i 0 ∈ st.log ∧ .post i 0 ∈ st.log := by
  have hi : i ∈ st.stage .postExec := (hl.writing i rest rfl).subset List.mem_cons_self
  obtain ⟨kureq, hreq, hrec, hsteps⟩ := hl.stage.item .postExec i hi
  obtain ⟨-, hid, -⟩ := Connector.Stage.record_found hrec (by decide)
  have hlog (ev : Connector.Event) (hev : ev ∈ Connector.Stage.steps i .postExec) :
      ev ∈ st.log := by
    rw [← hsteps] at hev
    exact List.mem_of_mem_filter hev
  exact ⟨(hl.stage.mem_all i).mpr ⟨.postExec, hi⟩, kureq, hreq, hid,
    hlog _ List.mem_cons_self, hlog _ (List.mem_cons_of_mem _ List.mem_cons_self)⟩

/-- Requests of waiting items that share an id are the same. -/
def IdsApart (k : Kernel.State) : Prop :=
  Apart k.itemReq (fun r ↦ (k.request r).id) k.Waiting

/-- The response finds an item of the request it is for. -/
theorem Served.findRequest {i : Nat} {rest : List Nat} {count : Count} (hn : Numbered k)
    (hl : LoopInv d ⟨st, .writing i rest⟩) (ha : IdsApart k)
    (h : Served k ⟨st, .writing i rest⟩ (.writeFind count (st.response i))) :
    ∃ j, Kernel.findRequest k (st.response i).id = some j ∧ k.itemReq j = reqOf k i := by
  obtain ⟨hall, kureq, hreq, hid, -⟩ := LoopInv.responding hl
  have hkey : (st.response i).id = (k.request (reqOf k i)).id :=
    hid.trans (h.serials i kureq hreq).2
  have hrtd : Apart k.itemReq (fun r ↦ (k.request r).id) (· ∈ k.rtdreqs) :=
    fun j j' hj hj' ↦ ha j j' (hn.waiting_of_delivered hj) (hn.waiting_of_delivered hj')
  obtain ⟨j, hfind, howner⟩ := find_owner h.covered hrtd (List.mem_map_of_mem hall)
  refine ⟨j, ?_, howner⟩
  rw [Kernel.findRequest, hkey]
  exact hfind

/-- The read of serial `i` is answered by the item that was found. -/
theorem covered_answered {owed : List Nat} {i j : Nat} (hi : i ∈ owed)
    (hj : j ∈ k.rtdreqs) (hreq : k.itemReq j = reqOf k i)
    (hc : Covered k.itemReq (owed.map (reqOf k)) k.rtdreqs) :
    Covered k.itemReq ((owed.erase i).map (reqOf k)) (k.rtdreqs.erase j) := by
  have howed : k.itemReq j ∈ owed.map (reqOf k) := hreq ▸ List.mem_map_of_mem hi
  have hmap : (owed.map (reqOf k)).Perm (k.itemReq j :: (owed.erase i).map (reqOf k)) :=
    hreq ▸ (List.perm_cons_erase hi).map (reqOf k)
  have hanswer := hc.answer howed hj
  exact hanswer.mono ((List.perm_cons_erase howed).symm.trans hmap).cons_inv.symm.subperm

/-- A step of the daemon inside the driver. -/
theorem kernelStep_served (hn : Numbered k) (hl : LoopInv d l) (ha : IdsApart k)
    (h : Served k l (k.threads daemonTid))
    (hread : ∀ ret buf, k.threads daemonTid ≠ .readReturn ret buf)
    (hk : Kernel.step k (.step daemonTid) = some k') : Served k' l (k'.threads daemonTid) := by
  obtain ⟨st, lpc⟩ := l
  have ht := Kernel.trans_of_step hk
  -- a step in which the daemon goes on at another point of a `read` that has no item yet
  have waits {pc' : Pc} (hk' : k' = k.goto daemonTid pc') (hs : Served k ⟨st, lpc⟩ pc') :
      Served k' ⟨st, lpc⟩ (k'.threads daemonTid) := by
    have hpc' : k'.threads daemonTid = pc' := by
      rw [hk', Kernel.State.threads_goto_self]
    rw [hpc']
    exact hs.quiet hn hl ht (hk' ▸ Kernel.quiet_goto k daemonTid pc')
  have goes {pc' : Pc} (hpc' : k'.threads daemonTid = pc') (hs : Served k' ⟨st, lpc⟩ pc') :
      Served k' ⟨st, lpc⟩ (k'.threads daemonTid) := by
    rw [hpc']
    exact hs
  change Kernel.stepThread k daemonTid = some k' at hk
  unfold Kernel.stepThread at hk
  generalize hpc : k.threads daemonTid = pc at h hread hk
  have hcall := h.call
  have hcov := h.covered
  have hserials := h.serials.trans hn ht
  cases hcall with
  | stopped => cases hk
  | walk => cases hk
  | getNext => cases hk
  | written => cases hk
  | readLock hcount hlen =>
    cases hreqs : k.reqs with
    | nil =>
      rw [hreqs] at hk
      dsimp only at hk
      split at hk
      · refine waits (Option.some.inj hk).symm ?_
        exact ⟨.readFailed (by decide) hlen, h.serials, hcov⟩
      · refine waits (Option.some.inj hk).symm ?_
        exact ⟨.readWait hcount hlen, h.serials, hcov⟩
    | cons j rest =>
      -- the item is taken off `reqs`
      rw [hreqs] at hk
      obtain rfl := Option.some.inj hk
      have hmem : j ∈ k.enqueued := by
        have hfifo : k.enqueued = k.taken ++ k.reqs := hn.conserved.ordered.fifo
        rw [hfifo, hreqs]
        exact List.mem_append_right _ List.mem_cons_self
      have hlast : (k.taken ++ [j]).getD st.requests.length 0 = j := by
        rw [← hlen, List.getD_append_right _ _ _ _ (Nat.le_refl _), Nat.sub_self]
        rfl
      refine goes (Kernel.State.threads_goto_self ..) ?_
      refine ⟨.readHand hcount ?_ (hn.lt_of_enqueued hmem) ?_ ?_, hserials,
        covered_trans hn ht (fun i hi ↦ h.call.owed_lt hl hi) hcov⟩
      · rw [Kernel.State.goto]
        dsimp only
        rw [List.length_append, hlen]
        rfl
      · rw [reqOf, Kernel.State.goto]
        dsimp only
        rw [hlast]
      · rw [reqOf, Kernel.State.goto]
        dsimp only
        rw [hlast]
        rfl
  | readWait hcount hlen =>
    dsimp only at hk
    split at hk
    · cases hk
    · refine waits (Option.some.inj hk).symm ?_
      exact ⟨.readLock hcount hlen, h.serials, hcov⟩
  | readFailed => exact absurd rfl (hread _ _)
  | readReturn => exact absurd rfl (hread _ _)
  | @readHand j count kureq hcount hlen hj hreq hid =>
    -- the item is put on `rtdreqs`
    dsimp only at hk
    rw [if_pos hcount] at hk
    obtain rfl := Option.some.inj hk
    refine goes (Kernel.State.threads_goto_self ..) ?_
    refine ⟨.readReturn (Int.natCast_pos.mpr hcount) hlen hid, hserials, ?_⟩
    have hdeliver := Covered.deliver hcov j
    rw [hreq] at hdeliver
    change Covered k.itemReq ((st.allReqs ++ [st.requests.length]).map (reqOf k))
      (k.rtdreqs ++ [j])
    rw [List.map_append]
    exact hdeliver
  | @writeFind i rest count hlen =>
    -- the response finds an item
    obtain ⟨j, hfind, hreq⟩ := h.findRequest hn hl ha
    obtain ⟨hall, kureq, hkureq, -⟩ := LoopInv.responding hl
    have hj := Kernel.findRequest_mem hfind
    dsimp only at hk
    rw [hfind] at hk
    obtain rfl := Option.some.inj hk
    refine goes (Kernel.State.threads_goto_self ..) ?_
    refine ⟨.write hlen (List.getElem?_eq_some_iff.mp hkureq).1
      (hn.lt_of_waiting (hn.waiting_of_delivered hj)) hreq ?_ ?_, hserials,
      covered_answered hall hj hreq hcov⟩
    · intro e he
      exact (Kernel.WritePhase.errcode.inj he).symm
    · intro hne
      exact absurd rfl (hne _)
  | @write i rest j count p hlen hi hj hreq hcode hstored =>
    have hw := ht.writeStep hpc
    have hlt : i < k.taken.length := hlen ▸ hi
    have hcov' : Covered k'.itemReq ((st.allReqs.erase i).map (reqOf k')) k'.rtdreqs := by
      rw [hw.rtdreqs]
      exact covered_trans hn ht (fun i hi ↦ h.call.owed_lt hl hi) hcov
    rcases hw.threads with hidle | ⟨p', hp', hne⟩
    · exact goes hidle ⟨.written (hw.taken ▸ hlen), hserials, hcov'⟩
    · refine goes hp' ⟨.write (hw.taken ▸ hlen) hi (Nat.lt_of_lt_of_le hj ht.nextItem_le)
        ?_ ?_ ?_, hserials, hcov'⟩
      · rw [hw.itemReq, reqOf_eq hn ht hlt, hreq]
      · intro e he
        exact absurd he (hne e)
      · intro _
        rw [reqOf_eq hn ht hlt]
        by_cases hp : ∃ e, p = .errcode e
        · obtain ⟨e, he⟩ := hp
          rw [← hreq, hw.stored e he]
          exact hcode e he
        · have hp (e : Int) (he : p = .errcode e) : False := hp ⟨e, he⟩
          rw [hw.kept hp]
          exact hstored hp

/-- A signal reaches the daemon while it waits in `read`. -/
theorem kernelSignal_served (hn : Numbered k) (hl : LoopInv d l)
    (h : Served k l (k.threads daemonTid))
    (hk : Kernel.step k (.signal daemonTid) = some k') : Served k' l (k'.threads daemonTid) := by
  obtain ⟨st, lpc⟩ := l
  have ht := Kernel.trans_of_step hk
  change Kernel.signalThread k daemonTid = some k' at hk
  unfold Kernel.signalThread at hk
  generalize hpc : k.threads daemonTid = pc at h hk
  have hcall := h.call
  have hcov := h.covered
  cases hcall with
  | readWait hcount hlen =>
    dsimp only at hk
    split at hk
    · obtain rfl := Option.some.inj hk
      have hs : Served k ⟨st, .reading⟩ (.readReturn (-erestartsys) none) :=
        ⟨.readFailed (by decide) hlen, h.serials, hcov⟩
      rw [Kernel.State.threads_goto_self]
      exact hs.quiet hn hl ht (Kernel.quiet_goto ..)
    · cases hk
  | stopped | walk | getNext | readLock | readFailed | readHand | readReturn | writeFind
  | write | written => cases hk

end QHGPU.System
