import QHGPU.Library.StepRun
import QHGPU.System.Routing

/-!
# Batch callbacks

While it serves a request, a service asks the driver to load the next batch or to take the
last one, `QHGPU_IOC_BATCH_H2D` and `QHGPU_IOC_BATCH_D2H`, `src/qhgpu/main.c:522–532`. The
driver finds the module of the client in a table by slot, which `qhgpu_call_sync` alone fills
in.
-/

namespace QHGPU.System

open Kernel (Tid ItemId ReqId Pc SyncCall Numbered)
open Connector (Daemon Loop LoopPc Answer LoopInv stepLoop)

/-- The two commands, named by the function of `struct qhgpu_module` they call. -/
inductive BatchCmd where
  | batchDataLoader
  | batchDataResult
  deriving DecidableEq, Repr

/-- The cases of the two commands, `src/qhgpu/main.c:522–532`: the value returned, and the module
whose function is called. The argument is not tested. -/
def batchCallback (k : Kernel.State) (cmd : BatchCmd) (arg : Word) :
    Int × Option (Word × BatchCmd) := (0, some (k.moduleArr arg.toNat, cmd))

/-- `qhgpu_ioctl` for the two commands, `src/qhgpu/main.c:474–545`. -/
def qhgpuIoctlBatch (k : Kernel.State) (cmd : BatchCmd) (arg : Word) :
    Int × Option (Word × BatchCmd) :=
  if ioctlAccepts arg then batchCallback k cmd arg else (-efault, none)

/-- The number of a slot is an address in user space. -/
theorem qhgpuIoctlBatch_slot (k : Kernel.State) (cmd : BatchCmd) {id : Int} (hid : 0 ≤ id)
    (hint : id < 2 ^ 31) :
    qhgpuIoctlBatch k cmd (BitVec.ofInt 64 id) = batchCallback k cmd (BitVec.ofInt 64 id) := by
  refine if_pos (ioctlAccepts_of_lt ?_)
  rw [BitVec.toNat_ofInt]
  omega

/-- One batch command: its argument, id and module of the request that was being served, and
what the driver did. -/
structure BatchCall where
  cmd : BatchCmd
  arg : Word
  id : Int
  module : Word
  ret : Int
  called : Option (Word × BatchCmd)
  deriving DecidableEq, Repr

/-- The command reaches the module of the request, or fails when it names another one. -/
def BatchCall.Right (c : BatchCall) : Prop :=
  if (c.arg.toNat : Int) = c.id then c.called = some (c.module, c.cmd)
  else c.called = none ∧ c.ret < 0

instance (c : BatchCall) : Decidable c.Right :=
  inferInstanceAs (Decidable (if (c.arg.toNat : Int) = c.id then
    c.called = some (c.module, c.cmd) else c.called = none ∧ c.ret < 0))

/-- Clients and daemon, and the batch commands so far. -/
structure BatchState where
  sys : State
  calls : List BatchCall

/-- The read of the daemon whose service is in `launch` or `post`. -/
def Loop.serving (l : Loop) : Option Nat :=
  match l.pc with
  | .walk .launchExec (i :: _) => some i
  | .walk .postExec (i :: _) => some i
  | _ => none

/-- A step of clients or daemon, or a batch command of the service. -/
inductive BatchAct where
  | sys (a : Act)
  | ioctl (cmd : BatchCmd) (arg : Word)

/-- One step. -/
def batchStep (d : Daemon) (s : BatchState) : BatchAct → Option BatchState
  | .sys a => (step d s.sys a).map fun t ↦ { s with sys := t }
  | .ioctl cmd arg =>
    (Loop.serving s.sys.loop).map fun i ↦
      let req := s.sys.kernel.request (reqOf s.sys.kernel i)
      let (ret, called) := qhgpuIoctlBatch s.sys.kernel cmd arg
      { s with calls := s.calls ++ [⟨cmd, arg, req.id, req.module, ret, called⟩] }

/-- Every batch command so far did what was asked. -/
def BatchRouted (s : BatchState) : Prop := ∀ c ∈ s.calls, c.Right

/-- An item of the request is on `reqs`, or was read and not answered by the daemon yet; or a
`qhgpu_call_sync` that has stored its module is about to put one there. -/
def State.Outstanding (s : State) (r : ReqId) : Prop :=
  (∃ i j, s.kernel.enqueued[i]? = some j ∧ s.kernel.itemReq j = r ∧
    (i < s.loop.st.requests.length → i ∈ s.loop.st.allReqs)) ∨
  ∃ t c, s.kernel.threads t = .sync c .enqueue ∧ c.req = r

/-- The table entry of the request's slot holds its module. -/
def Stored (k : Kernel.State) (r : ReqId) : Prop :=
  k.moduleArr (k.request r).id = (k.request r).module

/-- What clients and services must keep to. A service names the request it serves, or an address
outside user space. `qhgpu_call_sync` is used on a request only while no outstanding request
with its id has another module, `qhgpu_call_async` only when the table entry of the slot already
holds the module, and no client changes the module of an outstanding request. -/
def BatchOk (s : BatchState) : BatchAct → Prop
  | .ioctl _ arg => ∀ i, Loop.serving s.sys.loop = some i →
      (ioctlAccepts arg = true ↔
        (arg.toNat : Int) = (s.sys.kernel.request (reqOf s.sys.kernel i)).id)
  | .sys (.kernel (.fill r f)) =>
    s.sys.Outstanding r → f.module = (s.sys.kernel.request r).module
  | .sys (.kernel (.step t)) =>
    (∀ c, s.sys.kernel.threads t = .sync c .setCallback → ∀ r, s.sys.Outstanding r →
      (s.sys.kernel.request r).id = (s.sys.kernel.request c.req).id →
      (s.sys.kernel.request r).module = (s.sys.kernel.request c.req).module) ∧
    ∀ i, s.sys.kernel.threads t = .asyncEnqueue i → Stored s.sys.kernel (s.sys.kernel.itemReq i)
  | _ => True

/-! ### The loop of the daemon -/

variable {d : Daemon} {s s' : State} {r : ReqId}

/-- What is taken in gets the next serial number. -/
theorem qcAccept_lists (st : Connector.State) (kureq : QhgpuKuRequest) :
    (Connector.qcAccept d st kureq).2 = st ∨
      ((Connector.qcAccept d st kureq).2.requests = st.requests ++ [kureq] ∧
        (Connector.qcAccept d st kureq).2.allReqs = st.allReqs ++ [st.requests.length]) := by
  rw [Connector.qcAccept]
  split
  · exact Or.inl rfl
  · refine Or.inr ?_
    unfold Connector.qcInitServiceRequest
    dsimp only
    split <;> exact ⟨rfl, rfl⟩

/-- A step of the loop takes a request in only after a `read` with a positive value, and puts
no old one back on `all_reqs`. -/
structure Advances (l : Loop) (ans : Answer) (l' : Loop) : Prop where
  requests : l'.st.requests.length = l.st.requests.length ∨
    (l.pc = .reading ∧ 0 < ans.env.read ∧
      l'.st.requests.length = l.st.requests.length + 1)
  allReqs : ∀ i < l.st.requests.length, i ∈ l'.st.allReqs → i ∈ l.st.allReqs

private theorem advances_of_eq {l l' : Loop} {ans : Answer} (hreq : l'.st.requests = l.st.requests)
    (hall : l'.st.allReqs ⊆ l.st.allReqs) : Advances l ans l' :=
  ⟨Or.inl (congrArg List.length hreq), fun _ _ hi ↦ hall hi⟩

/-- Going on in a walk changes no list. -/
theorem st_visited (st : Connector.State) (p : Connector.Pass) (rest : List Nat) (ret : Int) :
    (Loop.visited st p rest ret).st = st := by
  rw [Loop.visited]
  split
  · cases p <;> rfl
  · rfl

private theorem advances_stepLoop (l : Loop) (ans : Answer) :
    Advances l ans (stepLoop d l ans) := by
  obtain ⟨st, pc⟩ := l
  have visit (p : Connector.Pass) (hp : p ≠ .serviceDone) (i : Nat) (rest : List Nat) :
      Advances ⟨st, pc⟩ ans (.visited (p.op ans.code st i).1 p rest (p.op ans.code st i).2) := by
    obtain ⟨hreq, hall⟩ := op_keeps hp ans.code st i
    apply advances_of_eq
    · rw [st_visited, hreq]
    · rw [st_visited, hall]
      exact List.Subset.refl _
  cases pc with
  | walk p rest =>
    cases rest with
    | nil =>
      change Advances _ _ (Loop.endPass st p)
      cases p <;> exact advances_of_eq rfl (List.Subset.refl _)
    | cons i rest =>
      cases p with
      | serviceDone => exact advances_of_eq rfl (List.Subset.refl _)
      | postExec => exact visit .postExec (by decide) i rest
      | launchExec => exact visit .launchExec (by decide) i rest
  | writing i rest =>
    change Advances _ _ (if ans.written < 0 then .stop st
      else .visited (Connector.qcServiceDone st i).1 .serviceDone rest _)
    split
    · exact advances_of_eq rfl (List.Subset.refl _)
    · apply advances_of_eq
      · rw [st_visited]
        rfl
      · rw [st_visited]
        exact List.erase_subset
  | getNext =>
    change Advances _ _ (Connector.pollDevice ans.env st)
    rcases Connector.pollDevice_cases ans.env st with hpoll | hpoll | hpoll <;> rw [hpoll] <;>
      exact advances_of_eq rfl (List.Subset.refl _)
  | reading =>
    change Advances _ _ (Connector.readDevice d ans.env st)
    rcases Connector.readDevice_cases d ans.env st with ⟨_, hread | hread⟩ | ⟨hpos, hread⟩
    · rw [hread]
      exact advances_of_eq rfl (List.Subset.refl _)
    · rw [hread]
      exact advances_of_eq rfl (List.Subset.refl _)
    · have accepted (u : Loop)
          (hu : u.st.requests = (Connector.qcAccept d st ans.env.kureq).2.requests)
          (hall : u.st.allReqs = (Connector.qcAccept d st ans.env.kureq).2.allReqs) :
          Advances ⟨st, .reading⟩ ans u := by
        rcases qcAccept_lists (d := d) st ans.env.kureq with hsame | ⟨hreq, hnew⟩
        · rw [hsame] at hu hall
          apply advances_of_eq hu
          rw [hall]
          exact List.Subset.refl _
        · refine ⟨Or.inr ⟨rfl, hpos, ?_⟩, ?_⟩
          · rw [hu, hreq, List.length_append]
            rfl
          · intro i hi hmem
            rw [hall, hnew] at hmem
            rcases List.mem_append.mp hmem with hmem | hmem
            · exact hmem
            · exact absurd (List.mem_singleton.mp hmem) (Nat.ne_of_lt hi)
      rw [hread, Loop.afterGetNext]
      split <;> exact accepted _ rfl rfl
  | stopped => exact advances_of_eq rfl (List.Subset.refl _)

/-- What a step of the daemon is: one of its loop, in which its thread begins or ends a system
call, or stays idle. A `read` is left with the value it returned. -/
theorem stepDaemon_cases {s s' : State} {ans : Answer} {stack : QhgpuKuRequest}
    (h : stepDaemon d s ans stack = some s') : ∃ ans', s'.loop = stepLoop d s.loop ans' ∧
      ((s'.kernel = s.kernel ∧ s.loop.pc ≠ .reading) ∨
        ∃ pc, s'.kernel = s.kernel.goto daemonTid pc ∧ pc.syncCall = none ∧ pc.ahead = 0 ∧
          (∀ ret, pc ≠ .readReturn ret none) ∧
          (s.loop.pc = .reading → ∃ ret buf,
            s.kernel.threads daemonTid = .readReturn ret buf ∧ ans'.env.read = ret)) := by
  unfold stepDaemon at h
  split at h
  · next hpc hidle =>
    obtain ⟨k, hk, rfl⟩ := Option.map_eq_some_iff.mp h
    rw [Kernel.step, if_pos hidle] at hk
    obtain rfl := Option.some.inj hk
    exact ⟨_, rfl, Or.inr ⟨_, rfl, rfl, rfl, by simp, by simp [hpc]⟩⟩
  · next hpc _ =>
    obtain rfl := Option.some.inj h
    exact ⟨_, rfl, Or.inl ⟨rfl, by simp [hpc]⟩⟩
  · next hpc hidle =>
    split at h
    · obtain ⟨k, hk, rfl⟩ := Option.map_eq_some_iff.mp h
      rw [Kernel.step, if_pos hidle] at hk
      obtain rfl := Option.some.inj hk
      exact ⟨_, rfl, Or.inr ⟨_, rfl, rfl, rfl, by simp, by simp [hpc]⟩⟩
    · obtain rfl := Option.some.inj h
      exact ⟨_, rfl, Or.inl ⟨rfl, by simp [hpc]⟩⟩
  · next ret buf hpc hret =>
    obtain ⟨k, hk, rfl⟩ := Option.map_eq_some_iff.mp h
    rw [Kernel.step, Kernel.stepThread, hret] at hk
    obtain rfl := Option.some.inj hk
    exact ⟨_, rfl, Or.inr ⟨_, rfl, rfl, rfl, by simp, fun _ ↦ ⟨ret, buf, hret, rfl⟩⟩⟩
  · next hpc _ =>
    obtain rfl := Option.some.inj h
    exact ⟨_, rfl, Or.inl ⟨rfl, by simp [hpc]⟩⟩
  · next hpc _ =>
    obtain rfl := Option.some.inj h
    exact ⟨_, rfl, Or.inl ⟨rfl, by simp [hpc]⟩⟩
  · cases h

/-! ### Outstanding requests -/

variable {k k' : Kernel.State} {l l' : Loop} {a : Kernel.Act}

private theorem State.Outstanding.lt (hn : Numbered k) (h : State.Outstanding ⟨k, l⟩ r) :
    r < k.nextReq := by
  rcases h with ⟨i, j, hj, rfl, _⟩ | ⟨t, c, ht, rfl⟩
  · exact hn.itemReq_lt j (hn.lt_of_enqueued (List.mem_of_getElem? hj))
  · exact (hn.sync t c (by rw [ht]; rfl)).1

/-- A request becomes outstanding when its module has been stored, or its item enqueued by
`qhgpu_call_async`. -/
theorem outstanding_trans (hn : Numbered k) (ht : Kernel.Trans k a k')
    (h : State.Outstanding ⟨k', l⟩ r) : State.Outstanding ⟨k, l⟩ r ∨
      ∃ t, a = .step t ∧ ((∃ c, k.threads t = .sync c .setCallback ∧ c.req = r) ∨
        ∃ i, k.threads t = .asyncEnqueue i ∧ k.itemReq i = r) := by
  rcases h with ⟨i, j, hj, hreq, hall⟩ | ⟨t, c, hpc, rfl⟩
  · -- the item was enqueued before
    have before (hj : k.enqueued[i]? = some j) : State.Outstanding ⟨k, l⟩ r := by
      refine Or.inl ⟨i, j, hj, ?_, hall⟩
      rw [← hreq]
      exact (ht.itemReq_eq (hn.lt_of_enqueued (List.mem_of_getElem? hj))).symm
    rcases ht.enqueued_cases with hsame | ⟨t, i', rfl, hen, happ⟩
    · exact Or.inl (before (hsame ▸ hj))
    · dsimp only at hj
      rw [happ] at hj
      by_cases hi : i < k.enqueued.length
      · rw [List.getElem?_append_left hi] at hj
        exact Or.inl (before hj)
      · rw [List.getElem?_append_right (Nat.le_of_not_lt hi), List.getElem?_singleton] at hj
        obtain ⟨_, hj⟩ := Option.ite_none_right_eq_some.mp hj
        obtain rfl := Option.some.inj hj
        have howner : k.itemReq i' = r := by
          rw [← hreq]
          exact (ht.itemReq_eq (hn.lt_of_enqueues hen)).symm
        cases hpc : k.threads t with
        | sync c p =>
          rw [hpc] at hen
          cases p with
          | enqueue =>
            obtain rfl := Option.some.inj hen
            have hsync := (hn.sync t c (by rw [hpc]; rfl)).2.2
            exact Or.inl (Or.inr ⟨t, c, hpc, hsync.symm.trans howner⟩)
          | _ => cases hen
        | asyncEnqueue j =>
          rw [hpc] at hen
          obtain rfl := Option.some.inj hen
          exact Or.inr ⟨t, rfl, Or.inr ⟨j, hpc, howner⟩⟩
        | _ =>
          rw [hpc] at hen
          cases hen
  · rcases ht.at_enqueue hpc with hold | ⟨rfl, hold⟩
    · exact Or.inl (Or.inr ⟨t, c, hold, rfl⟩)
    · exact Or.inr ⟨t, rfl, Or.inl ⟨c, hold, rfl⟩⟩

/-- The daemon makes no request outstanding. -/
theorem outstanding_advances {ans : Answer} (h : State.Outstanding ⟨k', l'⟩ r)
    (ha : Advances l ans l') (hen : k'.enqueued = k.enqueued) (hitem : k'.itemReq = k.itemReq)
    (hpc : ∀ t c, k'.threads t = .sync c .enqueue → k.threads t = .sync c .enqueue) :
    State.Outstanding ⟨k, l⟩ r := by
  rcases h with ⟨i, j, hj, hreq, hall⟩ | ⟨t, c, ht, rfl⟩
  · refine Or.inl ⟨i, j, hen ▸ hj, hitem ▸ hreq, ?_⟩
    intro hi
    refine ha.allReqs i hi (hall ?_)
    rcases ha.requests with heq | ⟨_, _, heq⟩
    · rw [heq]
      exact hi
    · rw [heq]
      exact Nat.lt_succ_of_lt hi
  · exact Or.inr ⟨t, c, hpc t c ht, rfl⟩

/-- The entry of a slot stays right when no other module is stored there and the client does
not change its own. -/
theorem stored_step (hk : Kernel.step k a = some k') (hr : r < k.nextReq) (h : Stored k r)
    (hfill : ∀ f, a = .fill r f → f.module = (k.request r).module)
    (hsync : ∀ t c, a = .step t → k.threads t = .sync c .setCallback →
      (k.request r).id = (k.request c.req).id →
      (k.request r).module = (k.request c.req).module) : Stored k' r := by
  have ht := Kernel.trans_of_step hk
  have hmodule : (k'.request r).module = (k.request r).module := by
    rcases ht.module_cases hr with heq | ⟨f, rfl, heq⟩
    · exact heq
    · rw [heq]
      exact hfill f rfl
  rw [Stored, (ht.slot_eq hr).1, hmodule]
  rcases Kernel.moduleArr_cases hk with ⟨t, c, rfl, hpc, harr⟩ | ⟨_, harr⟩
  · rw [harr]
    by_cases hid : (k.request r).id = (k.request c.req).id
    · rw [hid, Function.update_self]
      exact (hsync t c rfl hpc hid).symm
    · rw [Function.update_of_ne hid]
      exact h
  · rw [harr]
    exact h

/-! ### The invariant -/

/-- What holds in runs that meet `BatchOk`. The daemon takes in what it has read, and every
outstanding request finds its module in the table. -/
structure BatchInv (d : Daemon) (s : BatchState) : Prop where
  numbered : Numbered s.sys.kernel
  loop : LoopInv d s.sys.loop
  behind : s.sys.loop.st.requests.length + (s.sys.kernel.threads daemonTid).ahead ≤
    s.sys.kernel.taken.length
  failed : ∀ ret, s.sys.kernel.threads daemonTid = .readReturn ret none → ret ≤ 0
  stored : ∀ r, s.sys.Outstanding r → Stored s.sys.kernel r
  routed : BatchRouted s

variable {b b' : BatchState}

/-- A step inside the driver keeps the invariant. -/
theorem BatchInv.kernel (h : BatchInv d b) (hok : BatchOk b (.sys (.kernel a)))
    (hk : Kernel.step b.sys.kernel a = some k') :
    BatchInv d { b with sys := ⟨k', b.sys.loop⟩ } := by
  have ht := Kernel.trans_of_step hk
  refine ⟨ht.numbered h.numbered, h.loop, ?_, ?_, ?_, h.routed⟩
  · have hahead := ht.ahead daemonTid
    have hbehind := h.behind
    dsimp only
    omega
  · intro ret hret
    rcases ht.readReturn_none hret with hold | hle
    · exact h.failed ret hold
    · exact hle
  · intro r hr
    have keeps (hold : b.sys.Outstanding r) : Stored k' r := by
      refine stored_step hk (hold.lt h.numbered) (h.stored r hold) ?_ ?_
      · rintro f rfl
        exact hok hold
      · rintro t c rfl hpc hid
        exact hok.1 c hpc r hold hid
    rcases outstanding_trans h.numbered ht hr with hold | ⟨t, rfl, ⟨c, hpc, rfl⟩ | ⟨i, hpc, rfl⟩⟩
    · exact keeps hold
    · -- the module has just been stored
      have hlt := (h.numbered.sync t c (by rw [hpc]; rfl)).1
      have hmodule : (k'.request c.req).module = (b.sys.kernel.request c.req).module := by
        rcases ht.module_cases hlt with heq | ⟨f, hf, _⟩
        · exact heq
        · cases hf
      change k'.moduleArr (k'.request c.req).id = (k'.request c.req).module
      rw [(ht.slot_eq hlt).1, hmodule]
      rcases Kernel.moduleArr_cases hk with ⟨t', c', heq, hpc', harr⟩ | ⟨hno, _⟩
      · obtain rfl := Kernel.Act.step.inj heq
        obtain ⟨rfl, _⟩ := Pc.sync.inj (hpc.symm.trans hpc')
        rw [harr, Function.update_self]
      · exact absurd hpc (hno t c rfl)
    · have hpend := h.numbered.lt_of_enqueues (t := t) (i := i) (by rw [hpc]; rfl)
      refine stored_step hk (h.numbered.itemReq_lt i hpend) (hok.2 i hpc) ?_ ?_
      · intro f hf
        cases hf
      · intro t' c heq hpc'
        obtain rfl := Kernel.Act.step.inj heq
        rw [hpc] at hpc'
        cases hpc'

/-- A step of the daemon keeps the invariant. -/
theorem BatchInv.daemon (h : BatchInv d b) {ans : Answer} {stack : QhgpuKuRequest} {t : State}
    (hs : stepDaemon d b.sys ans stack = some t) : BatchInv d { b with sys := t } := by
  have hnumbered : Numbered t.kernel := by
    rcases stepDaemon_kernel hs with heq | ⟨_, htrans, _⟩
    · rw [heq]
      exact h.numbered
    · exact htrans.numbered h.numbered
  obtain ⟨ans', hloop, hkernel⟩ := stepDaemon_cases hs
  have hadv := advances_stepLoop (d := d) b.sys.loop ans'
  have hbehind := h.behind
  obtain ⟨k', l'⟩ := t
  dsimp only at hnumbered hloop hkernel ⊢
  subst hloop
  rcases hkernel with ⟨rfl, hne⟩ | ⟨pc, rfl, hsync, hahead, hret, hreading⟩
  · refine ⟨hnumbered, h.loop.step ans', ?_, h.failed, ?_, h.routed⟩
    · dsimp only
      rcases hadv.requests with heq | ⟨hreading, _⟩
      · omega
      · exact absurd hreading hne
    · intro r hr
      exact h.stored r (outstanding_advances hr hadv rfl rfl fun _ _ hpc ↦ hpc)
  · refine ⟨hnumbered, h.loop.step ans', ?_, ?_, ?_, h.routed⟩
    · dsimp only
      rw [Kernel.State.threads_goto_self, hahead, Kernel.State.goto]
      dsimp only
      rcases hadv.requests with heq | ⟨hpc, hpos, heq⟩
      · omega
      · -- what is taken in was read before
        obtain ⟨ret, buf, hthread, hread⟩ := hreading hpc
        cases buf with
        | none =>
          have := h.failed ret hthread
          omega
        | some kureq =>
          rw [hthread, Pc.ahead] at hbehind
          omega
    · intro ret heq
      dsimp only at heq
      rw [Kernel.State.threads_goto_self] at heq
      exact absurd heq (hret ret)
    · intro r hr
      refine h.stored r (outstanding_advances hr hadv rfl rfl ?_)
      intro t c hpc
      by_cases htid : t = daemonTid
      · subst htid
        rw [Kernel.State.threads_goto_self] at hpc
        rw [hpc] at hsync
        cases hsync
      · rw [Kernel.State.goto] at hpc
        dsimp only at hpc
        rwa [Function.update_of_ne htid] at hpc

/-- The request that is served is outstanding. -/
theorem BatchInv.serving (h : BatchInv d b) {i : Nat} (hi : Loop.serving b.sys.loop = some i) :
    b.sys.Outstanding (reqOf b.sys.kernel i) := by
  have hstage : ∃ g, i ∈ b.sys.loop.st.stage g := by
    rw [Loop.serving] at hi
    split at hi
    · next rest hpc =>
      obtain rfl := Option.some.inj hi
      exact ⟨_, (h.loop.walk .launchExec _ hpc).subset List.mem_cons_self⟩
    · next rest hpc =>
      obtain rfl := Option.some.inj hi
      exact ⟨_, (h.loop.walk .postExec _ hpc).subset List.mem_cons_self⟩
    · cases hi
  have hall := (h.loop.stage.mem_all i).mpr hstage
  obtain ⟨g, hg⟩ := hstage
  have hlt : i < b.sys.kernel.taken.length := by
    have := h.loop.stage.lt_length hg
    have := h.behind
    omega
  refine Or.inl ⟨i, b.sys.kernel.taken[i], ?_, ?_, fun _ ↦ hall⟩
  · have hfifo : b.sys.kernel.enqueued = b.sys.kernel.taken ++ b.sys.kernel.reqs :=
      h.numbered.conserved.ordered.fifo
    rw [hfifo, List.getElem?_append_left hlt, List.getElem?_eq_getElem hlt]
  · rw [reqOf, List.getD_eq_getElem _ _ hlt]

private theorem BatchInv.step (h : BatchInv d b) {a : BatchAct} (hok : BatchOk b a)
    (hs : batchStep d b a = some b') : BatchInv d b' := by
  cases a with
  | sys a =>
    obtain ⟨t, ht, rfl⟩ := Option.map_eq_some_iff.mp hs
    cases a with
    | kernel a =>
      rw [System.step, Option.ite_none_right_eq_some] at ht
      obtain ⟨_, ht⟩ := ht
      obtain ⟨k', hk, rfl⟩ := Option.map_eq_some_iff.mp ht
      exact h.kernel hok hk
    | daemon ans stack => exact h.daemon ht
  | ioctl cmd arg =>
    obtain ⟨i, hi, rfl⟩ := Option.map_eq_some_iff.mp hs
    refine ⟨h.numbered, h.loop, h.behind, h.failed, h.stored, ?_⟩
    intro c hc
    rcases List.mem_append.mp hc with hc | hc
    · exact h.routed c hc
    · obtain rfl := List.mem_singleton.mp hc
      have haccepts := hok i hi
      rw [BatchCall.Right]
      dsimp only [qhgpuIoctlBatch, batchCallback]
      by_cases harg : (arg.toNat : Int) = (b.sys.kernel.request (reqOf b.sys.kernel i)).id
      · have hstored := h.stored _ (h.serving hi)
        rw [Stored, ← harg] at hstored
        rw [if_pos harg, if_pos (haccepts.mpr harg), hstored]
      · rw [if_neg harg, if_neg (mt haccepts.mp harg)]
        exact ⟨rfl, by decide⟩

/-- In every run in which services name the request they serve, or an address outside user space,
and no client submits a request under a slot whose entry holds, or is needed with, another
module, every batch command calls the module of the request that is served, or fails. -/
theorem batchRouted_of_meets (d : Daemon) (n : Nat) (arr : Int → Word) (pool : QhgpuMempool)
    (acts : List BatchAct) (b : BatchState)
    (hok : StepRun.Meets (batchStep d) BatchOk ⟨.start n arr pool, []⟩ acts)
    (hrun : StepRun.run (batchStep d) ⟨.start n arr pool, []⟩ acts = some b) :
    BatchRouted b := by
  have hstart : BatchInv d ⟨.start n arr pool, []⟩ := by
    refine ⟨Kernel.numbered_start n arr pool, Connector.loopInv_beginPass .start .serviceDone,
      Nat.le_refl _, ?_, ?_, ?_⟩
    · intro ret hret
      cases hret
    · rintro r (⟨i, j, hj, _⟩ | ⟨t, c, ht, _⟩)
      · cases hj
      · cases ht
    · intro c hc
      cases hc
  exact (StepRun.run_invariant (fun _ _ _ hinv hcond hs ↦ BatchInv.step hinv hcond hs) hstart hok
    hrun).routed

/-- The thread neither stores a module nor enqueues for `qhgpu_call_async`. -/
def Pc.plain : Pc → Bool
  | .sync _ .setCallback | .asyncEnqueue _ => false
  | _ => true

/-- Such a thread meets the condition. -/
theorem batchOk_step {t : Tid} (h : Pc.plain (b.sys.kernel.threads t) = true) :
    BatchOk b (.sys (.kernel (.step t))) := by
  constructor
  · intro c hc
    rw [hc] at h
    cases h
  · intro i hi
    rw [hi] at h
    cases h

/-- A request for `batch_service` with a module, as the client fills it in. -/
def allocBatch : Act :=
  .kernel (.alloc 0 batchName (some ({ Kernel.fieldsWith 0 with module := 7 }, 0)))

/-- The daemon takes the request in and reaches its `launch`. -/
def toLaunch : List Act := idlePasses ++ takeIn ++ [go (polled 0), go (polled 0)]

/-- A synchronous call, up to the `launch` of its service. -/
def syncToLaunch : List BatchAct :=
  ([allocBatch, .kernel (.callSync 1 0 true true), .kernel (.step 1), .kernel (.step 1),
    .kernel (.step 1)] ++ toLaunch).map .sys

/-- The start of the daemon and one slot, without batch commands. -/
def batchStart : BatchState := ⟨.start 1 (fun _ ↦ 0) .zeroed, []⟩

private theorem meets_syncToLaunch :
    StepRun.Meets (batchStep Connector.batchDaemon) BatchOk batchStart syncToLaunch := by
  iterate 2 refine StepRun.meets_cons trivial rfl ?_
  refine StepRun.meets_cons (batchOk_step rfl) rfl ?_
  refine StepRun.meets_cons ⟨?_, fun i hi ↦ (by cases hi)⟩ rfl ?_
  · -- nothing is outstanding when the module is stored
    rintro c hc r (⟨i, j, hj, _⟩ | ⟨t, c', ht, _⟩)
    · cases hj
    · match t with
      | 0 => cases ht
      | 1 => cases ht
      | t + 2 => cases ht
  refine StepRun.meets_cons (batchOk_step rfl) rfl ?_
  iterate 4 refine StepRun.meets_cons trivial rfl ?_
  iterate 2 refine StepRun.meets_cons (batchOk_step rfl) rfl ?_
  iterate 3 refine StepRun.meets_cons trivial rfl ?_
  trivial

/-- The service asks for its first batch. -/
theorem batchRouted_of_meets_sync : ∃ b, StepRun.run (batchStep Connector.batchDaemon)
    batchStart (syncToLaunch ++ [.ioctl .batchDataLoader 0]) = some b ∧
      b.calls = [⟨.batchDataLoader, 0, 0, 7, 0, some (7, .batchDataLoader)⟩] ∧
      BatchRouted b := by
  obtain ⟨b₁, b, hrun₁, hserving, hid, hrun, hcalls⟩ : ∃ b₁ b,
      StepRun.run (batchStep Connector.batchDaemon) batchStart syncToLaunch = some b₁ ∧
        Loop.serving b₁.sys.loop = some 0 ∧
        (b₁.sys.kernel.request (reqOf b₁.sys.kernel 0)).id = 0 ∧
        StepRun.run (batchStep Connector.batchDaemon) batchStart
          (syncToLaunch ++ [.ioctl .batchDataLoader 0]) = some b ∧
        b.calls = [⟨.batchDataLoader, 0, 0, 7, 0, some (7, .batchDataLoader)⟩] :=
    ⟨_, _, rfl, rfl, rfl, rfl, rfl⟩
  refine ⟨b, hrun, hcalls,
    batchRouted_of_meets Connector.batchDaemon 1 (fun _ ↦ 0) .zeroed _ b ?_ hrun⟩
  refine StepRun.meets_append meets_syncToLaunch ?_
  intro t ht
  obtain rfl := Option.some.inj (hrun₁.symm.trans ht)
  refine ⟨?_, fun _ _ ↦ trivial⟩
  intro i hi
  obtain rfl := Option.some.inj (hserving.symm.trans hi)
  rw [hid]
  decide

/-- An asynchronous request: the entry of its slot was never written. -/
theorem not_batchRouted_async : ¬∀ (d : Daemon) (n : Nat) (arr : Int → Word)
    (pool : QhgpuMempool) (acts : List BatchAct) (b : BatchState),
    StepRun.run (batchStep d) ⟨.start n arr pool, []⟩ acts = some b → BatchRouted b := by
  intro hall
  obtain ⟨b, hrun, hcalls⟩ : ∃ b, StepRun.run (batchStep Connector.batchDaemon)
      ⟨.start 1 (fun _ ↦ 0) .zeroed, []⟩ (([allocBatch, .kernel (.callAsync 1 0 true),
        .kernel (.step 1)] ++ toLaunch).map .sys ++ [.ioctl .batchDataLoader 0]) = some b ∧
        b.calls = [⟨.batchDataLoader, 0, 0, 7, 0, some (0, .batchDataLoader)⟩] :=
    ⟨_, rfl, rfl⟩
  have h := hall Connector.batchDaemon 1 (fun _ ↦ 0) .zeroed _ b hrun
  rw [BatchRouted, hcalls] at h
  have hright := h _ List.mem_cons_self
  revert hright
  decide

end QHGPU.System
