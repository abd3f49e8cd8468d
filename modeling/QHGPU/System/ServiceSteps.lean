import Mathlib.Logic.Relation
import QHGPU.Kernel.SyncCall
import QHGPU.System.Batch

/-!
# Steps of the daemon and what services do

What a step of the loop does to the lists, what a step of the daemon does in the driver, and what
has become of the buffer of a request at each stage.
-/

namespace QHGPU.System

open Connector (Daemon Loop LoopPc Pass Answer LoopInv StageInv stepLoop)
open Kernel (Tid Pc)

variable {d : Daemon} {k : Kernel.State} {st : Connector.State} {l : Loop} {i : Nat}

/-! ### A step of the loop -/

/-- The service of the item at the head of a walk is in `launch` or `post`. -/
theorem pc_of_serving (h : Loop.serving l = some i) :
    ∃ p rest, l.pc = .walk p (i :: rest) ∧ p ≠ .serviceDone := by
  rw [Loop.serving] at h
  split at h
  · next hpc =>
    obtain rfl := Option.some.inj h
    exact ⟨_, _, hpc, by decide⟩
  · next hpc =>
    obtain rfl := Option.some.inj h
    exact ⟨_, _, hpc, by decide⟩
  · cases h

/-- What a step of the loop does to the lists. -/
theorem stepLoop_cases (hs : StageInv d l.st) (ans : Answer) :
    (Loop.serving l = none ∧ ∃ b, (stepLoop d l ans).st = { l.st with stopped := b }) ∨
      (∃ p i rest, l.pc = .walk p (i :: rest) ∧ p ≠ .serviceDone ∧ Loop.serving l = some i ∧
        (stepLoop d l ans).st = (p.op ans.code l.st i).1) ∨
      (∃ i rest, l.pc = .writing i rest ∧ Loop.serving l = none ∧
        (stepLoop d l ans).st = (Connector.qcServiceDone l.st i).1) ∨
      (l.pc = .reading ∧ Loop.serving l = none ∧ 0 < ans.env.read ∧
        Connector.isStopRequest ans.env.kureq = false ∧
        (stepLoop d l ans).st = (Connector.qcAccept d l.st ans.env.kureq).2) := by
  obtain ⟨st, pc⟩ := l
  have same (h : Loop.serving ⟨st, pc⟩ = none) (hst : (stepLoop d ⟨st, pc⟩ ans).st = st) :
      Loop.serving ⟨st, pc⟩ = none ∧ ∃ b, (stepLoop d ⟨st, pc⟩ ans).st = { st with stopped := b } :=
    ⟨h, st.stopped, hst⟩
  cases pc with
  | walk p rest =>
    cases rest with
    | nil =>
      left
      cases p <;> exact same rfl rfl
    | cons i rest =>
      cases p with
      | serviceDone => exact Or.inl (same rfl rfl)
      | postExec =>
        exact Or.inr (Or.inl ⟨.postExec, i, rest, rfl, by decide, rfl, st_visited ..⟩)
      | launchExec =>
        exact Or.inr (Or.inl ⟨.launchExec, i, rest, rfl, by decide, rfl, st_visited ..⟩)
  | writing i rest =>
    have hstep : stepLoop d ⟨st, .writing i rest⟩ ans = if ans.written < 0 then .stop st
      else .visited (Connector.qcServiceDone st i).1 .serviceDone rest 0 := rfl
    rw [hstep]
    split
    · exact Or.inl ⟨rfl, true, rfl⟩
    · exact Or.inr (Or.inr (Or.inl ⟨i, rest, rfl, rfl, st_visited ..⟩))
  | getNext =>
    left
    have hstep : stepLoop d ⟨st, .getNext⟩ ans = Connector.pollDevice ans.env st := rfl
    rw [hstep]
    rcases Connector.pollDevice_cases ans.env st with h | h | h
    · exact ⟨rfl, st.stopped, by rw [h]; rfl⟩
    · exact ⟨rfl, st.stopped, by rw [h]⟩
    · exact ⟨rfl, true, by rw [h]; rfl⟩
  | reading =>
    have hstep : stepLoop d ⟨st, .reading⟩ ans = Connector.readDevice d ans.env st := rfl
    rw [hstep]
    rcases Connector.readDevice_cases d ans.env st with ⟨_, h | h⟩ | ⟨hpos, h⟩
    · exact Or.inl ⟨rfl, st.stopped, by rw [h]; rfl⟩
    · exact Or.inl ⟨rfl, true, by rw [h]; rfl⟩
    · rw [h]
      cases hstop : Connector.isStopRequest ans.env.kureq with
      | true =>
        have haccept : Connector.qcAccept d st ans.env.kureq = (-123, st) := by
          rw [Connector.qcAccept, if_pos hstop]
        rw [haccept]
        exact Or.inl ⟨rfl, true, rfl⟩
      | false =>
        have hret := (hs.qcAccept_spec hstop).1
        rw [hret]
        exact Or.inr (Or.inr (Or.inr ⟨rfl, rfl, hpos, rfl, rfl⟩))
  | stopped => exact Or.inl (same rfl rfl)

/-- An operation on one item leaves the others where they are. -/
theorem mem_op_of_ne (p : Pass) (code : Int) (st : Connector.State) {i i' : Nat} (hne : i ≠ i')
    (g : Connector.Stage) : i ∈ (p.op code st i').1.stage g ↔ i ∈ st.stage g := by
  cases p with
  | serviceDone =>
    cases g <;> simp [Pass.op, Connector.qcServiceDone, Connector.State.stage,
      Connector.State.unlink, List.mem_erase_of_ne hne]
  | postExec =>
    rw [Pass.op, Connector.qcPostExec]
    split
    · cases g <;> simp [Connector.State.stage, Connector.State.unlink, List.mem_erase_of_ne hne,
        hne]
    · cases g <;> rfl
  | launchExec =>
    rw [Pass.op, Connector.qcLaunchExec]
    split
    · cases g <;> simp [Connector.State.stage, Connector.State.unlink, List.mem_erase_of_ne hne,
        hne]
    · cases g <;> rfl

/-- What the loop has read stays, or grows by a request that it takes in. -/
theorem requests_stepLoop (hs : StageInv d l.st) (ans : Answer) :
    (stepLoop d l ans).st.requests = l.st.requests ∨
      (l.pc = .reading ∧ Loop.serving l = none ∧ 0 < ans.env.read ∧
        Connector.isStopRequest ans.env.kureq = false ∧
        (stepLoop d l ans).st = (Connector.qcAccept d l.st ans.env.kureq).2 ∧
        (stepLoop d l ans).st.requests = l.st.requests ++ [ans.env.kureq]) := by
  rcases stepLoop_cases hs ans with ⟨_, b, hst⟩ | ⟨p, i', _, _, hp, _, hst⟩ | ⟨_, _, _, _, hst⟩ |
    ⟨hpc, hserving, hpos, hstop, hst⟩
  · left
    rw [hst]
  · left
    rw [hst, (op_keeps hp ans.code l.st i').1]
  · left
    rw [hst]
    rfl
  · obtain ⟨_, _, _, hreq, _⟩ := hs.qcAccept_spec hstop
    exact Or.inr ⟨hpc, hserving, hpos, hstop, hst, by rw [hst, hreq]⟩

/-- The request has been posted, or answered since. -/
def Posted (st : Connector.State) (i : Nat) : Prop := i ∈ st.postExecReqs ∨ i ∉ st.allReqs

/-- A posted request stays posted. -/
theorem Posted.stepLoop (hl : LoopInv d l) (hi : i < l.st.requests.length) (h : Posted l.st i)
    (ans : Answer) : Posted (stepLoop d l ans).st i := by
  have hs := hl.stage
  rcases stepLoop_cases hs ans with ⟨_, b, hst⟩ | ⟨p, i', rest, hpc, hp, _, hst⟩ |
    ⟨i', rest, hpc, _, hst⟩ | ⟨_, _, _, hstop, hst⟩
  · rw [hst]
    exact h
  · have hall := (op_keeps hp ans.code l.st i').2
    have hne : i ≠ i' := by
      rintro rfl
      have hstage : i ∈ l.st.stage p.stage := (hl.walk p _ hpc).subset List.mem_cons_self
      rcases h with hposted | hgone
      · have heq : p.stage = .postExec := hs.stage_unique hstage hposted
        cases p <;> simp [Pass.stage] at heq hp
      · exact hgone ((hs.mem_all i).mpr ⟨_, hstage⟩)
    rw [hst]
    exact h.imp (mem_op_of_ne p ans.code l.st hne .postExec).mpr (mt (hall ▸ ·))
  · rw [hst]
    by_cases heq : i = i'
    · subst heq
      exact Or.inr hs.all_nodup.not_mem_erase
    · exact h.imp (mem_op_of_ne .serviceDone 0 l.st heq .postExec).mpr
        (mt (List.mem_erase_of_ne heq).mp)
  · obtain ⟨_, g, _, _, hall, _, _, _, _, hstage⟩ := hs.qcAccept_spec hstop
    have hne : i ≠ l.st.requests.length := Nat.ne_of_lt hi
    rw [hst]
    refine h.imp (fun hposted ↦ ?_) (mt fun hmem ↦ ?_)
    · have hmem : i ∈ (Connector.qcAccept d l.st ans.env.kureq).2.stage .postExec := by
        rw [hstage]
        exact List.mem_append_left _ hposted
      exact hmem
    · rw [hall, List.mem_append] at hmem
      simpa [hne] using hmem

/-! ### A step of the daemon outside the driver -/

/-- The thread of the daemon moves in the driver without a record in hand, the loop makes a step
with what the service and the system call returned, and no answer more is owed. -/
structure DaemonStep (d : Daemon) (t t' : State) (ans : Answer) : Prop where
  kernel : ∃ pc, t'.kernel = t.kernel.goto daemonTid pc ∧ pc.kuRequest = none ∧ pc.syncCall = none
  sync : t'.kernel = t.kernel ∨
    ∃ a, Kernel.Trans t.kernel a t'.kernel ∧ Kernel.SyncOk t.kernel a
  loop : ∃ ans', t'.loop = stepLoop d t.loop ans' ∧ ans'.code = ans.code ∧
    (t.loop.pc = .reading → ∃ buf, t.kernel.threads daemonTid = .readReturn ans'.env.read buf ∧
      ∀ kureq, buf = some kureq → ans'.env.kureq = kureq)
  owed : ∀ i ∈ owedSerials t'.loop.st t'.loop.pc (t'.kernel.threads daemonTid),
    i ∈ owedSerials t.loop.st t.loop.pc (t.kernel.threads daemonTid)

private theorem goto_self {t : Tid} {pc : Pc} (h : k.threads t = pc) : k.goto t pc = k := by
  rw [Kernel.State.goto, ← h, Function.update_eq_self]

private theorem owed_visited (st : Connector.State) (p : Pass) (rest : List Nat) (r : Int) :
    owedSerials (Loop.visited st p rest r).st (Loop.visited st p rest r).pc .idle = st.allReqs := by
  rw [Loop.visited]
  split
  · cases p <;> rfl
  · rfl

/-- Every step of the daemon is one of `DaemonStep`. -/
theorem daemonStep_of_stepDaemon {t t' : State} {ans : Answer} {stack : QhgpuKuRequest}
    (hl : LoopInv d t.loop)
    (hret : ∀ ret, t.kernel.threads daemonTid = .readReturn ret none → ret ≤ 0)
    (h : stepDaemon d t ans stack = some t') : DaemonStep d t t' ans := by
  obtain ⟨k, st, lpc⟩ := t
  -- the daemon stays outside the driver
  have stays {ans' : Answer} (hidle : k.threads daemonTid = .idle) (hcode : ans'.code = ans.code)
      (hpc : lpc ≠ .reading)
      (howed : ∀ i ∈ owedSerials (stepLoop d ⟨st, lpc⟩ ans').st (stepLoop d ⟨st, lpc⟩ ans').pc .idle,
        i ∈ owedSerials st lpc .idle) :
      DaemonStep d ⟨k, st, lpc⟩ ⟨k, stepLoop d ⟨st, lpc⟩ ans'⟩ ans := by
    refine ⟨⟨.idle, (goto_self hidle).symm, rfl, rfl⟩, Or.inl rfl, ⟨ans', rfl, hcode, ?_⟩, ?_⟩
    · exact fun hreading ↦ absurd hreading hpc
    · dsimp only
      rw [hidle]
      exact howed
  unfold stepDaemon at h
  dsimp only at h hret
  split at h
  · next i rest hidle =>
    obtain ⟨k', hk, rfl⟩ := Option.map_eq_some_iff.mp h
    have ht := Kernel.trans_of_step hk
    rw [Kernel.step, if_pos hidle] at hk
    obtain rfl := Option.some.inj hk
    refine ⟨⟨_, rfl, rfl, rfl⟩, Or.inr ⟨_, ht, trivial⟩, ⟨ans, rfl, rfl, by simp⟩, ?_⟩
    dsimp only
    rw [Kernel.State.threads_goto_self, hidle]
    exact fun _ hi ↦ hi
  · next i rest hidle =>
    obtain rfl := Option.some.inj h
    refine stays hidle rfl (by simp) ?_
    intro i' hi'
    have hstep (ans' : Answer) : stepLoop d ⟨st, .writing i rest⟩ ans' =
      if ans'.written < 0 then .stop st
      else .visited (Connector.qcServiceDone st i).1 .serviceDone rest 0 := rfl
    rw [hstep] at hi'
    split at hi'
    · cases hi'
    · rw [owed_visited] at hi'
      exact hi'
  · next hidle =>
    have hstep : stepLoop d ⟨st, .getNext⟩ ans = Connector.pollDevice ans.env st := rfl
    rw [hstep] at h
    have stays' (h : Connector.pollDevice ans.env st = .beginPass st .serviceDone ∨
        Connector.pollDevice ans.env st = .stop st) :
        DaemonStep d ⟨k, st, .getNext⟩ ⟨k, Connector.pollDevice ans.env st⟩ ans := by
      refine stays hidle rfl (by simp) ?_
      rw [hstep]
      rcases h with h | h
      · rw [h]
        exact fun _ hi ↦ hi
      · rw [h]
        intro _ hi
        cases hi
    rcases Connector.pollDevice_cases ans.env st with hp | hp | hp
    · rw [hp] at h stays'
      obtain rfl := Option.some.inj h
      exact stays' (Or.inl rfl)
    · rw [hp] at h
      obtain ⟨k', hk, rfl⟩ := Option.map_eq_some_iff.mp h
      have ht := Kernel.trans_of_step hk
      rw [Kernel.step, if_pos hidle] at hk
      obtain rfl := Option.some.inj hk
      refine ⟨⟨_, rfl, rfl, rfl⟩, Or.inr ⟨_, ht, trivial⟩, ⟨ans, hp.symm, rfl, by simp⟩, ?_⟩
      dsimp only
      rw [Kernel.State.threads_goto_self, hidle]
      exact fun _ hi ↦ hi
    · rw [hp] at h stays'
      obtain rfl := Option.some.inj h
      exact stays' (Or.inr rfl)
  · next ret buf hthread =>
    obtain ⟨k', hk, rfl⟩ := Option.map_eq_some_iff.mp h
    have ht := Kernel.trans_of_step hk
    rw [Kernel.step, Kernel.stepThread, hthread] at hk
    obtain rfl := Option.some.inj hk
    refine ⟨⟨.idle, rfl, rfl, rfl⟩, Or.inr ⟨_, ht, ?_⟩, ⟨_, rfl, rfl, ?_⟩, ?_⟩
    · intro c hc
      cases hthread.symm.trans hc
    · intro _
      refine ⟨buf, hthread, ?_⟩
      rintro kureq rfl
      rfl
    · dsimp only
      rw [Kernel.State.threads_goto_self, hthread]
      generalize henv : ({ ans.env with
        read := ret
        eagain := ret == -eagain
        kureq := buf.getD ans.env.kureq } : Connector.PollRead) = env
      have hread : env.read = ret := by rw [← henv]
      have hkureq : env.kureq = buf.getD ans.env.kureq := by rw [← henv]
      have hold (i : Nat) (hi : i ∈ st.allReqs) :
          i ∈ owedSerials st .reading (.readReturn ret buf) := by
        cases buf with
        | none => exact hi
        | some => exact List.mem_append_left _ hi
      change ∀ i ∈ owedSerials (Connector.readDevice d env st).st
        (Connector.readDevice d env st).pc .idle, i ∈ owedSerials st .reading (.readReturn ret buf)
      intro i hi
      rcases Connector.readDevice_cases d env st with ⟨_, hdev | hdev⟩ | ⟨hpos, hdev⟩
      · rw [hdev] at hi
        exact hold i hi
      · rw [hdev] at hi
        cases hi
      · rw [hdev] at hi
        cases buf with
        | none =>
          have := hret ret hthread
          omega
        | some kureq =>
          cases hstop : Connector.isStopRequest env.kureq with
          | true =>
            have haccept : Connector.qcAccept d st env.kureq = (-123, st) := by
              rw [Connector.qcAccept, if_pos hstop]
            rw [haccept] at hi
            cases hi
          | false =>
            obtain ⟨hret', _, _, _, hall, _⟩ := hl.stage.qcAccept_spec hstop
            rw [hret'] at hi
            have hi : i ∈ (Connector.qcAccept d st env.kureq).2.allReqs := hi
            rw [hall] at hi
            exact hi
  · next p rest hne hidle =>
    obtain rfl := Option.some.inj h
    refine stays hidle rfl (by simp) ?_
    cases rest with
    | nil =>
      have hstep : stepLoop d ⟨st, .walk p []⟩ ans = .endPass st p := by
        cases p <;> rfl
      rw [hstep]
      cases p <;> exact fun _ hi ↦ hi
    | cons i rest =>
      cases p with
      | serviceDone => exact absurd rfl (hne i rest rfl)
      | postExec =>
        have hstep : stepLoop d ⟨st, .walk .postExec (i :: rest)⟩ ans =
          .visited (Pass.op ans.code .postExec st i).1 .postExec rest
            (Pass.op ans.code .postExec st i).2 := rfl
        rw [hstep, owed_visited, (op_keeps (by decide) ans.code st i).2]
        exact fun _ hi ↦ hi
      | launchExec =>
        have hstep : stepLoop d ⟨st, .walk .launchExec (i :: rest)⟩ ans =
          .visited (Pass.op ans.code .launchExec st i).1 .launchExec rest
            (Pass.op ans.code .launchExec st i).2 := rfl
        rw [hstep, owed_visited, (op_keeps (by decide) ans.code st i).2]
        exact fun _ hi ↦ hi
  · next hidle =>
    obtain rfl := Option.some.inj h
    exact stays hidle rfl (by simp) fun _ hi ↦ hi
  · cases h

/-! ### What services make of buffers -/

/-- What a call of `launch` or `post` on behalf of a request that returns the code can make of a
buffer. -/
structure Services (α : Type) where
  launch : QhgpuKuRequest → Int → α → α → Prop
  post : QhgpuKuRequest → Int → α → α → Prop

/-- The function that the pass calls. -/
def Services.call {α : Type} (sv : Services α) : Pass → QhgpuKuRequest → Int → α → α → Prop
  | .launchExec => sv.launch
  | .postExec => sv.post
  | .serviceDone => fun _ _ b b' ↦ b' = b

variable {α : Type}

/-- Some calls that fail. -/
def Fails (call : Int → α → α → Prop) : α → α → Prop :=
  Relation.ReflTransGen fun b b' ↦ ∃ code ≠ 0, call code b b'

/-- Some calls that fail, and one that returns 0. -/
def Succeeds (call : Int → α → α → Prop) : α → α → Prop := Relation.Comp (Fails call) (call 0)

/-- One successful launch, and one successful post after it. -/
def Services.Performed (sv : Services α) (kureq : QhgpuKuRequest) : α → α → Prop :=
  Relation.Comp (Succeeds (sv.launch kureq)) (Succeeds (sv.post kureq))

/-- What has become of the buffer of a request on a stage list: an item without a service is never
launched. -/
def Services.made (sv : Services α) (kureq : QhgpuKuRequest) : Connector.Stage → α → α → Prop
  | .init => Fails (sv.launch kureq)
  | .running => Relation.Comp (Succeeds (sv.launch kureq)) (Fails (sv.post kureq))
  | .postExec => sv.Performed kureq
  | .done => fun b b' ↦ b' = b

/-- What has become of the buffer of a request that was read. -/
structure Content (sv : Services α) (st : Connector.State) (i : Nat) (kureq : QhgpuKuRequest)
    (b b' : α) : Prop where
  linked : ∀ g, i ∈ st.stage g → sv.made kureq g b b'
  answered : i ∉ st.allReqs → sv.Performed kureq b b'

variable {sv : Services α} {kureq : QhgpuKuRequest} {b b' left : α} {code : Int}

/-- A request that was posted has been performed. -/
theorem Content.posted (h : Content sv st i kureq b b') (hi : Posted st i) :
    sv.Performed kureq b b' :=
  hi.elim (h.linked .postExec) h.answered

/-- A request is on one list. -/
theorem content_of_mem {g : Connector.Stage} (hs : StageInv d st) (hi : i ∈ st.stage g)
    (h : sv.made kureq g b b') : Content sv st i kureq b b' := by
  constructor
  · intro g' hi'
    rw [hs.stage_unique hi' hi]
    exact h
  · exact fun hgone ↦ absurd ((hs.mem_all i).mpr ⟨g, hi⟩) hgone

/-- Content depends on the lists that an item is on only. -/
theorem Content.congr {st' : Connector.State} (h : Content sv st i kureq b b')
    (hstage : ∀ g, i ∈ st'.stage g ↔ i ∈ st.stage g) (hall : i ∈ st'.allReqs ↔ i ∈ st.allReqs) :
    Content sv st' i kureq b b' where
  linked g hi := h.linked g ((hstage g).mp hi)
  answered hi := h.answered (mt hall.mpr hi)

/-- A call of `launch`. -/
theorem Content.launch (h : Content sv st i kureq b b') (hs : StageInv d st)
    (hi : i ∈ st.stage .init) (hcall : sv.launch kureq code b' left) :
    Content sv (Connector.qcLaunchExec code st i).1 i kureq b left := by
  have hfails : Fails (sv.launch kureq) b b' := h.linked .init hi
  have hs' := hs.qcLaunchExec hi code
  by_cases hcode : code = 0
  · subst hcode
    apply content_of_mem hs' (g := .running)
    · simp [Connector.qcLaunchExec, Connector.State.stage]
    · exact ⟨left, ⟨b', hfails, hcall⟩, .refl⟩
  · apply content_of_mem (g := .init) hs'
    · simpa [Connector.qcLaunchExec, hcode, Connector.State.stage] using hi
    · exact hfails.tail ⟨code, hcode, hcall⟩

/-- A call of `post`. -/
theorem Content.post (h : Content sv st i kureq b b') (hs : StageInv d st)
    (hi : i ∈ st.stage .running) (hcall : sv.post kureq code b' left) :
    Content sv (Connector.qcPostExec code st i).1 i kureq b left := by
  obtain ⟨b₁, hlaunch, hfails⟩ : sv.made kureq .running b b' := h.linked .running hi
  have hs' := hs.qcPostExec hi code
  by_cases hcode : code = 0
  · subst hcode
    apply content_of_mem (g := .postExec) hs'
    · simp [Connector.qcPostExec, Connector.State.stage]
    · exact ⟨b₁, hlaunch, b', hfails, hcall⟩
  · apply content_of_mem hs' (g := .running)
    · simpa [Connector.qcPostExec, hcode, Connector.State.stage] using hi
    · exact ⟨b₁, hlaunch, hfails.tail ⟨code, hcode, hcall⟩⟩

/-- A request that has just been taken in. -/
theorem content_accepted (hs : StageInv d st) (hstop : Connector.isStopRequest kureq = false)
    (b : α) : Content sv (Connector.qcAccept d st kureq).2 st.requests.length kureq b b := by
  obtain ⟨_, g, sr, _, _, _, _, _, hsteps, hstage⟩ := hs.qcAccept_spec hstop
  apply content_of_mem (g := g) (hs.qcAccept kureq)
  · rw [hstage, if_pos rfl]
    exact List.mem_append_right _ List.mem_cons_self
  · cases g with
    | init => exact .refl
    | done => rfl
    | running | postExec => cases hsteps

end QHGPU.System
