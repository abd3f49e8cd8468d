import QHGPU.Connector.Passes
import QHGPU.Connector.Steps
import QHGPU.Kernel.Objects

/-!
# The driver and the daemon together

Client threads call the driver; the daemon is one more thread, whose `read` and `write` of the
device are the driver's. A step is one of a client, one of the daemon, or one inside the
system call that the daemon is in.
-/

namespace QHGPU.System

open Kernel (Tid ItemId ReqId kuRequestCount kuResponseCount)
open Connector (Daemon Loop Answer stepLoop)

/-- The daemon's thread. -/
def daemonTid : Tid := 0

/-- The driver, and the loop of the daemon. -/
structure State where
  kernel : Kernel.State
  loop : Loop

/-- `n` free slots, and a daemon before its first iteration. -/
def State.start (n : Nat) (kmmapAddrArr : Int → Word) (gmpool : QhgpuMempool) : State :=
  ⟨.start n kmmapAddrArr gmpool, .start⟩

/-- A step inside the driver, or one of the daemon; `stack` is what `kureq` holds on the stack
of a `qhgpu_read` that begins. -/
inductive Act where
  | kernel (a : Kernel.Act)
  | daemon (ans : Answer) (stack : QhgpuKuRequest)

/-- Calls into the driver that clients make, and steps of calls that have begun. The daemon
itself takes the value that its `read` returns. -/
def State.permits (s : State) : Kernel.Act → Bool
  | .alloc _ _ _ | .fill _ _ | .returnMmap _ | .signal _ => true
  | .callSync t _ _ _ | .callAsync t _ _ => t != daemonTid
  | .read _ _ _ _ | .write _ _ _ => false
  | .step t =>
    match s.kernel.threads t with
    | .readReturn _ _ => false
    | _ => true

/-- A step of the daemon outside the driver, `src/qhgpu/connector.c:945–988`. It begins a `read`
after `poll` and a `write` for each item on `post_exec_reqs`, and goes on with the value that the
system call returned. -/
def stepDaemon (d : Daemon) (s : State) (ans : Answer) (stack : QhgpuKuRequest) :
    Option State :=
  match s.loop.pc, s.kernel.threads daemonTid with
  | .walk .serviceDone (i :: _), .idle =>
    (Kernel.step s.kernel (.write daemonTid kuResponseCount (s.loop.st.response i))).map
      fun k ↦ ⟨k, stepLoop d s.loop ans⟩
  | .writing _ _, .idle =>
    some ⟨s.kernel, stepLoop d s.loop
      { ans with written := s.kernel.writeReturns.getLastD 0 }⟩
  | .getNext, .idle =>
    match (stepLoop d s.loop ans).pc with
    | .reading =>
      (Kernel.step s.kernel (.read daemonTid kuRequestCount false stack)).map
        fun k ↦ ⟨k, stepLoop d s.loop ans⟩
    | _ => some ⟨s.kernel, stepLoop d s.loop ans⟩
  | .reading, .readReturn ret buf =>
    (Kernel.step s.kernel (.step daemonTid)).map fun k ↦ ⟨k, stepLoop d s.loop { ans with
      env := { ans.env with
        read := ret
        eagain := ret == -eagain
        kureq := buf.getD ans.env.kureq } }⟩
  | .walk _ _, .idle => some ⟨s.kernel, stepLoop d s.loop ans⟩
  | .stopped, .idle => some ⟨s.kernel, stepLoop d s.loop ans⟩
  | _, _ => none

/-- One step of the whole. -/
def step (d : Daemon) (s : State) : Act → Option State
  | .kernel a =>
    if s.permits a then (Kernel.step s.kernel a).map fun k ↦ ⟨k, s.loop⟩ else none
  | .daemon ans stack => stepDaemon d s ans stack

end QHGPU.System
