import QHGPU.Base.Header
import QHGPU.Library.CString
import Mathlib.Logic.Function.Basic

/-!
# The daemon's main loop

`src/qhgpu/connector.c:481–988` over lists. A request is known by its serial number, the
order in which it was read from the device. `list_del` takes an item off the stage list it
is on, `list_add_tail` appends it; the walk over the intrusive lists themselves is the
subject of `QHGPU.Connector.Memory`. Return codes of services and answers of system calls are
inputs.
-/

namespace QHGPU.Connector

open CString

/-- What the daemon set up before the loop: registered services in registration order, the
slot mappings made by `init_mmap` and the device descriptor. -/
structure Daemon where
  services : List QhgpuService
  mmapAddrArr : Int → Word
  devfd : Int

/-- `lookup_qhgpu_sitem`, `src/qhgpu/qhgpu_daemon.c:28–44`; `qc_lookup_service` returns the
same item. -/
def qcLookupService (services : List QhgpuService) (name : List UInt8) : Option QhgpuService :=
  services.find? fun s ↦ strncmp name s.name qhgpuServiceNameSize == 0

/-- What a run of the loop does to the outside, each with the serial number it is about. -/
inductive Event where
  | launch (i : Nat) (code : Int)
  | post (i : Nat) (code : Int)
  | respond (i : Nat) (resp : QhgpuKuResponse)
  deriving DecidableEq, Repr

/-- The lists of `src/qhgpu/connector.c:60–67` that some function uses, the service request
in each item, and the history of the run: the requests read and the events. -/
structure State where
  allReqs : List Nat
  initReqs : List Nat
  runningReqs : List Nat
  postExecReqs : List Nat
  doneReqs : List Nat
  sr : Nat → QhgpuServiceRequest
  requests : List QhgpuKuRequest
  log : List Event
  stopped : Bool

/-- Before the first iteration. -/
def State.start : State := ⟨[], [], [], [], [], fun _ ↦ .zeroed, [], [], false⟩

/-- `list_del(&sreq->list)`: off the stage list it is on, if any. -/
def State.unlink (s : State) (i : Nat) : State :=
  { s with
    initReqs := s.initReqs.erase i
    runningReqs := s.runningReqs.erase i
    postExecReqs := s.postExecReqs.erase i
    doneReqs := s.doneReqs.erase i }

/-- `qc_fail_request`, `src/qhgpu/connector.c:481–505`. -/
def qcFailRequest (s : State) (i : Nat) (serr : Int) : State :=
  let s := { s with
    sr := Function.update s.sr i { s.sr i with state := .done, errcode := serr } }
  let s := s.unlink i
  { s with doneReqs := s.doneReqs ++ [i] }

/-- The copies `qc_init_service_request` makes into the cleared record,
`src/qhgpu/connector.c:524–537`. There is none for `batch_size`. -/
def srOfKuRequest (d : Daemon) (kureq : QhgpuKuRequest) : QhgpuServiceRequest :=
  { QhgpuServiceRequest.zeroed with
    id := kureq.id
    hin := kureq.inp
    hout := kureq.out
    hdata := kureq.data
    insize := kureq.insize
    outsize := kureq.outsize
    datasize := kureq.datasize
    streamId := -1
    mmapAddr := kureq.mmapAddr
    kmmapAddr := kureq.kmmapAddr
    mmapSize := kureq.mmapSize
    devfd := d.devfd }

/-- `qc_init_service_request`, `src/qhgpu/connector.c:507–571`, on a new item `i`. -/
def qcInitServiceRequest (d : Daemon) (s : State) (i : Nat) (kureq : QhgpuKuRequest) : State :=
  let s := { s with allReqs := s.allReqs ++ [i] }
  let s := { s with sr := Function.update s.sr i (srOfKuRequest d kureq) }
  match qcLookupService d.services kureq.serviceName with
  | none => qcFailRequest s i qhgpuNoService
  | some service =>
    let s := { s with
      sr := Function.update s.sr i
        { s.sr i with s := some service, state := .init, errcode := 0 } }
    { s with initReqs := s.initReqs ++ [i] }

/-- `qc_launch_exec`, `src/qhgpu/connector.c:740–814`, with `pthread_join` yielding the code
of `launch`. It always returns 0. -/
def qcLaunchExec (code : Int) (s : State) (i : Nat) : State × Int :=
  let s := { s with log := s.log ++ [Event.launch i code] }
  if code = 0 then
    let s := { s with sr := Function.update s.sr i { s.sr i with state := .running } }
    let s := s.unlink i
    ({ s with runningReqs := s.runningReqs ++ [i] }, 0)
  else (s, 0)

/-- `qc_post_exec`, `src/qhgpu/connector.c:816–845`. It returns the code of `post`. -/
def qcPostExec (code : Int) (s : State) (i : Nat) : State × Int :=
  let s := { s with log := s.log ++ [Event.post i code] }
  if code = 0 then
    let s := { s with sr := Function.update s.sr i { s.sr i with state := .postExec } }
    let s := s.unlink i
    ({ s with postExecReqs := s.postExecReqs ++ [i] }, code)
  else (s, code)

/-- `qc_service_done`, `src/qhgpu/connector.c:876–910`: write the response, then take the item
off both lists and free it. -/
def qcServiceDone (s : State) (i : Nat) : State × Int :=
  let s := { s with log := s.log ++ [Event.respond i ⟨(s.sr i).id, (s.sr i).errcode⟩] }
  let s := s.unlink i
  ({ s with allReqs := s.allReqs.erase i }, 0)

/-- `__qc_process_request`, `src/qhgpu/connector.c:914–943`, over the items that are on the list
when the walk starts; `r` is the value it will return. -/
def qcProcessRequest (op : State → Nat → State × Int) (once : Bool) :
    List Nat → State → Int → State × Int
  | [], s, r => (s, r)
  | i :: rest, s, _ =>
    let (s', r) := op s i
    if r = 0 ∧ once = true then (s', r) else qcProcessRequest op once rest s' r

/-- What `poll`, `malloc`, `read` and `errno` answer in one `qc_get_next_service_request`. -/
structure PollRead where
  poll : Int → Int
  pollin : Bool
  alloc : Bool
  read : Int
  eagain : Bool
  kureq : QhgpuKuRequest

/-- A call returns a value or ends the process. -/
inductive Outcome where
  | ret (r : Int) (s : State)
  | abort (s : State)

/-- The test for the request that stops the daemon, `src/qhgpu/connector.c:659`. -/
def isStopRequest (kureq : QhgpuKuRequest) : Bool :=
  kureq.serviceName.take 3 == [48, 48, 48]

/-- The part of `qc_get_next_service_request` after a successful `read`,
`src/qhgpu/connector.c:658–693`. -/
def qcAccept (d : Daemon) (s : State) (kureq : QhgpuKuRequest) : Int × State :=
  if isStopRequest kureq then (-123, s)
  else
    let i := s.requests.length
    let s := { s with requests := s.requests ++ [kureq] }
    (0, qcInitServiceRequest d s i { kureq with mmapAddr := d.mmapAddrArr kureq.id })

/-- `qc_get_next_service_request`, `src/qhgpu/connector.c:575–738`. -/
def qcGetNextServiceRequest (d : Daemon) (env : PollRead) (s : State) : Outcome :=
  let err := env.poll (if s.allReqs = [] then -1 else 0)
  if err = 0 ∨ (err ≠ 0 ∧ env.pollin = false) then .ret (-1) s
  else if err = 1 ∧ env.pollin = true then
    if env.alloc = false then .ret (-1) s
    else if env.read ≤ 0 then
      if env.eagain = true ∨ env.read = 0 then .ret (-1) s else .abort s
    else
      let (r, s) := qcAccept d s env.kureq
      .ret r s
  else .abort s

/-- The answers met in one iteration: a code for each call of `launch` and `post`, at most one
of each for an item, and those of `qc_get_next_service_request`. -/
structure IterInput where
  launchCode : Nat → Int
  postCode : Nat → Int
  env : PollRead

/-- The pass `__qc_process_request(qc_service_done, &post_exec_reqs, 0)`,
`src/qhgpu/connector.c:958`. -/
def serviceDonePass (s : State) : State :=
  (qcProcessRequest qcServiceDone false s.postExecReqs s 0).1

/-- The pass `__qc_process_request(qc_post_exec, &running_reqs, 1)`, `src/qhgpu/connector.c:959`. -/
def postExecPass (postCode : Nat → Int) (s : State) : State :=
  (qcProcessRequest (fun s i ↦ qcPostExec (postCode i) s i) true s.runningReqs s 0).1

/-- The pass `__qc_process_request(qc_launch_exec, &init_reqs, 0)`, `src/qhgpu/connector.c:960`. -/
def launchExecPass (launchCode : Nat → Int) (s : State) : State :=
  (qcProcessRequest (fun s i ↦ qcLaunchExec (launchCode i) s i) false s.initReqs s 0).1

/-- One iteration of `qc_main_loop`, `src/qhgpu/connector.c:957–978`. -/
def qcMainLoopBody (d : Daemon) (s : State) (inp : IterInput) : State :=
  let s := serviceDonePass s
  let s := postExecPass inp.postCode s
  let s := launchExecPass inp.launchCode s
  match qcGetNextServiceRequest d inp.env s with
  | .ret r s => if r = -123 then { s with stopped := true } else s
  | .abort s => { s with stopped := true }

/-- `qc_main_loop`, `src/qhgpu/connector.c:945–988`, as a step function: no further iteration once
it has been left. -/
def qcMainLoop (d : Daemon) (s : State) (inp : IterInput) : Option State :=
  if s.stopped = true then none else some (qcMainLoopBody d s inp)

end QHGPU.Connector
