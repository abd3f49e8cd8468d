import QHGPU.Connector.Steps
import QHGPU.Library.LinkedRing

/-!
# The stage lists in memory

The small steps of the loop over the items and `list_head`s that `src/qhgpu/connector.c`
allocates, links, walks and frees. A step that follows a null or dangling pointer, or takes a
list head for an item, has no result.
-/

namespace QHGPU.Connector.Memory

open LinkedRing

/-- The address of a `struct _qhgpu_sritem`. -/
abbrev Addr := Nat

/-- Each `struct list_head`: the heads of `src/qhgpu/connector.c:60–67` and the two in an
item. -/
inductive Node where
  | allReqs
  | reqs (g : Stage)
  | list (a : Addr)
  | glist (a : Addr)
  deriving DecidableEq

/-- Where the loop is; `pos` and `n` are the variables of `list_for_each_safe`. -/
inductive Pc where
  | walk (p : Pass) (pos n : Option Node)
  | writing (sreq : Addr) (resp : QhgpuKuResponse) (n : Option Node)
  | getNext
  | reading (sreq : Addr)
  | stopped
  deriving DecidableEq

/-- The links, the record in each item, and the responses the device has taken. -/
structure State where
  lists : Heap Node
  sr : Addr → QhgpuServiceRequest
  written : List QhgpuKuResponse
  pc : Pc

/-! ### Items -/

/-- `sreq->sr`. -/
def State.getSr (s : State) (sreq : Addr) : Option QhgpuServiceRequest :=
  if s.lists.live (.list sreq) then some (s.sr sreq) else none

/-- A store to `sreq->sr`. -/
def State.setSr (s : State) (sreq : Addr) (sr : QhgpuServiceRequest) : Option State :=
  if s.lists.live (.list sreq) then some { s with sr := Function.update s.sr sreq sr }
  else none

/-- `qc_alloc_service_request`, `src/qhgpu/connector.c:429–456`, when `malloc` returns
`sreq`. -/
def qcAllocServiceRequest (s : State) (sreq : Addr) : Option State := do
  let lists : Heap Node := {
    live := Function.update (Function.update s.lists.live (.list sreq) true) (.glist sreq) true
    prev := Function.update (Function.update s.lists.prev (.list sreq) none) (.glist sreq) none
    next := Function.update (Function.update s.lists.next (.list sreq) none) (.glist sreq) none }
  let lists ← initListHead lists (some (.list sreq))
  let lists ← initListHead lists (some (.glist sreq))
  some { s with lists := lists, sr := Function.update s.sr sreq .zeroed }

/-- `qc_free_service_request`, `src/qhgpu/connector.c:458–479`. -/
def qcFreeServiceRequest (s : State) (sreq : Addr) : Option State :=
  if s.lists.live (.list sreq) ∧ s.lists.live (.glist sreq) then
    some { s with lists := { s.lists with
      live := Function.update (Function.update s.lists.live (.list sreq) false)
        (.glist sreq) false } }
  else none

/-- `list_del(&sreq->list); list_add_tail(&sreq->list, lst)`, `src/qhgpu/list.h:39–55`. -/
def listMoveTail (lists : Heap Node) (sreq : Addr) (lst : Stage) : Option (Heap Node) := do
  let lists ← listDel lists (some (.list sreq))
  listAddTail lists (some (.list sreq)) (some (.reqs lst))

/-- An item goes to the end of another list. -/
def State.moveTail (s : State) (sreq : Addr) (lst : Stage) : Option State :=
  (listMoveTail s.lists sreq lst).map fun lists ↦ { s with lists := lists }

/-! ### Operations of the loop -/

/-- `qc_fail_request`, `src/qhgpu/connector.c:481–505`. -/
def qcFailRequest (s : State) (sreq : Addr) (serr : Int) : Option State := do
  let sr ← s.getSr sreq
  let s ← s.setSr sreq { sr with state := .done, errcode := serr }
  s.moveTail sreq .done

/-- `qc_init_service_request`, `src/qhgpu/connector.c:507–571`. -/
def qcInitServiceRequest (d : Daemon) (s : State) (item : Addr) (kureq : QhgpuKuRequest) :
    Option State := do
  let lists ← listAddTail s.lists (some (.glist item)) (some .allReqs)
  let s ← { s with lists := lists }.setSr item (srOfKuRequest d kureq)
  match qcLookupService d.services kureq.serviceName with
  | none => qcFailRequest s item qhgpuNoService
  | some service => do
    let sr ← s.getSr item
    let s ← s.setSr item { sr with s := some service, state := .init, errcode := 0 }
    let lists ← listAddTail s.lists (some (.list item)) (some (.reqs .init))
    some { s with lists := lists }

/-- `qc_launch_exec`, `src/qhgpu/connector.c:740–814`. -/
def qcLaunchExec (code : Int) (s : State) (sreq : Addr) : Option (State × Int) := do
  let sr ← s.getSr sreq
  let _ ← sr.s
  if code = 0 then do
    let s ← s.setSr sreq { sr with state := .running }
    let s ← s.moveTail sreq .running
    some (s, 0)
  else some (s, 0)

/-- `qc_post_exec`, `src/qhgpu/connector.c:816–845`. -/
def qcPostExec (code : Int) (s : State) (sreq : Addr) : Option (State × Int) := do
  let sr ← s.getSr sreq
  let _ ← sr.s
  if code = 0 then do
    let s ← s.setSr sreq { sr with state := .postExec }
    let s ← s.moveTail sreq .postExec
    some (s, code)
  else some (s, code)

/-- `qc_service_done`, `src/qhgpu/connector.c:896–910`, after the response was written. -/
def qcServiceDone (s : State) (sreq : Addr) : Option (State × Int) := do
  let lists ← listDel s.lists (some (.list sreq))
  let lists ← listDel lists (some (.glist sreq))
  let s ← qcFreeServiceRequest { s with lists := lists } sreq
  some (s, 0)

/-! ### The loop -/

/-- `pos = (head)->next, n = pos->next`, `src/qhgpu/list.h:75–77`. -/
def State.beginPass (s : State) (p : Pass) : Option State := do
  let pos ← s.lists.getNext (some (.reqs p.stage))
  let n ← s.lists.getNext pos
  some { s with pc := .walk p pos n }

/-- What follows a pass. -/
def State.endPass (s : State) : Pass → Option State
  | .serviceDone => s.beginPass .postExec
  | .postExec => s.beginPass .launchExec
  | .launchExec => some { s with pc := .getNext }

/-- After the operation on an item: `pos = n, n = pos->next`, or the end of the pass. -/
def State.visited (s : State) (p : Pass) (n : Option Node) (r : Int) : Option State :=
  if r = 0 ∧ p.once = true then s.endPass p
  else do
    let n' ← s.lists.getNext n
    some { s with pc := .walk p n n' }

/-- `list_entry(pos, struct _qhgpu_sritem, list)`, `src/qhgpu/list.h:69–70`. -/
def listEntry : Option Node → Option Addr
  | some (.list a) => some a
  | _ => none

/-- `src/qhgpu/connector.c:598–629`. The item gets address `sreq`, unless `malloc` fails; it
never gives out an address in use. -/
def pollDevice (env : PollRead) (sreq : Addr) (s : State) : Option State := do
  let first ← s.lists.getNext (some .allReqs)
  let err := env.poll (if first = some .allReqs then -1 else 0)
  if err = 0 ∨ (err ≠ 0 ∧ env.pollin = false) then s.beginPass .serviceDone
  else if err = 1 ∧ env.pollin = true then
    if env.alloc = false ∨ s.lists.live (.list sreq) = true then s.beginPass .serviceDone
    else do
      let s ← qcAllocServiceRequest s sreq
      some { s with pc := .reading sreq }
  else some { s with pc := .stopped }

/-- `src/qhgpu/connector.c:631–693`. -/
def readDevice (d : Daemon) (env : PollRead) (s : State) (sreq : Addr) : Option State :=
  if env.read ≤ 0 then
    if env.eagain = true ∨ env.read = 0 then s.beginPass .serviceDone
    else some { s with pc := .stopped }
  else if isStopRequest env.kureq then some { s with pc := .stopped }
  else do
    let s ← qcInitServiceRequest d s sreq
      { env.kureq with mmapAddr := d.mmapAddrArr env.kureq.id }
    s.beginPass .serviceDone

/-- One step of the loop, `sreq` being the address for a new item; `none` is a memory fault. -/
def step (d : Daemon) (s : State) (inp : Answer × Addr) : Option State :=
  match s.pc with
  | .walk p pos n =>
    if pos = some (.reqs p.stage) then s.endPass p
    else do
      let a ← listEntry pos
      match p with
      | .serviceDone => do
        let sr ← s.getSr a
        some { s with pc := .writing a ⟨sr.id, sr.errcode⟩ n }
      | .postExec => do
        let (s, r) ← qcPostExec inp.1.code s a
        s.visited .postExec n r
      | .launchExec => do
        let (s, r) ← qcLaunchExec inp.1.code s a
        s.visited .launchExec n r
  | .writing a resp n =>
    if inp.1.written < 0 then some { s with pc := .stopped }
    else do
      let (s, r) ← qcServiceDone { s with written := s.written ++ [resp] } a
      s.visited .serviceDone n r
  | .getNext => pollDevice inp.1.env inp.2 s
  | .reading sreq => readDevice d inp.1.env s sreq
  | .stopped => some s

/-- `LIST_HEAD`, `src/qhgpu/list.h:17–18`: each head is allocated and linked to itself, and
there is no item. -/
def staticLists : Heap Node where
  live
    | .allReqs | .reqs _ => true
    | .list _ | .glist _ => false
  prev x := some x
  next x := some x

/-- Before the first iteration. -/
def State.start : State :=
  ⟨staticLists, fun _ ↦ .zeroed, [], .walk .serviceDone (some (.reqs .postExec))
    (some (.reqs .postExec))⟩

end QHGPU.Connector.Memory
