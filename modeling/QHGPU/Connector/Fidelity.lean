import QHGPU.Kernel.Mempool
import QHGPU.Connector.MainLoop

/-!
# From a client's request to the record a service receives

A request is copied field by field twice: by `fill_ku_request` in the kernel and by
`qc_init_service_request` in the daemon, the second time into a cleared record.
-/

namespace QHGPU.Connector

open CString

/-- The record that `launch` is later called with, for a request that the daemon reads in
state `s`; `none` when the item is not put on `init_reqs`. -/
def launchReceives (d : Daemon) (s : State) (kureq : QhgpuKuRequest) :
    Option QhgpuServiceRequest :=
  let (r, s') := qcAccept d s kureq
  if r = 0 ∧ (s'.sr s.requests.length).state = .init then some (s'.sr s.requests.length)
  else none

/-- What reaches `launch` is the copied record with the service looked up. -/
theorem launchReceives_some {d : Daemon} {s : State} {kureq : QhgpuKuRequest}
    {sr : QhgpuServiceRequest} (h : launchReceives d s kureq = some sr) :
    ∃ service, qcLookupService d.services kureq.serviceName = some service ∧
      sr = { srOfKuRequest d { kureq with mmapAddr := d.mmapAddrArr kureq.id } with
        s := some service, state := .init, errcode := 0 } := by
  unfold launchReceives qcAccept at h
  cases hs : isStopRequest kureq
  · rw [hs] at h
    cases hl : qcLookupService d.services kureq.serviceName with
    | none => simp [qcInitServiceRequest, hl, qcFailRequest, State.unlink] at h
    | some service =>
      simp [qcInitServiceRequest, hl] at h
      exact ⟨service, rfl, h.symm⟩
  · rw [hs] at h
    simp at h

/-- A daemon with the one service `batch_service`. -/
def batchDaemon : Daemon where
  services := [⟨[98, 97, 116, 99, 104, 95, 115, 101, 114, 118, 105, 99, 101, 0], 1, 0, 1⟩]
  mmapAddrArr := fun _ ↦ 0x7f5a10000000#64
  devfd := 3

/-- A request for `batch_service` over `words` words, as `qhgpu_alloc_request` leaves it. -/
def batchRequest (words batches : Word) : QhgpuRequest where
  id := 0
  inp := 0
  out := 0
  udata := 0
  kdata := .client 0
  kmmapAddr := 0xffff880012000000#64
  insize := 0
  outsize := 0
  udatasize := 0
  mmapSize := words
  batchSize := batches
  serviceName := [98, 97, 116, 99, 104, 95, 115, 101, 114, 118, 105, 99, 101, 0]
  callback := .client 0
  errcode := 0
  module := 0

end QHGPU.Connector
