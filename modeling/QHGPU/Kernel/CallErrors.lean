import QHGPU.Kernel.Driver

/-!
# Client calls that cannot obtain an object

`qhgpu_alloc_request`, `qhgpu_call_sync` and `qhgpu_call_async` when `kmem_cache_alloc` fails.
-/

namespace QHGPU.Kernel

/-- A call of a client, with the outcomes of its allocations. -/
inductive ClientCall where
  | allocRequest (dataSize : Int) (serviceName : List UInt8) (obj : Option (ClientFields × Int))
  | callSync (t : Tid) (r : ReqId) (dataOk itemOk : Bool)
  | callAsync (t : Tid) (r : ReqId) (itemOk : Bool)

/-- What the client gets back, or `goesOn` when the call has put its item together. -/
inductive Answer where
  | null
  | request (r : ReqId)
  | code (e : Int)
  | goesOn
  deriving DecidableEq

/-- A null pointer, or a code that is not 0. -/
def Answer.IsError : Answer → Prop
  | .null => True
  | .code e => e ≠ 0
  | .request _ | .goesOn => False

/-- What the client gets for the code that the call has returned, if it has. -/
def Answer.ofCode : Option Int → Answer
  | none => .goesOn
  | some e => .code e

/-- The reply and the state after the call; `none` when it writes through a null pointer. -/
def clientCall (s : State) : ClientCall → Option (Answer × State)
  | .allocRequest dataSize serviceName obj =>
    (qhgpuAllocRequest s dataSize serviceName obj).map fun s' ↦ (.request s.nextReq, s')
  | .callSync t r dataOk itemOk =>
    let (code, s) := qhgpuCallSync s t r dataOk itemOk
    some (.ofCode code, s)
  | .callAsync t r itemOk =>
    let (code, s) := qhgpuCallAsync s t r itemOk
    some (.ofCode code, s)

/-- An allocation of the call fails. -/
def ClientCall.Lacks (s : State) : ClientCall → Prop
  | .allocRequest _ _ obj => obj = none
  | .callSync _ _ dataOk itemOk =>
    s.devState ≠ qhgpuTerminated ∧ (dataOk = false ∨ itemOk = false)
  | .callAsync _ _ itemOk => s.devState ≠ qhgpuTerminated ∧ itemOk = false

/-- The sync-call data blocks that are allocated. -/
def State.liveData (s : State) : Nat :=
  (List.range s.nextData).countP fun d ↦ (s.syncData d).isSome

/-- The queue items that are allocated: the writer that has called back frees its item. -/
def State.liveItems (s : State) : Nat :=
  (List.range s.nextItem).countP fun i ↦ decide (i ∉ s.finished)

/-- Requests, queues and tables are the same, and each cache has as many live objects. -/
structure Undone (s s' : State) : Prop where
  request : s'.request = s.request
  reqs : s'.reqs = s.reqs
  rtdreqs : s'.rtdreqs = s.rtdreqs
  moduleArr : s'.moduleArr = s.moduleArr
  moduleActiveChecker : s'.moduleActiveChecker = s.moduleActiveChecker
  liveRequests : s'.nextReq = s.nextReq
  liveItems : s'.liveItems = s.liveItems
  liveData : s'.liveData = s.liveData

/-- A call that cannot obtain an object returns its error, and has changed nothing. -/
def FailsClean (s : State) (call : ClientCall) : Prop :=
  call.Lacks s → ∃ reply s', clientCall s call = some (reply, s') ∧ reply.IsError ∧ Undone s s'

/-- `qhgpu_alloc_request` obtains its object, and in `qhgpu_call_sync` the item does not fail
after the data block was obtained. -/
def ClientCall.Clean (s : State) : ClientCall → Prop
  | .allocRequest _ _ obj => obj ≠ none
  | .callSync _ _ dataOk itemOk =>
    s.devState = qhgpuTerminated ∨ dataOk = false ∨ itemOk = true
  | .callAsync _ _ _ => True

variable {s : State}

private theorem undone_refl (s : State) : Undone s s := ⟨rfl, rfl, rfl, rfl, rfl, rfl, rfl, rfl⟩

private theorem neg_enomem_ne_zero : -enomem ≠ 0 := by decide

/-- Without an item the data block is not given back. -/
theorem liveData_leak {t : Tid} {r : ReqId} (hstate : s.devState ≠ qhgpuTerminated) :
    (qhgpuCallSync s t r true false).2.liveData = s.liveData + 1 := by
  rw [qhgpuCallSync, if_neg hstate, if_neg (by decide), if_pos rfl]
  simp only [State.liveData]
  rw [List.range_succ, List.countP_append, List.countP_singleton, Function.update_self]
  congr 1
  refine List.countP_congr ?_
  intro d hd
  rw [Function.update_of_ne (Nat.ne_of_lt (List.mem_range.mp hd))]

/-- For every state, call and outcome of the allocations. -/
theorem failsClean_iff (s : State) (call : ClientCall) : FailsClean s call ↔ call.Clean s := by
  cases call with
  | allocRequest dataSize serviceName obj =>
    cases obj with
    | none =>
      refine iff_of_false ?_ fun h ↦ h rfl
      intro h
      obtain ⟨reply, s', hcall, _⟩ := h rfl
      cases hcall
    | some obj => exact iff_of_true (fun h ↦ by cases h) (by rintro ⟨⟩)
  | callSync t r dataOk itemOk =>
    constructor
    · intro h
      by_contra hnot
      rw [ClientCall.Clean, not_or, not_or] at hnot
      obtain ⟨hstate, hdata, hitem⟩ := hnot
      obtain rfl := (Bool.not_eq_false dataOk).mp hdata
      obtain rfl := (Bool.not_eq_true itemOk).mp hitem
      obtain ⟨reply, s', hcall, _, hundone⟩ := h ⟨hstate, Or.inr rfl⟩
      obtain ⟨_, rfl⟩ := Prod.mk.inj (Option.some.inj hcall)
      have hleak := liveData_leak (t := t) (r := r) hstate
      have hsame : (qhgpuCallSync s t r true false).2.liveData = s.liveData := hundone.liveData
      omega
    · rintro hclean ⟨hstate, hlack⟩
      have hdata : dataOk = false := by
        rcases hclean with hterm | hdata | hitem
        · exact absurd hterm hstate
        · exact hdata
        · rw [hitem] at hlack
          exact hlack.resolve_right (by decide)
      refine ⟨.code (-enomem), s, ?_, neg_enomem_ne_zero, undone_refl s⟩
      rw [clientCall, qhgpuCallSync, if_neg hstate, if_pos hdata]
      rfl
  | callAsync t r itemOk =>
    refine iff_of_true ?_ trivial
    rintro ⟨hstate, hitem⟩
    refine ⟨.code (-enomem), s, ?_, neg_enomem_ne_zero, undone_refl s⟩
    rw [clientCall, qhgpuCallAsync, if_neg hstate, if_pos hitem]
    rfl

/-- One slot, one request, and no memory for a queue item: the data block is lost. -/
theorem not_failsClean_item : ¬∀ (s : State) (call : ClientCall), FailsClean s call := by
  intro hall
  obtain ⟨_, s', hcall, _, hundone⟩ :=
    hall (.start 1 (fun _ ↦ 0) .zeroed) (.callSync 1 0 true false) ⟨by decide, Or.inr rfl⟩
  obtain ⟨_, rfl⟩ := Prod.mk.inj (Option.some.inj hcall)
  exact absurd hundone.liveData (by decide)

end QHGPU.Kernel
