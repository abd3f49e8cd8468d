import QHGPU.Services.SortServices
import QHGPU.System.RemoteCall

/-!
# A remote sort

A client of `radix_service` gets its buffer back with its keys in ascending order, whatever other
clients and services do to their own buffers.
-/

namespace QHGPU.Radix

open Connector (Daemon)
open Kernel (ItemId)
open QHGPU.System (Remote RemoteAct RemoteOk Services Succeeds fillAndCall remoteInv_of_run
  remoteOk_daemon remoteOk_first remoteOk_step remoteStep serveAndWake)

/-! ### The service as a relation -/

section

variable {geo : Geometry} {sizes : Sizes} {P Q : Memory → Prop} {hKeys : List Nat} {m : Memory}

/-- What completes under two conditions leaves something that meets both. -/
theorem Completes.meet {cs : List Command} (hP : Completes geo sizes P cs m)
    (hQ : Completes geo sizes Q cs m) : ∃ m', P m' ∧ Q m' := by
  induction cs generalizing m with
  | nil => exact ⟨m, hP, hQ⟩
  | cons c cs ih =>
    have hrunsP := hP.2.2 m fun _ _ ↦ rfl
    have hrunsQ := hQ.2.2 m fun _ _ ↦ rfl
    obtain ⟨m', hm'⟩ := hrunsP.ends
    exact ih (hrunsP.post m' hm') (hrunsQ.post m' hm')

private theorem RadixLaunch.meet {P Q : List Nat → Prop} (hP : RadixLaunch geo hKeys P m)
    (hQ : RadixLaunch geo hKeys Q m) : ∃ sorted, P sorted ∧ Q sorted := by
  obtain ⟨st, hinit, _, _, hcompletesP⟩ := hP
  obtain ⟨st', hinit', _, _, hcompletesQ⟩ := hQ
  obtain rfl := Option.some.inj (hinit.symm.trans hinit')
  obtain ⟨m', hm', hm''⟩ := hcompletesP.meet hcompletesQ
  exact ⟨_, hm', hm''⟩

end

/-- The name of `radix_service`. -/
def radixName : List UInt8 := [114, 97, 100, 105, 120, 95, 115, 101, 114, 118, 105, 99, 101]

/-- The parameter of `init_cl_radix_sort` is an `int`. -/
def keyCount (mmapSize : Word) : Nat := (mmapSize.setWidth 32).toInt.toNat

/-- `radix_launch`, `src/test_module/radix_sort/lib/libsrv_radix.c:45–87`, returns 0 and leaves
the keys that it has read back at the front of the buffer. Nothing is said of the device before. -/
def radixLaunch (kureq : QhgpuKuRequest) (code : Int) (b b' : List Nat) : Prop :=
  let n := keyCount kureq.mmapSize
  code = 0 ∧ ∃ m, ∀ post, RadixLaunch hostGeometry (b.take n) post m →
    ∃ sorted, post sorted ∧ b' = sorted ++ b.drop n

/-- `radix_post`, `src/test_module/radix_sort/lib/libsrv_radix.c:88–92`. -/
def radixPost (code : Int) (b b' : List Nat) : Prop := code = 0 ∧ b' = b

/-- The services under the name `radix_service`. -/
structure RadixServices (sv : Services (List Nat)) : Prop where
  launch : ∀ kureq, CString.cstr kureq.serviceName = radixName →
    sv.launch kureq = radixLaunch kureq
  post : ∀ kureq, CString.cstr kureq.serviceName = radixName → sv.post kureq = radixPost

/-- The client's keys come back in ascending order, and the rest of the buffer as it was. -/
def SortedInto (n : Nat) (b b' : List Nat) : Prop :=
  ∃ sorted, sorted.Pairwise (· ≤ ·) ∧ sorted.Perm (b.take n) ∧ b' = sorted ++ b.drop n

/-- What the client has to see to: as many keys as the items sort, all in the buffer and all
below `_MAXINT`. -/
structure Sortable (n : Nat) (b : List Nat) : Prop where
  pos : 0 < n
  mod : n % 1024 = 0
  room : n ≤ b.length
  keys : ∀ key ∈ b.take n, key < maxint

variable {sv : Services (List Nat)} {kureq : QhgpuKuRequest} {n : Nat} {b b' : List Nat}
  {code : Int}

/-- The sort guarantees a sorted permutation. -/
theorem radixLaunch_sorts (h : Sortable n b) (m : Memory) : RadixLaunch hostGeometry (b.take n)
    (fun sorted ↦ sorted.Pairwise (· ≤ ·) ∧ sorted.Perm (b.take n)) m := by
  have hlen : (b.take n).length = n := List.length_take_of_le h.room
  apply radixLaunch_of_mod
  · rw [hlen]
    exact h.pos
  · rw [hlen]
    exact h.mod
  · exact h.keys
  · exact fun sorted hascending hperm ↦ ⟨hascending, hperm⟩

/-- A function that never fails does not repeat. -/
theorem succeeds_of_zero {α : Type} {call : Int → α → α → Prop} {c c' : α}
    (hzero : ∀ code c c', call code c c' → code = 0) (h : Succeeds call c c') : call 0 c c' := by
  obtain ⟨c₁, hfails, hcall⟩ := h
  rcases Relation.ReflTransGen.cases_head hfails with rfl | ⟨_, ⟨code, hne, hfail⟩, _⟩
  · exact hcall
  · exact absurd (hzero code _ _ hfail) hne

/-- One launch and one post sort. -/
theorem RadixServices.sorted (h : RadixServices sv)
    (hname : CString.cstr kureq.serviceName = radixName)
    (hb : Sortable (keyCount kureq.mmapSize) b) (hperformed : sv.Performed kureq b b') :
    SortedInto (keyCount kureq.mmapSize) b b' := by
  obtain ⟨b₁, hlaunch, hpost⟩ := hperformed
  rw [h.launch kureq hname] at hlaunch
  rw [h.post kureq hname] at hpost
  obtain ⟨_, m, hm⟩ := succeeds_of_zero (fun _ _ _ hcall ↦ hcall.1) hlaunch
  obtain ⟨_, rfl⟩ := succeeds_of_zero (fun _ _ _ hcall ↦ hcall.1) hpost
  obtain ⟨sorted, ⟨hascending, hperm⟩, hb'⟩ := hm _ (radixLaunch_sorts hb m)
  exact ⟨sorted, hascending, hperm, hb'⟩

/-- From `n` free slots, over any interleaving of clients and daemon that meets `RemoteOk`, with
any services beside `radix_service`: a client of it that has its buffer back has its keys
sorted. -/
theorem sorted_of_meets (sv : Services (List Nat)) (hsv : RadixServices sv) (d : Daemon) (n : Nat)
    (arr : Int → Word) (pool : QhgpuMempool) (buffer : Int → List Nat)
    (acts : List (RemoteAct (List Nat))) (s : Remote (List Nat))
    (hok : StepRun.Meets (remoteStep d) (RemoteOk sv) (.start n arr pool buffer) acts)
    (h : StepRun.run (remoteStep d) (.start n arr pool buffer) acts = some s) (j : ItemId)
    (hj : s.HandedBack j)
    (hname : CString.cstr (s.sys.kernel.request (s.sys.kernel.itemReq j)).serviceName = radixName)
    (hkeys : Sortable (keyCount (s.sys.kernel.request (s.sys.kernel.itemReq j)).mmapSize)
      (s.submitted j)) :
    SortedInto (keyCount (s.sys.kernel.request (s.sys.kernel.itemReq j)).mmapSize) (s.submitted j)
      (s.buffer (s.sys.kernel.request (s.sys.kernel.itemReq j)).id) := by
  obtain ⟨_, _, kureq, stack, _, _, hfill, hperformed⟩ :=
    (remoteInv_of_run hok h).computed_of_handedBack hj
  have hsize : kureq.mmapSize = (s.sys.kernel.request (s.sys.kernel.itemReq j)).mmapSize := by
    rw [hfill]
    rfl
  have hservice : CString.cstr kureq.serviceName = radixName := by
    rw [hfill, fillKuRequest, CString.cstr_take, hname]
    rfl
  rw [← hsize] at hkeys ⊢
  exact hsv.sorted hservice hkeys hperformed

/-! ### A call -/

/-- A daemon with `radix_service` only. -/
def radixDaemon : Daemon :=
  { Connector.batchDaemon with services := [⟨radixName ++ [0], 1, 0, 1⟩] }

/-- Keys in ascending order. -/
@[irreducible] def ascending (n : Nat) : List Nat := List.range n

/-- The same keys the other way round. -/
@[irreducible] def descending (n : Nat) : List Nat := (List.range n).reverse

/-- The only service. -/
def onlyRadix : Services (List Nat) := ⟨radixLaunch, fun _ ↦ radixPost⟩

private theorem length_descending (n : Nat) : (descending n).length = n := by
  rw [descending, List.length_reverse, List.length_range]

private theorem descending_perm (n : Nat) : (descending n).Perm (ascending n) := by
  rw [descending, ascending]
  exact List.reverse_perm _

private theorem pairwise_ascending (n : Nat) : (ascending n).Pairwise (· ≤ ·) := by
  rw [ascending]
  exact List.pairwise_le_range

private theorem sortable_descending : Sortable 1024 (descending 1024) := by
  refine ⟨by omega, by omega, (length_descending _).ge, ?_⟩
  intro key hkey
  have hmem := List.mem_of_mem_take hkey
  rw [descending, List.mem_reverse, List.mem_range] at hmem
  exact hmem.trans (by decide)

private theorem keyCount_ofInt : keyCount (BitVec.ofInt 64 1024) = 1024 := by
  simp [keyCount]

/-- The sort turns them round. -/
theorem radixLaunch_descending (hsize : kureq.mmapSize = BitVec.ofInt 64 1024) :
    radixLaunch kureq 0 (descending 1024) (ascending 1024) := by
  refine ⟨rfl, fun _ ↦ 0, fun post hpost ↦ ?_⟩
  rw [hsize, keyCount_ofInt] at hpost ⊢
  obtain ⟨sorted, hsorted, hascending, hperm⟩ :=
    hpost.meet (radixLaunch_sorts sortable_descending _)
  refine ⟨sorted, hsorted, ?_⟩
  have htake : (descending 1024).take 1024 = descending 1024 :=
    List.take_of_length_le (length_descending _).le
  have hdrop : (descending 1024).drop 1024 = [] :=
    List.drop_of_length_le (length_descending _).le
  rw [htake] at hperm
  rw [hdrop, List.append_nil]
  have hsame := hperm.trans (descending_perm 1024)
  exact (hsame.eq_of_pairwise (fun _ _ _ _ ↦ Nat.le_antisymm) hascending
    (pairwise_ascending _)).symm

/-- A client sends the keys in descending order. -/
def sortRun : List (RemoteAct (List Nat)) :=
  fillAndCall 1024 radixName (descending 1024) ++ serveAndWake (ascending 1024) (ascending 1024)

private theorem run_sortRun : ∃ s : Remote (List Nat),
    StepRun.run (remoteStep radixDaemon) (.start 1 (fun _ ↦ 0) .zeroed fun _ ↦ []) sortRun =
      some s ∧
    s.sys.kernel.threads 1 = .sync ⟨0, 0, 0, .client 0, .client 0⟩ .restoreKdata ∧
    s.sys.kernel.itemReq 0 = 0 ∧ (s.sys.kernel.request 0).serviceName = radixName ++ [0] ∧
    (s.sys.kernel.request 0).mmapSize = BitVec.ofInt 64 1024 ∧
    (s.sys.kernel.request 0).id = 0 ∧ s.submitted 0 = descending 1024 :=
  ⟨_, rfl, rfl, rfl, rfl, rfl, rfl, rfl⟩

private theorem meets_sortRun : StepRun.Meets (remoteStep radixDaemon) (RemoteOk onlyRadix)
    (.start 1 (fun _ ↦ 0) .zeroed fun _ ↦ []) sortRun := by
  -- the client
  refine StepRun.meets_cons ⟨trivial, by simp, by simp⟩ rfl ?_
  refine StepRun.meets_cons (fun j hj ↦ absurd hj.1 List.not_mem_nil) rfl ?_
  refine StepRun.meets_cons ⟨⟨?_, ?_⟩, by simp, by simp⟩ rfl ?_
  · rintro ⟨t, c, hc, _⟩
    cases hc
  · exact fun i hi ↦ absurd hi.1 (Nat.not_lt_zero i)
  iterate 2 refine StepRun.meets_cons (remoteOk_step rfl) rfl ?_
  refine StepRun.meets_cons (remoteOk_first rfl rfl) rfl ?_
  -- the daemon
  iterate 4 refine StepRun.meets_cons (remoteOk_daemon rfl) rfl ?_
  iterate 2 refine StepRun.meets_cons (remoteOk_step rfl) rfl ?_
  iterate 3 refine StepRun.meets_cons (remoteOk_daemon rfl) rfl ?_
  refine StepRun.meets_cons ?_ rfl ?_
  · intro p i rest kureq hpc _ hreq
    cases hpc
    change radixLaunch kureq 0 (descending 1024) (ascending 1024)
    apply radixLaunch_descending
    rw [← Option.some.inj hreq]
    rfl
  iterate 3 refine StepRun.meets_cons (remoteOk_daemon rfl) rfl ?_
  refine StepRun.meets_cons ?_ rfl ?_
  · intro p i rest kureq hpc _ hreq
    cases hpc
    change radixPost 0 (ascending 1024) (ascending 1024)
    exact ⟨rfl, rfl⟩
  iterate 3 refine StepRun.meets_cons (remoteOk_daemon rfl) rfl ?_
  iterate 7 refine StepRun.meets_cons (remoteOk_step rfl) rfl ?_
  trivial

/-- The keys come back turned round. -/
theorem sorted_of_meets_descending : ∃ s : Remote (List Nat),
    StepRun.run (remoteStep radixDaemon) (.start 1 (fun _ ↦ 0) .zeroed fun _ ↦ [])
      sortRun = some s ∧
    s.sys.kernel.threads 1 = .sync ⟨0, 0, 0, .client 0, .client 0⟩ .restoreKdata ∧
    SortedInto 1024 (descending 1024) (s.buffer 0) := by
  obtain ⟨s, hrun, hthread, hitem, hname, hsize, hid, hsubmitted⟩ :=
    run_sortRun
  refine ⟨s, hrun, hthread, ?_⟩
  have hsorted := sorted_of_meets onlyRadix ⟨fun _ _ ↦ rfl, fun _ _ ↦ rfl⟩ radixDaemon 1
    (fun _ ↦ 0) .zeroed (fun _ ↦ []) sortRun s meets_sortRun hrun 0
    (Or.inr ⟨1, _, _, hthread, rfl, rfl⟩)
  rw [hitem, hname, hsize, hid, hsubmitted, keyCount_ofInt] at hsorted
  exact hsorted rfl sortable_descending

end QHGPU.Radix
