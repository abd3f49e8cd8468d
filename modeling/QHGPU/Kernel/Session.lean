import QHGPU.Kernel.Mapping
import QHGPU.Kernel.SlotExclusion
import QHGPU.Library.StepRun

/-!
# A session of the daemon

From `QHGPU_IOC_SET_MMAP(n)` through the `n` mappings of `init_mmap`,
`src/qhgpu/connector.c:71–106`, with clients at work in between. The daemon numbers its
mappings from 0, the kernel goes on counting from the sessions before.
-/

namespace QHGPU.Kernel

/-- A mapping of the device. -/
def DeviceAct.isMmap : DeviceAct → Bool
  | .mmap _ _ => true
  | _ => false

/-- A command that sets up the slots. -/
def DeviceAct.isSetMmap : DeviceAct → Bool
  | .setMmap _ _ => true
  | _ => false

/-- The mappings made are those of the loop in `init_mmap(n)`, each of 0x400000 bytes at
offset 0, and the slots are not set up again. -/
def InitMmap (n : Nat) (acts : List DeviceAct) : Prop :=
  acts.filter DeviceAct.isMmap = List.replicate n (.mmap 1024 0) ∧
    ∀ a ∈ acts, a.isSetMmap = false

/-- The mappings made since `d₁`, in order; the daemon keeps the address of the `i`-th in its
`mmap_addr_arr[i]`. -/
def Device.mapped (d₁ d : Device) : List Vma := d.vmas.drop d₁.vmas.length

/-- What the set-up that began in `d₁` leaves in `d₂`. A slot is in use only for a request
allocated since. -/
structure SetUp (n : Nat) (d₁ d₂ : Device) : Prop where
  free : ∀ i : Nat, i < n → d₂.kernel.moduleActiveChecker i ≠ 0 →
    ∃ r, d₁.kernel.nextReq ≤ r ∧ r < d₂.kernel.nextReq ∧ (d₂.kernel.request r).id = i
  index_lt : ∀ v ∈ d₁.mapped d₂, v.index < n
  same_buffer : ∀ i < n, ∃ v b, (d₁.mapped d₂)[i]? = some v ∧ v.slot = some b ∧
    d₂.buffers[b]? = some v.privateData ∧ d₂.kernel.kmmapAddrArr i = v.privateData
  different : ∀ i j : Nat, i < n → j < n →
    d₂.kernel.kmmapAddrArr i = d₂.kernel.kmmapAddrArr j → i = j

/-- Every request allocated since `d₁` carries the id and the address of a slot bound since. -/
def RequestsBound (d₁ d : Device) : Prop :=
  ∀ r, d₁.kernel.nextReq ≤ r → r < d.kernel.nextReq → ∃ (i : Nat) (v : Vma),
    (d₁.mapped d)[i]? = some v ∧ (d.kernel.request r).id = i ∧
      (d.kernel.request r).kmmapAddr = v.privateData

/-- An allocation finds a free slot among those bound since `d₁`; or all slots are taken, and
slot 0, which it then gets, is bound. -/
def SessionOk (d₁ d : Device) : DeviceAct → Prop
  | .kernel (.alloc _ _ _) =>
    (∃ i : Nat, i < (d₁.mapped d).length ∧ d.kernel.moduleActiveChecker i = 0) ∨
      (∀ i : Nat, i < d.kernel.moduleCnt → d.kernel.moduleActiveChecker i ≠ 0) ∧
        0 < (d₁.mapped d).length
  | _ => True

/-! ### Slots in the request path -/

/-- The index `qhgpu_mmap_id` returns is below `m` when a slot below `m` is free. -/
theorem mmapId_lt {s : State} {m : Nat} (hm : m ≤ s.moduleCnt)
    (h : (∃ i : Nat, i < m ∧ s.moduleActiveChecker i = 0) ∨
      (∀ i : Nat, i < s.moduleCnt → s.moduleActiveChecker i ≠ 0) ∧ 0 < m) :
    ∃ i < m, (qhgpuMmapId s).1 = (i : Nat) := by
  rcases mmapId_cases s with ⟨k, hk, hfree, hleast, heq⟩ | ⟨hfull, heq⟩
  · refine ⟨k, ?_, congrArg Prod.fst heq⟩
    rcases h with ⟨i, hi, hifree⟩ | ⟨hfull, _⟩
    · by_contra hge
      exact hleast i (by omega) hifree
    · exact absurd hfree (hfull k hk)
  · refine ⟨0, ?_, congrArg Prod.fst heq⟩
    rcases h with ⟨i, hi, hifree⟩ | ⟨_, hpos⟩
    · exact absurd hifree (hfull i (by omega))
    · exact hpos

/-- The request that `qhgpu_alloc_request` makes has the index `qhgpu_mmap_id` returns. -/
theorem alloc_request {s s' : State} {dataSize : Int} {serviceName : List UInt8}
    {obj : Option (ClientFields × Int)} (h : step s (.alloc dataSize serviceName obj) = some s') :
    s'.nextReq = s.nextReq + 1 ∧ (s'.request s.nextReq).id = (qhgpuMmapId s).1 ∧
      (s'.request s.nextReq).kmmapAddr = s.kmmapAddrArr (qhgpuMmapId s).1 := by
  have hsame : (qhgpuMmapId s).2.nextReq = s.nextReq ∧
      (qhgpuMmapId s).2.kmmapAddrArr = s.kmmapAddrArr := by
    rw [qhgpuMmapId]
    split <;> exact ⟨rfl, rfl⟩
  cases obj with
  | none => cases h
  | some obj =>
    simp only [step, qhgpuAllocRequest] at h
    generalize qhgpuMmapId s = p at h hsame ⊢
    obtain rfl := Option.some.inj h
    simp only [State.setRequest, hsame, Function.update_self, and_self]

/-- A slot that is in use was in use before, or was given to a new request. -/
theorem Trans.occupied {s s' : State} {a : Act} (h : Trans s a s') {i : Int}
    (hi : s'.moduleActiveChecker i ≠ 0) : s.moduleActiveChecker i ≠ 0 ∨
      s.nextReq < s'.nextReq ∧ (s'.request s.nextReq).id = i := by
  have others (ha : a.isAlloc = false) : s.moduleActiveChecker i ≠ 0 := by
    rcases (h.checker_cases ha).2 with ⟨hsame, _⟩ | ⟨r, _, hclear, _⟩
    · rwa [← hsame]
    · rw [hclear] at hi
      by_cases hid : i = (s.request r).id
      · rw [hid, Function.update_self] at hi
        exact absurd rfl hi
      · rwa [Function.update_of_ne hid] at hi
  cases h with
  | @alloc _ _ _ req checker hid =>
    rcases hid with ⟨k, _, _, hk, rfl⟩ | ⟨_, _, rfl⟩
    · by_cases hik : i = k
      · refine Or.inr ⟨Nat.lt_succ_self _, ?_⟩
        dsimp only
        rw [Function.update_self, hk, hik]
      · refine Or.inl ?_
        dsimp only at hi
        rwa [Function.update_of_ne hik] at hi
    · exact Or.inl hi
  | _ => exact Or.inl (others rfl)

/-! ### The session -/

/-- Between two steps of a session with `left` mappings to come. -/
structure SessionInv (n : Nat) (d₁ : Device) (left : Nat) (d : Device) : Prop where
  moduleCnt : d.kernel.moduleCnt = n
  buffers : BuffersInv d
  filled : d.buffers.length = d.first + n
  table : d.mmapAddrArr ≠ none
  nextReq_le : d₁.kernel.nextReq ≤ d.kernel.nextReq
  vmas : d.vmas = d₁.vmas ++ d₁.mapped d
  count : (d₁.mapped d).length + left = n
  next : 0 < left → d.mmapCount = (d₁.mapped d).length
  bound : ∀ i v, (d₁.mapped d)[i]? = some v →
    v.index = i ∧ v.slot = some (d.first + i) ∧ d.kernel.kmmapAddrArr i = v.privateData
  free : ∀ i : Nat, i < n → d.kernel.moduleActiveChecker i ≠ 0 →
    ∃ r, d₁.kernel.nextReq ≤ r ∧ r < d.kernel.nextReq ∧ (d.kernel.request r).id = i
  requests : RequestsBound d₁ d

variable {n left : Nat} {d₁ d d' : Device} {a : DeviceAct}

/-- The state that a `QHGPU_IOC_SET_MMAP` with result 0 leaves. -/
theorem sessionInv_setMmap {env : SetMmapEnv} (hinv : BuffersInv d)
    (hfresh : env.Fresh n d.buffers) (hret : (qhgpuSetMmap d n env).1 = 0)
    (hclear : ∀ i : Nat, i < n → env.checker i = 0) (hfirst : n = 0 ∨ d.mmapCount = 0) :
    SessionInv n (qhgpuSetMmap d n env).2 n (qhgpuSetMmap d n env).2 := by
  have hnone : (qhgpuSetMmap d n env).2.mapped (qhgpuSetMmap d n env).2 = [] := by
    rw [Device.mapped, List.drop_length]
  have hlen := (fillAddrs_spec env.freePages 0 n env.mmapAddrs).2.2.2 hret
  constructor
  · rfl
  · exact hinv.step (.setMmap hfresh)
  · change (d.buffers ++ _).length = d.buffers.length + n
    rw [List.length_append, hlen]
  · intro h
    cases h
  · exact Nat.le_refl _
  · rw [hnone, List.append_nil]
  · rw [hnone, List.length_nil, Nat.zero_add]
  · intro hpos
    rw [hnone, List.length_nil]
    rcases hfirst with rfl | hzero
    · cases hpos
    · exact hzero
  · intro i v hv
    rw [hnone] at hv
    cases hv
  · intro i hi hbusy
    exact absurd (hclear i hi) hbusy
  · intro r hle hlt
    exact absurd hlt (Nat.not_lt.mpr hle)

/-- A mapping of the daemon takes the next slot. -/
theorem SessionInv.mmap (h : SessionInv n d₁ (left + 1) d) {npages pgoff : Nat}
    {addrs : Nat → Word} (haddrs : d.mmapAddrArr = some addrs) (hn : 0 < npages)
    (hoff : pgoff < 2 ^ 52) :
    SessionInv n d₁ left (d.bind npages pgoff (addrs d.mmapCount)) := by
  have hcount := h.next (Nat.succ_pos left)
  have hlt : d.first + d.mmapCount < d.buffers.length := by
    have := h.count
    have := h.filled
    omega
  have hmapped : d₁.mapped (d.bind npages pgoff (addrs d.mmapCount)) =
      d₁.mapped d ++ [⟨pgoff, npages, addrs d.mmapCount, d.mmapCount,
        some (d.first + d.mmapCount)⟩] := by
    rw [Device.mapped, Device.bind]
    dsimp only
    rw [if_pos hlt, List.drop_append_of_le_length, Device.mapped]
    rw [h.vmas, List.length_append]
    omega
  constructor
  · exact h.moduleCnt
  · exact h.buffers.step (.mmap hn hoff haddrs)
  · exact h.filled
  · exact h.table
  · exact h.nextReq_le
  · rw [hmapped, ← List.append_assoc, ← h.vmas, Device.bind]
    dsimp only
    rw [if_pos hlt]
  · rw [hmapped, List.length_append, List.length_singleton]
    have := h.count
    omega
  · intro _
    rw [hmapped, List.length_append, List.length_singleton, ← hcount]
    rfl
  · intro i v hv
    rw [hmapped] at hv
    change v.index = i ∧ v.slot = some (d.first + i) ∧
      Function.update d.kernel.kmmapAddrArr d.mmapCount (addrs d.mmapCount) i = v.privateData
    by_cases hi : i < (d₁.mapped d).length
    · rw [List.getElem?_append_left hi] at hv
      rw [Function.update_of_ne (by omega)]
      exact h.bound i v hv
    · rw [List.getElem?_append_right (by omega), List.getElem?_singleton] at hv
      obtain ⟨hzero, hv⟩ := Option.ite_none_right_eq_some.mp hv
      obtain rfl := Option.some.inj hv
      have hi : i = d.mmapCount := by omega
      subst hi
      exact ⟨rfl, rfl, Function.update_self ..⟩
  · exact h.free
  · intro r hle hlt
    obtain ⟨i, v, hv, hreq⟩ := h.requests r hle hlt
    refine ⟨i, v, ?_, hreq⟩
    rw [hmapped, List.getElem?_append_left]
    · exact hv
    · exact (List.getElem?_eq_some_iff.mp hv).1

/-- A step of a client. -/
theorem SessionInv.kernel (h : SessionInv n d₁ left d) {a : Act} {k : State}
    (hok : SessionOk d₁ d (.kernel a)) (hk : step d.kernel a = some k) :
    SessionInv n d₁ left { d with kernel := k } := by
  have htrans := trans_of_step hk
  obtain ⟨hcnt, harr⟩ := htrans.slots_fixed
  have hle := htrans.nextReq_le
  refine ⟨hcnt.trans h.moduleCnt, h.buffers.step (.kernel hk), h.filled, h.table,
    Nat.le_trans h.nextReq_le hle, h.vmas, h.count, h.next, ?_, ?_, ?_⟩
  · intro i v hv
    dsimp only
    rw [harr]
    exact h.bound i v hv
  · intro i hi hbusy
    rcases htrans.occupied hbusy with hbusy | ⟨hlt, hid⟩
    · obtain ⟨r, hle₁, hlt, hid⟩ := h.free i hi hbusy
      refine ⟨r, hle₁, Nat.lt_of_lt_of_le hlt hle, ?_⟩
      rw [← hid]
      exact (htrans.slot_eq hlt).1
    · exact ⟨d.kernel.nextReq, h.nextReq_le, hlt, hid⟩
  · intro r hle₁ hlt
    by_cases hold : r < d.kernel.nextReq
    · obtain ⟨hid, haddr⟩ := htrans.slot_eq hold
      obtain ⟨i, v, hv, hi, hdata⟩ := h.requests r hle₁ hold
      exact ⟨i, v, hv, hid.trans hi, haddr.trans hdata⟩
    · dsimp only at hlt
      cases a with
      | alloc dataSize serviceName obj =>
        obtain ⟨hnext, hid, haddr⟩ := alloc_request hk
        rw [hnext] at hlt
        obtain rfl := Nat.eq_of_lt_succ_of_not_lt hlt hold
        have hm : (d₁.mapped d).length ≤ d.kernel.moduleCnt := by
          have := h.count
          have := h.moduleCnt
          omega
        obtain ⟨i, hi, heq⟩ := mmapId_lt hm hok
        rw [heq] at hid haddr
        refine ⟨i, (d₁.mapped d)[i], List.getElem?_eq_getElem hi, hid, haddr.trans ?_⟩
        exact (h.bound i _ (List.getElem?_eq_getElem hi)).2.2
      | _ =>
        rw [(htrans.checker_cases rfl).1] at hlt
        exact absurd hlt hold

/-- A step of the session; `left'` is the number of mappings still to come after it. -/
theorem SessionInv.step {left' : Nat} (h : SessionInv n d₁ left d) (hok : SessionOk d₁ d a)
    (ha : a.isSetMmap = false) (hleft : left = left' + if a.isMmap then 1 else 0)
    (hstep : DeviceTrans d a d') : SessionInv n d₁ left' d' := by
  have hbuffers := h.buffers.step hstep
  cases hstep with
  | setMmap => cases ha
  | mmap hn hoff haddrs =>
    subst hleft
    exact h.mmap haddrs hn hoff
  | setGpuBufs =>
    subst hleft
    exact ⟨h.moduleCnt, hbuffers, h.filled, h.table, h.nextReq_le, h.vmas,
      h.count, h.next, h.bound, h.free, h.requests⟩
  | kernel hk =>
    subst hleft
    exact h.kernel hok hk

private theorem SessionInv.run {acts : List DeviceAct} (h : SessionInv n d₁ left d)
    (hinit : InitMmap left acts) (hok : StepRun.Meets deviceStep (SessionOk d₁) d acts)
    (hrun : StepRun.run deviceStep d acts = some d') :
    SessionInv n d₁ 0 d' ∧ StepRun.Always deviceStep (RequestsBound d₁) d acts := by
  induction acts generalizing d left with
  | nil =>
    obtain rfl := Option.some.inj hrun
    have hleft := congrArg List.length hinit.1
    rw [List.length_replicate] at hleft
    obtain rfl : left = 0 := hleft.symm
    exact ⟨h, h.requests⟩
  | cons a acts ih =>
    obtain ⟨hfilter, hset⟩ := hinit
    obtain ⟨e, hstep, hrest⟩ := StepRun.run_cons_iff.mp hrun
    obtain ⟨left', hleft, hinit'⟩ : ∃ left', left = left' + (if a.isMmap then 1 else 0) ∧
        InitMmap left' acts := by
      have hset' : ∀ b ∈ acts, b.isSetMmap = false :=
        fun b hb ↦ hset b (List.mem_cons_of_mem a hb)
      rw [List.filter_cons] at hfilter
      split at hfilter
      · next hmmap =>
        cases left with
        | zero => cases hfilter
        | succ left =>
          rw [List.replicate_succ] at hfilter
          exact ⟨left, by rw [if_pos hmmap], (List.cons.inj hfilter).2, hset'⟩
      · next hmmap => exact ⟨left, by rw [if_neg hmmap]; rfl, hfilter, hset'⟩
    have hnext := h.step hok.1 (hset a List.mem_cons_self) hleft (deviceTrans_of_step hstep)
    obtain ⟨hlast, halways⟩ := ih hnext hinit' (hok.2 e hstep) hrest
    refine ⟨hlast, h.requests, ?_⟩
    intro e' he'
    obtain rfl := Option.some.inj (hstep.symm.trans he')
    exact halways

private theorem SessionInv.setUp (h : SessionInv n d₁ 0 d) : SetUp n d₁ d := by
  have hlen := h.count
  have hbound (i : Nat) (hi : i < n) : ∃ v, (d₁.mapped d)[i]? = some v ∧
      v.slot = some (d.first + i) ∧ d.buffers[d.first + i]? = some v.privateData ∧
      d.kernel.kmmapAddrArr i = v.privateData := by
    have hget := List.getElem?_eq_getElem (l := d₁.mapped d) (show i < _ by omega)
    obtain ⟨_, hslot, haddr⟩ := h.bound i _ hget
    refine ⟨_, hget, hslot, h.buffers.bound _ ?_ _ hslot, haddr⟩
    exact List.mem_of_mem_drop (List.mem_of_getElem? hget)
  constructor
  · exact h.free
  · intro v hv
    obtain ⟨i, hi, hget⟩ := List.mem_iff_getElem.mp hv
    rw [(h.bound i v (List.getElem?_eq_some_iff.mpr ⟨hi, hget⟩)).1]
    omega
  · intro i hi
    obtain ⟨v, hv, hslot, hbuf, haddr⟩ := hbound i hi
    exact ⟨v, d.first + i, hv, hslot, hbuf, haddr⟩
  · intro i j hi hj heq
    obtain ⟨v, _, _, hbuf, haddr⟩ := hbound i hi
    obtain ⟨w, _, _, hbuf', haddr'⟩ := hbound j hj
    rw [haddr, haddr'] at heq
    obtain ⟨hlt, _⟩ := List.getElem?_eq_some_iff.mp hbuf
    rw [heq, ← hbuf'] at hbuf
    have := (List.getElem?_inj hlt h.buffers.nodup).mp hbuf
    omega

private theorem buffersInv_of_run {acts : List DeviceAct}
    (h : StepRun.run deviceStep .load acts = some d) : BuffersInv d :=
  StepRun.run_invariant_of_step (I := BuffersInv)
    (fun _ _ _ hs hstep ↦ hs.step (deviceTrans_of_step hstep)) buffersInv_load h

/-- After any history: when the entries of `module_active_checker` come cleared, no mapping
was made before, and every allocation in between finds a slot that is bound, the set-up
leaves the two numberings in step. -/
theorem setUp_of_meets {history acts : List DeviceAct} {d₀ d₁ d₂ : Device} {env : SetMmapEnv}
    (hhistory : StepRun.run deviceStep .load history = some d₀)
    (hset : deviceStep d₀ (.setMmap n env) = some d₁) (hret : (qhgpuSetMmap d₀ n env).1 = 0)
    (hrun : StepRun.run deviceStep d₁ acts = some d₂) (hinit : InitMmap n acts)
    (hclear : ∀ i : Nat, i < n → env.checker i = 0) (hfirst : n = 0 ∨ d₀.mmapCount = 0)
    (hok : StepRun.Meets deviceStep (SessionOk d₁) d₁ acts) :
    SetUp n d₁ d₂ ∧ StepRun.Always deviceStep (RequestsBound d₁) d₁ acts := by
  rw [deviceStep, Option.ite_none_right_eq_some] at hset
  obtain ⟨⟨_, hfresh⟩, hset⟩ := hset
  obtain rfl := Option.some.inj hset
  have hinv := sessionInv_setMmap (buffersInv_of_run hhistory) hfresh hret hclear hfirst
  obtain ⟨hlast, halways⟩ := hinv.run hinit hok hrun
  exact ⟨hlast.setUp, halways⟩

/-- The first session after the load, with two slots and a request allocated after the first
mapping. -/
theorem setUp_of_meets_two : ∃ d₁ d₂, StepRun.run deviceStep d₁ [.mmap 1024 0,
      .kernel (.alloc 1 [] (some (fieldsWith 0, 0))), .mmap 1024 0] = some d₂ ∧
    SetUp 2 d₁ d₂ ∧ StepRun.Always deviceStep (RequestsBound d₁) d₁ [.mmap 1024 0,
      .kernel (.alloc 1 [] (some (fieldsWith 0, 0))), .mmap 1024 0] := by
  have hload : StepRun.run deviceStep .load [] = some .load := rfl
  have hset := deviceStep_setMmap (d := .load) (n := 2) (by decide) fresh_clearedEnv
  refine ⟨_, _, rfl, setUp_of_meets hload hset rfl rfl ⟨rfl, ?_⟩ (fun _ _ ↦ rfl) (Or.inr rfl) ?_⟩
  · simp [DeviceAct.isSetMmap]
  · refine ⟨trivial, fun d hd ↦ ?_⟩
    obtain rfl := Option.some.inj hd
    exact ⟨Or.inl ⟨0, by decide, rfl⟩, fun _ _ ↦ ⟨trivial, fun _ _ ↦ trivial⟩⟩

/-- When the memory of `module_active_checker` is not clear, the slots are not free. -/
theorem not_setUp_dirty : ¬∀ (n : Nat) (history acts : List DeviceAct) (d₀ d₁ d₂ : Device)
    (env : SetMmapEnv), StepRun.run deviceStep .load history = some d₀ →
      deviceStep d₀ (.setMmap n env) = some d₁ → (qhgpuSetMmap d₀ n env).1 = 0 →
      StepRun.run deviceStep d₁ acts = some d₂ → InitMmap n acts →
      SetUp n d₁ d₂ ∧ StepRun.Always deviceStep (RequestsBound d₁) d₁ acts := by
  intro hall
  let env := { clearedEnv 0xffff888000400000#64 with checker := fun _ ↦ 1 }
  have hset : deviceStep .load (.setMmap 2 env) = _ :=
    deviceStep_setMmap (by decide) fresh_clearedEnv
  have h := hall 2 [] [.mmap 1024 0, .mmap 1024 0] _ _ _ _ rfl hset rfl rfl
    ⟨rfl, by simp [DeviceAct.isSetMmap]⟩
  obtain ⟨r, _, hlt, _⟩ := h.1.free 0 (by decide) (by decide)
  exact absurd hlt (Nat.not_lt_zero r)

end QHGPU.Kernel
