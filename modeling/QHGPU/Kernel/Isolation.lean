import QHGPU.Kernel.Mapping
import QHGPU.Library.StepRun

/-!
# Whose pages a mapping shows

`vm_fault` adds the page offset of the fault to the address the mapping was bound to and
compares it with nothing. Pages stay inside the buffer of the slot for exactly the mappings
that were short enough and had a slot.
-/

namespace QHGPU.Kernel

/-- A fault can happen at this page offset. -/
def Vma.Covers (v : Vma) (pg : Nat) : Prop := v.pgoff ≤ pg ∧ pg < v.pgoff + v.npages

/-- The frame is one of the `2^10` of the buffer at `a`. -/
def InBufferPages (a : Word) (p : Nat) : Prop :=
  virtToPage a ≤ p ∧ p < virtToPage a + 2 ^ 10

/-- Every fault fails or installs a page of the buffer of the slot, no page twice in one
mapping, and none in the mappings of two slots. -/
structure Isolated (d : Device) : Prop where
  own_page : ∀ v ∈ d.vmas, ∀ pg p, v.Covers pg → vmFault v pg = some p →
    ∃ b a, v.slot = some b ∧ d.buffers[b]? = some a ∧ InBufferPages a p
  distinct_offsets : ∀ v ∈ d.vmas, ∀ pg pg' p, v.Covers pg → v.Covers pg' →
    vmFault v pg = some p → vmFault v pg' = some p → pg = pg'
  distinct_slots : ∀ v ∈ d.vmas, ∀ w ∈ d.vmas, v.slot ≠ w.slot → ∀ pg pg' p q, v.Covers pg →
    w.Covers pg' → vmFault v pg = some p → vmFault w pg' = some q → p ≠ q

/-- A mapping ends inside `2^10` pages and its slot has a buffer, or the memory read for its
address holds a null pointer. -/
def MmapOk (d : Device) : DeviceAct → Prop
  | .mmap npages pgoff =>
    (d.first + d.mmapCount < d.buffers.length ∧ pgoff + npages ≤ 2 ^ 10) ∨
      ∀ addrs, d.mmapAddrArr = some addrs → addrs d.mmapCount = 0
  | _ => True

/-- A mapping that shows no page, or a part of its buffer. -/
def Vma.Inside (v : Vma) : Prop :=
  v.privateData = 0 ∨ v.slot ≠ none ∧ v.pgoff + v.npages ≤ 2 ^ 10

private theorem bufferBytes_eq : bufferBytes = 4194304 := rfl

/-- The page that a fault installs in a mapping of a buffer. -/
theorem vmFault_of_aligned {v : Vma} {pg : Nat} {p : Nat}
    (ha : v.privateData.toNat % bufferBytes = 0) (hpg : pg < 2 ^ 10)
    (h : vmFault v pg = some p) : p = virtToPage v.privateData + pg := by
  rw [vmFault, Option.ite_none_left_eq_some] at h
  obtain ⟨_, h⟩ := h
  obtain rfl := Option.some.inj h
  have hlt := v.privateData.isLt
  rw [bufferBytes_eq] at ha
  simp only [virtToPage, BitVec.toNat_add, BitVec.toNat_shiftLeft, BitVec.toNat_ofNat,
    Nat.shiftLeft_eq, pageShift]
  omega

/-- Two buffers that share a frame are the same. -/
theorem eq_of_inBufferPages {a a' : Word} {p : Nat} (ha : a.toNat % bufferBytes = 0)
    (ha' : a'.toNat % bufferBytes = 0) (hp : InBufferPages a p) (hp' : InBufferPages a' p) :
    a = a' := by
  apply BitVec.eq_of_toNat_eq
  rw [bufferBytes_eq] at ha ha'
  simp only [InBufferPages, virtToPage, pageShift] at hp hp'
  omega

variable {d d' : Device} {a : DeviceAct}

/-- A page that a mapping inside its buffer shows. -/
theorem Vma.Inside.page {v : Vma} (hv : v.Inside) (hinv : BuffersInv d) (hmem : v ∈ d.vmas)
    {pg : Nat} {p : Nat} (hpg : v.Covers pg) (h : vmFault v pg = some p) :
    ∃ b, v.slot = some b ∧ d.buffers[b]? = some v.privateData ∧
      v.privateData.toNat % bufferBytes = 0 ∧ p = virtToPage v.privateData + pg ∧
      InBufferPages v.privateData p := by
  rcases hv with hnull | ⟨hslot, hend⟩
  · rw [vmFault, if_pos hnull] at h
    cases h
  · obtain ⟨b, hb⟩ := Option.ne_none_iff_exists'.mp hslot
    have hbuf := hinv.bound v hmem b hb
    have haligned := hinv.aligned _ (List.mem_of_getElem? hbuf)
    have hlt : pg < 2 ^ 10 := Nat.lt_of_lt_of_le hpg.2 hend
    have hp := vmFault_of_aligned haligned hlt h
    refine ⟨b, hb, hbuf, haligned, hp, ?_⟩
    rw [InBufferPages]
    omega

private theorem isolated_of_inside (hinv : BuffersInv d) (hall : ∀ v ∈ d.vmas, v.Inside) :
    Isolated d where
  own_page v hv pg p hpg h := by
    obtain ⟨b, hslot, hbuf, _, _, hin⟩ := (hall v hv).page hinv hv hpg h
    exact ⟨b, v.privateData, hslot, hbuf, hin⟩
  distinct_offsets v hv pg pg' p hpg hpg' h h' := by
    obtain ⟨_, _, _, _, heq, _⟩ := (hall v hv).page hinv hv hpg h
    obtain ⟨_, _, _, _, heq', _⟩ := (hall v hv).page hinv hv hpg' h'
    omega
  distinct_slots v hv w hw hne pg pg' p q hpg hpg' h h' := by
    obtain ⟨b, hslot, hbuf, ha, _, hin⟩ := (hall v hv).page hinv hv hpg h
    obtain ⟨b', hslot', hbuf', ha', _, hin'⟩ := (hall w hw).page hinv hw hpg' h'
    rintro rfl
    have heq := eq_of_inBufferPages ha ha' hin hin'
    apply hne
    obtain ⟨hlt, _⟩ := List.getElem?_eq_some_iff.mp hbuf
    rw [heq, ← hbuf'] at hbuf
    rw [hslot, hslot', (List.getElem?_inj hlt hinv.nodup).mp hbuf]

/-- A mapping that is not inside its buffer shows a page outside it. -/
theorem inside_of_isolated (hinv : BuffersInv d) (h : Isolated d) {v : Vma} (hv : v ∈ d.vmas)
    (hn : 0 < v.npages) (hoff : v.pgoff < 2 ^ 52) : v.Inside := by
  by_cases hnull : v.privateData = 0
  · exact Or.inl hnull
  · have hfault (pg : Nat) : vmFault v pg = some _ := if_neg hnull
    obtain ⟨b, a, hslot, hbuf, _⟩ :=
      h.own_page v hv v.pgoff _ ⟨Nat.le_refl _, by omega⟩ (hfault v.pgoff)
    refine Or.inr ⟨by simp [hslot], ?_⟩
    by_contra hend
    -- the first page past the buffer, or the first of the mapping when that is later
    have hcov : v.Covers (max v.pgoff (2 ^ 10)) := ⟨by omega, by omega⟩
    obtain ⟨b', a', hslot', hbuf', hin⟩ := h.own_page v hv _ _ hcov (hfault _)
    have hdata := hinv.bound v hv b' hslot'
    rw [hbuf'] at hdata
    obtain rfl := Option.some.inj hdata
    have haligned := hinv.aligned _ (List.mem_of_getElem? hbuf')
    have hlt := v.privateData.isLt
    rw [bufferBytes_eq] at haligned
    simp only [InBufferPages, virtToPage, BitVec.toNat_add, BitVec.toNat_shiftLeft,
      BitVec.toNat_ofNat, Nat.shiftLeft_eq, pageShift] at hin
    omega

/-- What isolation rests on. -/
structure IsolationInv (d : Device) : Prop where
  buffers : BuffersInv d
  inside : ∀ v ∈ d.vmas, v.Inside

/-- The mapping of a call that meets the condition is inside its buffer. -/
theorem inside_bind {npages pgoff : Nat} {addrs : Nat → Word}
    (haddrs : d.mmapAddrArr = some addrs) (hok : MmapOk d (.mmap npages pgoff)) :
    Vma.Inside ⟨pgoff, npages, addrs d.mmapCount, d.mmapCount,
      if d.first + d.mmapCount < d.buffers.length then some (d.first + d.mmapCount)
      else none⟩ := by
  rcases hok with ⟨hlt, hend⟩ | hnull
  · exact Or.inr ⟨by simp [hlt], hend⟩
  · exact Or.inl (hnull addrs haddrs)

private theorem IsolationInv.step (h : IsolationInv d) (hok : MmapOk d a)
    (hstep : DeviceTrans d a d') :
    IsolationInv d' := by
  refine ⟨h.buffers.step hstep, ?_⟩
  cases hstep with
  | mmap _ _ haddrs =>
    intro v hv
    rcases List.mem_append.mp hv with hv | hv
    · exact h.inside v hv
    · obtain rfl := List.mem_singleton.mp hv
      exact inside_bind haddrs hok
  | setMmap | setGpuBufs | kernel => exact h.inside

/-- A call that misses the condition ends isolation. -/
theorem not_isolated_of_step (h : IsolationInv d) (hok : ¬MmapOk d a)
    (hstep : DeviceTrans d a d') : ¬Isolated d' := by
  have hinv := h.buffers.step hstep
  cases hstep with
  | @mmap npages pgoff addrs hn hoff haddrs =>
    intro hiso
    apply hok
    have hin := inside_of_isolated hinv hiso
      (List.mem_append_right d.vmas (List.mem_singleton_self _)) hn hoff
    rcases hin with hnull | ⟨hslot, hend⟩
    · refine Or.inr ?_
      intro addrs' haddrs'
      obtain rfl := Option.some.inj (haddrs.symm.trans haddrs')
      exact hnull
    · refine Or.inl ⟨?_, hend⟩
      by_contra hlt
      exact hslot (if_neg hlt)
  | setMmap | setGpuBufs | kernel => exact absurd trivial hok

/-- In a run from the load of the module, mappings are isolated in every state exactly when
every `mmap` call meets `MmapOk`. -/
theorem isolated_iff (acts : List DeviceAct) (d : Device)
    (h : StepRun.run deviceStep .load acts = some d) :
    StepRun.Always deviceStep Isolated .load acts ↔ StepRun.Meets deviceStep MmapOk .load acts := by
  have hload : IsolationInv .load := ⟨buffersInv_load, fun v hv ↦ by cases hv⟩
  refine StepRun.always_iff_meets (I := IsolationInv)
    (fun _ hs ↦ isolated_of_inside hs.buffers hs.inside) ?_ ?_ hload h
  · intro s a s' hs hok hstep
    exact hs.step hok (deviceTrans_of_step hstep)
  · intro s a s' hs hok hstep
    exact not_isolated_of_step hs hok (deviceTrans_of_step hstep)

/-- Two slots, bound by a mapping of the whole buffer and one of its last page. -/
theorem isolated_iff_two : StepRun.Always deviceStep Isolated .load
    [.setMmap 2 (clearedEnv 0xffff888000400000#64), .mmap 1024 0, .mmap 1 1023] := by
  have hset := deviceStep_setMmap (d := .load) (n := 2) (by decide) fresh_clearedEnv
  refine (isolated_iff [.setMmap 2 (clearedEnv 0xffff888000400000#64), .mmap 1024 0,
    .mmap 1 1023] _ (StepRun.run_cons_iff.mpr ⟨_, hset, rfl⟩)).mpr ?_
  refine StepRun.meets_cons trivial hset ?_
  refine ⟨Or.inl ⟨by decide, by decide⟩, fun d hd ↦ ?_⟩
  obtain rfl := Option.some.inj hd
  exact ⟨Or.inl ⟨by decide, by decide⟩, fun _ _ ↦ trivial⟩

/-- One page more than the buffer has: the fault at page offset 1024 installs the page behind
the buffer. -/
theorem not_isolated_long : ¬∀ (acts : List DeviceAct) (d : Device),
    StepRun.run deviceStep .load acts = some d →
      StepRun.Always deviceStep Isolated .load acts := by
  intro hall
  have hset := deviceStep_setMmap (d := .load) (n := 2) (by decide) fresh_clearedEnv
  have h := hall [.setMmap 2 (clearedEnv 0xffff888000400000#64), .mmap 1025 0] _
    (StepRun.run_cons_iff.mpr ⟨_, hset, rfl⟩)
  have hlast := (h.2 _ hset).2 _ rfl
  obtain ⟨b, a, hslot, hbuf, hin⟩ := hlast.own_page _ (List.mem_singleton_self _) 1024 _
    ⟨by decide, by decide⟩ rfl
  obtain rfl := Option.some.inj hslot
  obtain rfl := Option.some.inj hbuf
  revert hin
  unfold InBufferPages
  decide

end QHGPU.Kernel
