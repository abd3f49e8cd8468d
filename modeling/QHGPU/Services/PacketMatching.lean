import Mathlib.Data.Fintype.Prod
import QHGPU.Base.OpenCL
import QHGPU.Library.OneShot
import QHGPU.Services.Firewall

/-!
# Packet matching

The kernel `src/kernel/gpu_firewall_Kernels.cl`, the buffers of `run_gpu_firewall`,
`src/test_module/gpu_firewall/lib/cl_gpu_firewall.c:49–83`, and the hook of the module that
matches on the CPU, `src/test_module/cpu_firewall/cpu_firewall_module.c:2088–2166`.
-/

namespace QHGPU.Firewall

open WorkItems (Prog Launch Stays Fine load store)

/-! ### The kernel -/

/-- What the kernel accesses: `packet_buff[idx]` and `rules[i]`. -/
inductive Place where
  | packet (idx : Nat)
  | rule (i : Nat)
  deriving DecidableEq

/-- The loop of `packet_matching` over the rules, `src/kernel/gpu_firewall_Kernels.cl:9–14`. -/
def matchRules (idx : Nat) : List Nat → Prog Place (BitVec 32) Unit
  | [] => pure ()
  | i :: is => do
    let packet ← load (.packet idx)
    let rule ← load (.rule i)
    if packet = rule then store (.packet idx) 1 else matchRules idx is

/-- The index that an item of the range `globalThreads = {32, 32}` computes,
`src/kernel/gpu_firewall_Kernels.cl:3–6`. -/
def packetBuffIndex (item : Fin 32 × Fin 32) : Nat := item.2 * 16 + item.1

/-- `packet_matching`, `src/kernel/gpu_firewall_Kernels.cl:1–18`. -/
def packetMatching (packetBuffSize : Nat) (item : Fin 32 × Fin 32) :
    Prog Place (BitVec 32) Unit := do
  let idx := packetBuffIndex item
  if idx < packetBuffSize then do
    matchRules idx (List.range 2048)
    let packet ← load (.packet idx)
    if packet ≠ 1 then store (.packet idx) 0

/-- The work-groups, `localThreads = {16, 8}`,
`src/test_module/gpu_firewall/lib/cl_gpu_firewall.c:56–60`. -/
def workGroup (item : Fin 32 × Fin 32) : Nat × Nat := (item.1 / 16, item.2 / 8)

example : rangeAccepted 32 16 && rangeAccepted 32 8 := by decide

/-! ### The host -/

/-- Word `j` of a table of `unsigned long`, eight bytes each, little-endian. -/
def ruleWord (table : Nat → BitVec 64) (j : Nat) : BitVec 32 :=
  (table (j / 2)).extractLsb' (32 * (j % 2)) 32

/-- Inside the buffers of `128*sizeof(int)` and of `2048*sizeof(unsigned long)` bytes,
`src/test_module/gpu_firewall/lib/cl_gpu_firewall.c:62–65`. -/
def InBuffers : Place → Prop
  | .packet idx => idx < 128
  | .rule i => i < 4096

/-- The device after the two writes, `src/test_module/gpu_firewall/lib/cl_gpu_firewall.c:73–74`;
`other` is what it holds elsewhere. -/
def written (table : Nat → BitVec 64) (sipBuff : Nat → BitVec 32) (other : Place → BitVec 32) :
    Place → BitVec 32
  | .packet idx => if idx < 128 then sipBuff idx else other (.packet idx)
  | .rule i => if i < 4096 then ruleWord table i else other (.rule i)

/-- `sip_buff` after the read, `src/test_module/gpu_firewall/lib/cl_gpu_firewall.c:76`. -/
def readBack (sipBuff : Nat → BitVec 32) (m : Place → BitVec 32) (idx : Nat) : BitVec 32 :=
  if idx < 128 then m (.packet idx) else sipBuff idx

/-- `do_work`, that is `run_gpu_firewall`,
`src/test_module/gpu_firewall/lib/cl_gpu_firewall.c:49–83`, can leave `after` in `sip_buff`. -/
def DoWork (table : Nat → BitVec 64) (packetBuffSize : Nat) (sipBuff after : Nat → BitVec 32) :
    Prop :=
  ∃ other m, Launch workGroup (packetMatching packetBuffSize) (written table sipBuff other) m ∧
    after = readBack sipBuff m

/-! ### The CPU -/

/-- `main_hook`, `src/test_module/cpu_firewall/cpu_firewall_module.c:2088–2166`, less its clock.
`saddr` is widened to `unsigned long`. -/
def mainHook (badAddress : Nat → BitVec 64) (protocol : Nat) (saddr : BitVec 32) : Verdict :=
  if protocol = tcp ∨ protocol = udp then
    if (List.range 2048).any fun i ↦ saddr.setWidth 64 == badAddress i then .nfDrop
    else .nfAccept
  else .nfAccept

/-- The address occurs in the table. -/
def Occurs (table : Nat → BitVec 64) (saddr : BitVec 32) : Prop :=
  ∃ i < 2048, saddr.setWidth 64 = table i

/-- `main_hook` drops the packets from an address in the table. -/
theorem mainHook_eq_nfDrop_iff {table : Nat → BitVec 64} {protocol : Nat}
    (h : protocol = tcp ∨ protocol = udp) (saddr : BitVec 32) :
    mainHook table protocol saddr = .nfDrop ↔ Occurs table saddr := by
  rw [mainHook, if_pos h]
  simp [Occurs]

/-! ### Both agree -/

/-- The accesses stay in the buffers, `do_work` returns, and in every order of the work-items
the packets dropped are those that `main_hook` drops. -/
structure Agree (table : Nat → BitVec 64) (n : Nat) (sipBuff : Nat → BitVec 32) : Prop where
  stays : ∀ other, Stays workGroup (packetMatching n) (written table sipBuff other) InBuffers
  returns : ∃ after, DoWork table n sipBuff after
  drops : ∀ after, DoWork table n sipBuff after → ∀ p < n,
    (after p ≠ 0 ↔ Occurs table (sipBuff p)) ∧
    ∀ protocol, protocol = tcp ∨ protocol = udp →
      (after p ≠ 0 ↔ mainHook table protocol (sipBuff p) = .nfDrop)

/-- The value is one of the 2048 words that the kernel compares with. -/
def Word (table : Nat → BitVec 64) (a : BitVec 32) : Prop := ∃ j < 2048, ruleWord table j = a

/-- A visit of the kernel stores 1, or leaves it. -/
def Flagged (table : Nat → BitVec 64) (a : BitVec 32) : Prop := a = 1 ∨ Word table a

variable {table : Nat → BitVec 64} {n : Nat} {sipBuff : Nat → BitVec 32}
  {other m : Place → BitVec 32} {item : Fin 32 × Fin 32} {idx : Nat}

/-- The words of the table on the device. -/
theorem written_rule {j : Nat} (hj : j < 2048) :
    written table sipBuff other (.rule j) = ruleWord table j := by
  rw [written, if_pos (by omega)]

/-- The addresses on the device. -/
theorem written_packet (hidx : idx < 128) :
    written table sipBuff other (.packet idx) = sipBuff idx := by
  rw [written, if_pos hidx]

/-! ### Batches on which they agree -/

section

variable {ok : Place → Prop} {mine : Set Place} {old new : Place → BitVec 32} {seen : Set Place}

/-- A visit of a packet that is flagged: it is 1, or the loop stores 1. -/
theorem fine_matchRules_flagged (hok : ok (.packet idx)) (hnew : new (.packet idx) = 1)
    {is : List Nat} (hrule : ∀ j ∈ is, ok (.rule j) ∧ new (.rule j) = old (.rule j))
    (hmatch : .packet idx ∈ seen ∨ old (.packet idx) = 1 ∨
      ∃ j ∈ is, old (.rule j) = old (.packet idx)) :
    Fine ok mine old new (fun seen _ ↦ .packet idx ∈ seen ∨ old (.packet idx) = 1) seen
      (matchRules idx is) := by
  induction is generalizing seen with
  | nil => simpa [matchRules] using hmatch
  | cons j is ih =>
    obtain ⟨⟨hokj, hj⟩, hrest⟩ := List.forall_mem_cons.mp hrule
    have later (seen : Set Place) (packet rule : BitVec 32)
        (h : .packet idx ∈ seen ∨ packet = old (.packet idx) ∧ rule = old (.rule j) ∧
          (old (.packet idx) = 1 ∨ ∃ i ∈ j :: is, old (.rule i) = old (.packet idx))) :
        Fine ok mine old new (fun seen _ ↦ .packet idx ∈ seen ∨ old (.packet idx) = 1) seen
          (if packet = rule then store (.packet idx) 1 else matchRules idx is) := by
      split
      · next heq => simp [hok, hnew]
      · next hne =>
        apply ih hrest
        rcases h with hin | ⟨rfl, rfl, hone | ⟨i, hi, heq⟩⟩
        · exact Or.inl hin
        · exact Or.inr (Or.inl hone)
        · rcases List.mem_cons.mp hi with rfl | hi
          · exact absurd heq.symm hne
          · exact Or.inr (Or.inr ⟨i, hi, heq⟩)
    rw [matchRules, WorkItems.load_bind, WorkItems.fine_get]
    refine ⟨hok, fun _ ↦ ?_, fun hnot ↦ ?_⟩
    · refine ⟨hokj, fun _ ↦ later _ _ _ (Or.inl (by simp)), fun _ ↦ later _ _ _ (Or.inl (by simp))⟩
    · have h := hmatch.resolve_left hnot
      refine ⟨hokj, fun _ ↦ later _ _ _ (Or.inr ⟨rfl, hj, h⟩),
        fun _ ↦ later _ _ _ (Or.inr ⟨rfl, rfl, h⟩)⟩

/-- A visit of a packet that is not flagged: the loop stores nothing, before the packet is 0 and
after. -/
theorem fine_matchRules_clean (hok : ok (.packet idx)) {is : List Nat}
    (hrule : ∀ j ∈ is, ok (.rule j) ∧ new (.rule j) = old (.rule j))
    (hclean : ∀ j ∈ is, old (.rule j) ≠ old (.packet idx))
    (hagain : .packet idx ∈ mine ∨ ∀ j ∈ is, old (.rule j) ≠ new (.packet idx))
    (hseen : .packet idx ∈ mine → .packet idx ∉ seen) :
    Fine ok mine old new (fun seen _ ↦ .packet idx ∈ mine → .packet idx ∉ seen) seen
      (matchRules idx is) := by
  induction is generalizing seen with
  | nil => exact hseen
  | cons j is ih =>
    obtain ⟨⟨hokj, hj⟩, hrest⟩ := List.forall_mem_cons.mp hrule
    obtain ⟨hne, hclean⟩ := List.forall_mem_cons.mp hclean
    have hagain' : .packet idx ∈ mine ∨ ∀ j ∈ is, old (.rule j) ≠ new (.packet idx) :=
      hagain.imp_right fun h i hi ↦ h i (List.mem_cons_of_mem j hi)
    have later (seen : Set Place) (packet : BitVec 32) (hpacket : packet ≠ old (.rule j))
        (hseen : .packet idx ∈ mine → .packet idx ∉ seen) :
        Fine ok mine old new (fun seen _ ↦ .packet idx ∈ mine → .packet idx ∉ seen) seen
          (if packet = old (.rule j) then store (.packet idx) 1 else matchRules idx is) := by
      rw [if_neg hpacket]
      exact ih hrest hclean hagain' hseen
    rw [matchRules, WorkItems.load_bind, WorkItems.fine_get]
    refine ⟨hok, fun hnew ↦ ?_, fun hnot ↦ ?_⟩
    · have hother : .packet idx ∉ mine := fun hin ↦ hseen hin (hnew hin)
      have hne' : new (.packet idx) ≠ old (.rule j) :=
        (hagain.resolve_left hother j List.mem_cons_self).symm
      refine ⟨hokj, fun _ ↦ ?_, fun _ ↦ ?_⟩
      · rw [hj]
        exact later _ _ hne' fun hin ↦ absurd hin hother
      · exact later _ _ hne' fun hin ↦ absurd hin hother
    · refine ⟨hokj, fun _ ↦ ?_, fun _ ↦ ?_⟩
      · rw [hj]
        exact later _ _ hne.symm fun _ ↦ by simpa using hnot
      · exact later _ _ hne.symm fun _ ↦ hnot

end

open Classical in
/-- What the launch leaves: 1 in the entries flagged, 0 in the others. -/
noncomputable def matched (table : Nat → BitVec 64) (n : Nat) (old : Place → BitVec 32) :
    Place → BitVec 32
  | .packet idx => if idx < n then if Flagged table (old (.packet idx)) then 1 else 0
    else old (.packet idx)
  | .rule i => old (.rule i)

/-- What an item accesses. -/
def visited (n : Nat) (item : Fin 32 × Fin 32) : Set Place :=
  {l | packetBuffIndex item < n ∧
    (l = .packet (packetBuffIndex item) ∨ ∃ j < 2048, l = .rule j)}

/-- The entry that no other item visits: the first 16 have one visitor each. -/
def alone (n : Nat) (item : Fin 32 × Fin 32) : Set Place :=
  {l | packetBuffIndex item < n ∧ packetBuffIndex item < 16 ∧ l = .packet (packetBuffIndex item)}

private theorem eq_of_alone {item' : Fin 32 × Fin 32} {l : Place} (h : l ∈ alone n item)
    (h' : l ∈ visited n item') : item = item' := by
  obtain ⟨_, hlow, rfl⟩ := h
  rcases h'.2 with heq | ⟨j, _, heq⟩
  · obtain ⟨⟨x, hx⟩, ⟨y, hy⟩⟩ := item
    obtain ⟨⟨x', hx'⟩, ⟨y', hy'⟩⟩ := item'
    simp only [packetBuffIndex, Place.packet.injEq] at heq hlow
    simp only [Prod.mk.injEq, Fin.mk.injEq]
    omega
  · cases heq

/-- The visit is right when no packet is read as another: where an entry has two visitors, 0 is
no word of the table. -/
theorem fine_packetMatching (other : Place → BitVec 32) (hsmall : n ≤ 128)
    (hagain : ∀ p < n, 16 ≤ p → Flagged table (sipBuff p) ∨ ¬Word table 0)
    (item : Fin 32 × Fin 32) :
    Fine (· ∈ visited n item) (alone n item) (written table sipBuff other)
      (matched table n (written table sipBuff other))
      (fun seen _ ↦ {l | l = .packet (packetBuffIndex item) ∧ packetBuffIndex item < n ∧
        written table sipBuff other l ≠ matched table n (written table sipBuff other) l} ⊆ seen)
      ∅ (packetMatching n item) := by
  have hmem (j : Nat) : j ∈ List.range 2048 ↔ j < 2048 := List.mem_range
  rw [packetMatching]
  generalize hidx : packetBuffIndex item = idx
  generalize List.range 2048 = is at hmem
  split
  · next hlt =>
    have hold : written table sipBuff other (.packet idx) = sipBuff idx :=
      written_packet (by omega)
    have hok : .packet idx ∈ visited n item := ⟨hidx ▸ hlt, Or.inl (hidx ▸ rfl)⟩
    have hrule : ∀ j ∈ is, .rule j ∈ visited n item ∧
        matched table n (written table sipBuff other) (.rule j) =
          written table sipBuff other (.rule j) :=
      fun j hj ↦ ⟨⟨hidx ▸ hlt, Or.inr ⟨j, (hmem j).mp hj, rfl⟩⟩, rfl⟩
    rw [WorkItems.fine_bind]
    by_cases hflag : Flagged table (sipBuff idx)
    · have hnew : matched table n (written table sipBuff other) (.packet idx) = 1 := by
        rw [matched, if_pos hlt, if_pos (hold.symm ▸ hflag)]
      have hmatch : .packet idx ∈ (∅ : Set Place) ∨ written table sipBuff other (.packet idx) = 1 ∨
          ∃ j ∈ is, written table sipBuff other (.rule j) =
            written table sipBuff other (.packet idx) := by
        rw [hold]
        rcases hflag with hone | ⟨j, hj, hword⟩
        · exact Or.inr (Or.inl hone)
        · exact Or.inr (Or.inr ⟨j, (hmem j).mpr hj, (written_rule hj).trans hword⟩)
      refine (fine_matchRules_flagged hok hnew hrule hmatch).mono ?_
      intro seen _ hseen
      rw [WorkItems.load_bind, WorkItems.fine_get, hnew, if_neg (by decide)]
      refine ⟨hok, fun _ ↦ ?_, fun hnot ↦ ?_⟩
      · rintro l ⟨rfl, _⟩
        exact Set.mem_insert _ _
      · have hone := hseen.resolve_left hnot
        rw [hone, if_neg (by decide)]
        rintro l ⟨rfl, _, hne⟩
        exact absurd (hone.trans hnew.symm) hne
    · have hne : sipBuff idx ≠ 1 := fun h ↦ hflag (Or.inl h)
      have hnew : matched table n (written table sipBuff other) (.packet idx) = 0 := by
        rw [matched, if_pos hlt, if_neg (hold.symm ▸ hflag)]
      have hword (j : Nat) (hj : j ∈ is) (a : BitVec 32) (ha : ¬Word table a) :
          written table sipBuff other (.rule j) ≠ a := by
        rw [written_rule ((hmem j).mp hj)]
        exact fun h ↦ ha ⟨j, (hmem j).mp hj, h⟩
      have hzero : .packet idx ∈ alone n item ∨
          ∀ j ∈ is, written table sipBuff other (.rule j) ≠
            matched table n (written table sipBuff other) (.packet idx) := by
        by_cases hlow : idx < 16
        · exact Or.inl ⟨hidx ▸ hlt, hidx ▸ hlow, hidx ▸ rfl⟩
        · rw [hnew]
          have := (hagain idx hlt (Nat.le_of_not_lt hlow)).resolve_left hflag
          exact Or.inr fun j hj ↦ hword j hj 0 this
      refine (fine_matchRules_clean hok hrule ?_ hzero (by simp)).mono ?_
      · rw [hold]
        exact fun j hj ↦ hword j hj _ fun h ↦ hflag (Or.inr h)
      · intro seen _ _
        rw [WorkItems.load_bind, WorkItems.fine_get, hnew, hold, if_pos (by decide), if_pos hne]
        have hstored (seen : Set Place) : {l | l = .packet idx ∧ idx < n ∧
            written table sipBuff other l ≠ matched table n (written table sipBuff other) l} ⊆
            insert (.packet idx) seen := by
          rintro l ⟨rfl, _⟩
          exact Set.mem_insert _ _
        refine ⟨hok, fun _ ↦ ?_, fun _ ↦ ?_⟩
        · exact ⟨hok, hnew.symm, hstored _⟩
        · exact ⟨hok, hnew.symm, hstored _⟩
  · next hnot =>
    rintro l ⟨_, hlt, _⟩
    exact absurd hlt hnot

private theorem free_matchRules (is : List Nat) : (matchRules idx is).Free := by
  induction is with
  | nil => trivial
  | cons i is ih =>
    intro packet rule
    change (if packet = rule then store (.packet idx) 1 else matchRules idx is).Free
    split
    · trivial
    · exact ih

/-- The kernel has no barrier. -/
theorem free_packetMatching (n : Nat) (item : Fin 32 × Fin 32) : (packetMatching n item).Free := by
  rw [packetMatching]
  generalize List.range 2048 = is
  split
  · refine (free_matchRules is).bind fun _ packet ↦ ?_
    change (if packet ≠ 1 then store (Place.packet _) 0 else pure ()).Free
    split
    · trivial
    · trivial
  · trivial

/-- Both sides agree when the words of the table tell the addresses apart. -/
theorem agree_of_flagged (hsmall : n ≤ 128)
    (hflag : ∀ p < n, Flagged table (sipBuff p) ↔ Occurs table (sipBuff p))
    (hagain : ∀ p < n, 16 ≤ p → Occurs table (sipBuff p) ∨ ¬Word table 0) :
    Agree table n sipBuff := by
  have hfine (other : Place → BitVec 32) := fine_packetMatching other hsmall
    fun p hp hlow ↦ (hagain p hp hlow).imp_left (hflag p hp).mpr
  refine ⟨?_, ?_, ?_⟩
  · intro other
    refine WorkItems.stays_oneShot ?_ (fun _ _ _ ↦ eq_of_alone) (hfine other)
    rintro item l ⟨hlt, rfl | ⟨j, hj, rfl⟩⟩
    · exact hlt.trans_le hsmall
    · exact hj.trans (by decide)
  · obtain ⟨m, hm⟩ := WorkItems.exists_launch workGroup (free_packetMatching n)
      (written table sipBuff fun _ ↦ 0)
    exact ⟨_, _, m, hm, rfl⟩
  · rintro after ⟨other, m, hlaunch, rfl⟩ p hp
    have hvisit (l : Place) : written table sipBuff other l =
        matched table n (written table sipBuff other) l ∨
        ∃ item : Fin 32 × Fin 32, l ∈ {l | l = .packet (packetBuffIndex item) ∧
          packetBuffIndex item < n ∧
          written table sipBuff other l ≠ matched table n (written table sipBuff other) l} := by
      by_cases heq : written table sipBuff other l =
          matched table n (written table sipBuff other) l
      · exact Or.inl heq
      · cases l with
        | rule i => exact absurd rfl heq
        | packet idx =>
          by_cases hlt : idx < n
          · have hidx : packetBuffIndex (⟨idx % 16, by omega⟩, ⟨idx / 16, by omega⟩) = idx :=
              Nat.div_add_mod' idx 16
            exact Or.inr ⟨_, by rw [hidx], by rwa [hidx], heq⟩
          · rw [matched, if_neg hlt] at heq
            exact absurd rfl heq
    obtain rfl := WorkItems.launch_oneShot (fun _ _ _ ↦ eq_of_alone) (hfine other) hvisit hlaunch
    have hval : readBack sipBuff (matched table n (written table sipBuff other)) p ≠ 0 ↔
        Occurs table (sipBuff p) := by
      rw [← hflag p hp, readBack, if_pos (hp.trans_le hsmall), matched, if_pos hp,
        written_packet (hp.trans_le hsmall)]
      split
      · next h => exact iff_of_true (by decide) h
      · next h => exact iff_of_false (by decide) h
    exact ⟨hval, fun protocol hprotocol ↦ hval.trans (mainHook_eq_nfDrop_iff hprotocol _).symm⟩

end QHGPU.Firewall
