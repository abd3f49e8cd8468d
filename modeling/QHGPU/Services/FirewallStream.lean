import QHGPU.Services.PacketMatching

/-!
# The firewall on a stream of packets

The callbacks of `packet_buffering` with the kernel that they run: over any number of batches
the verdicts are those that `main_hook` gives packet by packet.
-/

namespace QHGPU.Firewall

variable {table : Nat → BitVec 64} {b b' : Buffers} {c : Callback} {past pending : List Packet}

/-- The id of the packet, and the verdict of the module that matches on the CPU. -/
def verdictOf (table : Nat → BitVec 64) (p : Packet) : BitVec 32 × Verdict :=
  (p.id, mainHook table p.protocol p.saddr)

/-- The words that the device compares with tell the address apart, and it is not looked at a
second time after it became 0. -/
structure Told (table : Nat → BitVec 64) (i : Nat) (saddr : BitVec 32) : Prop where
  flagged : Flagged table saddr ↔ Occurs table saddr
  again : 16 ≤ i → Occurs table saddr ∨ ¬Word table 0

/-- Both sides agree on addresses that the words tell apart. -/
theorem agree_of_told {n : Nat} {sipBuff : Nat → BitVec 32} (hsmall : n ≤ 128)
    (h : ∀ i < n, Told table i (sipBuff i)) : Agree table n sipBuff :=
  agree_of_flagged hsmall (fun i hi ↦ (h i hi).flagged) fun i hi ↦ (h i hi).again

/-- A callback on a queued packet that finds room in the buffer of the device, whose `do_work`
runs the kernel. -/
structure CallOk (table : Nat → BitVec 64) (b : Buffers) (c : Callback) : Prop where
  queued : c.packet.Queued
  room : b.uPacketBuffIndex < 128
  told : Told table b.uPacketBuffIndex c.packet.saddr
  device : DoWork table (b.uPacketBuffIndex + 1) (b.stored c.packet).sipBuff
    (c.doWork (b.stored c.packet).sipBuff (b.uPacketBuffIndex + 1))

/-- The packets are in the arrays, and the device tells each of them apart. -/
structure Held (table : Nat → BitVec 64) (b : Buffers) (pending : List Packet) : Prop where
  index : b.uPacketBuffIndex = pending.length
  ids : entries b.idBuff b.uPacketBuffIndex = pending.map Packet.id
  sips : entries b.sipBuff b.uPacketBuffIndex = pending.map Packet.saddr
  queued : ∀ p ∈ pending, p.protocol = tcp ∨ p.protocol = udp
  told : ∀ i (h : i < pending.length), Told table i pending[i].saddr

/-- The packets of `past` have the verdicts of `main_hook`, but for those still in the arrays. -/
structure Streamed (table : Nat → BitVec 64) (past : List Packet) (b : Buffers)
    (pending : List Packet) : Prop extends Held table b pending where
  verdicts : b.flushes.flatMap Flush.verdicts ++ pending.map (verdictOf table) =
    past.map (verdictOf table)
  room : pending.length ≤ 128

/-- An entry of an array that holds a field of each packet. -/
theorem entry_eq {f : Nat → BitVec 32} {n : Nat} {field : Packet → BitVec 32}
    (h : entries f n = pending.map field) (i : Nat) (hi : i < pending.length) :
    f i = field pending[i] := by
  have hn : n = pending.length := by
    rw [← List.length_map (f := field), ← h, entries, List.length_map, List.length_range]
  have hentry : (entries f n)[i]? = (pending.map field)[i]? := by rw [h]
  subst hn
  simpa [entries, hi] using hentry

/-- One more packet is stored. -/
theorem Held.stored (h : Held table b pending) (hc : CallOk table b c) :
    Held table (b.stored c.packet) (pending ++ [c.packet]) := by
  constructor
  · rw [List.length_append, ← h.index]
    rfl
  · show entries (Function.update _ _ _) (b.uPacketBuffIndex + 1) = _
    rw [entries_update_succ, h.ids, List.map_append, List.map_singleton]
  · show entries (Function.update _ _ _) (b.uPacketBuffIndex + 1) = _
    rw [entries_update_succ, h.sips, List.map_append, List.map_singleton]
  · intro p hp
    rcases List.mem_append.mp hp with hp | hp
    · exact h.queued p hp
    · rw [List.mem_singleton.mp hp]
      exact hc.queued.2
  · intro i hi
    rw [List.getElem_append]
    split
    · next hlt => exact h.told i hlt
    · next hge =>
      have heq : i = pending.length := by
        rw [List.length_append, List.length_singleton] at hi
        omega
      simpa [heq, h.index] using hc.told

/-- What matters of the buffers does not change. -/
theorem Held.same (h : Held table b pending) (hs : SameBuffers b b') : Held table b' pending := by
  constructor
  · rw [hs.index]
    exact h.index
  · rw [hs.idBuff, hs.index]
    exact h.ids
  · rw [hs.sipBuff, hs.index]
    exact h.sips
  · exact h.queued
  · exact h.told

/-- A flush of up to 128 packets gives each the verdict of `main_hook`. -/
theorem Held.flushOf_verdicts (h : Held table b pending) (hsmall : pending.length ≤ 128)
    (hdevice : DoWork table b.uPacketBuffIndex b.sipBuff
      (c.doWork b.sipBuff b.uPacketBuffIndex)) :
    (flushOf b c).verdicts = pending.map (verdictOf table) := by
  have haddr (i : Nat) (hi : i < pending.length) := entry_eq h.sips i hi
  have hagree : Agree table b.uPacketBuffIndex b.sipBuff := by
    rw [h.index]
    apply agree_of_told hsmall
    intro i hi
    rw [haddr i hi]
    exact h.told i hi
  have hdrops := hagree.drops _ hdevice
  rw [flushOf]
  apply List.ext_getElem
  · simp [h.index]
  · intro i _ hi
    rw [List.length_map] at hi
    have hdrop := (hdrops i (h.index ▸ hi)).2 pending[i].protocol
      (h.queued _ (List.getElem_mem hi))
    rw [haddr i hi] at hdrop
    have hid := entry_eq h.ids i hi
    simp only [List.getElem_map, List.getElem_range, verdictOf, hid, Prod.mk.injEq, true_and]
    split
    · next hzero =>
      have hnot := mt hdrop.mpr (not_not.mpr hzero)
      cases hhook : mainHook table pending[i].protocol pending[i].saddr with
      | nfAccept => rfl
      | nfDrop => exact absurd hhook hnot
    · next hflag => exact (hdrop.mp hflag).symm

/-- A further callback. -/
theorem Streamed.callback (h : Streamed table past b pending) (hc : CallOk table b c) :
    ∃ b' pending', packetBuffering b c = some b' ∧
      Streamed table (past ++ [c.packet]) b' pending' := by
  have hroom := hc.room
  have hheld := h.stored hc
  have hlen : (pending ++ [c.packet]).length ≤ 128 := by
    rw [← hheld.index]
    exact hroom
  obtain ⟨b', hcall, hcases⟩ := packetBuffering_queued hc.queued
    (Nat.lt_trans hroom (by decide : 128 < upacketbuffsize))
  have hpast : b.flushes.flatMap Flush.verdicts ++
      (pending ++ [c.packet]).map (verdictOf table) =
        (past ++ [c.packet]).map (verdictOf table) := by
    rw [List.map_append, List.map_append, ← List.append_assoc, h.verdicts]
  rcases hcases with ⟨-, hsame⟩ | hsame
  · refine ⟨b', pending ++ [c.packet], hcall, ⟨hheld.same hsame, ?_, hlen⟩⟩
    rw [hsame.flushes]
    exact hpast
  · refine ⟨b', [], hcall, ⟨⟨?_, ?_, ?_, ?_, ?_⟩, ?_, Nat.zero_le 128⟩⟩
    · rw [hsame.index]
      rfl
    · rw [hsame.index]
      rfl
    · rw [hsame.index]
      rfl
    · intro p hp
      cases hp
    · intro i hi
      cases hi
    · have hflush : b'.flushes = b.flushes ++ [flushOf (b.stored c.packet) c] := hsame.flushes
      rw [hflush, List.flatMap_append, List.flatMap_singleton, List.map_nil, List.append_nil,
        hheld.flushOf_verdicts hlen hc.device]
      exact hpast

/-- Further callbacks. -/
theorem Streamed.run {cs : List Callback} (h : Streamed table past b pending)
    (hok : StepRun.Meets packetBuffering (CallOk table) b cs) :
    ∃ b' pending', StepRun.run packetBuffering b cs = some b' ∧
      Streamed table (past ++ cs.map Callback.packet) b' pending' := by
  induction cs generalizing past b pending with
  | nil =>
    refine ⟨b, pending, rfl, ?_⟩
    rw [List.map_nil, List.append_nil]
    exact h
  | cons c cs ih =>
    obtain ⟨b₁, pending₁, hcall, h₁⟩ := h.callback hok.1
    obtain ⟨b', pending', hrun, h'⟩ := ih h₁ (hok.2 b₁ hcall)
    refine ⟨b', pending', StepRun.run_cons_iff.mpr ⟨b₁, hcall, hrun⟩, ?_⟩
    rw [List.map_cons, List.append_cons]
    exact h'

/-- The arrays are empty. -/
theorem streamed_netlinkInit (hflushes : b.flushes = []) :
    Streamed table [] (netlinkInit b) [] := by
  have hnone : (netlinkInit b).flushes = [] := hflushes
  constructor
  · exact ⟨rfl, rfl, rfl, nofun, fun i hi ↦ absurd hi (Nat.not_lt_zero i)⟩
  · rw [hnone]
    rfl
  · exact Nat.zero_le 128

/-- For every stream of packets, however the clock cuts it into batches: as long as the batches
fit the device and it tells the addresses apart, the verdicts are those of `main_hook` in the
order of arrival, and the packets of the last batch wait for theirs. -/
theorem verdicts_mainHook (table : Nat → BitVec 64) (b : Buffers) (hflushes : b.flushes = [])
    (cs : List Callback)
    (hok : StepRun.Meets packetBuffering (CallOk table) (netlinkInit b) cs) :
    ∃ b', ∃ pending : List Packet, StepRun.run packetBuffering (netlinkInit b) cs = some b' ∧
      pending.length = b'.uPacketBuffIndex ∧
      b'.flushes.flatMap Flush.verdicts ++ pending.map (verdictOf table) =
        cs.map fun c ↦ verdictOf table c.packet := by
  obtain ⟨b', pending, hrun, h⟩ := (streamed_netlinkInit hflushes).run hok
  refine ⟨b', pending, hrun, h.index.symm, ?_⟩
  rw [h.verdicts, List.nil_append, List.map_map]
  rfl

/-- A packet from an address of the table waits for one that is not, which comes more than a second
after the last flush. -/
theorem verdicts_mainHook_two : ∃ after after' b', ∃ pending : List Packet,
    StepRun.run packetBuffering (netlinkInit ⟨fun _ ↦ 0, fun _ ↦ 0, 0, 0, 0, 0, []⟩)
      [⟨⟨some 10, tcp, 5⟩, 1000000, 1000000, fun _ _ ↦ after⟩,
        ⟨⟨some 11, udp, 9⟩, 1000001, 1000002, fun _ _ ↦ after'⟩] = some b' ∧
    pending.length = b'.uPacketBuffIndex ∧
    b'.flushes.flatMap Flush.verdicts ++ pending.map (verdictOf fun _ ↦ 5) =
      [verdictOf (fun _ ↦ 5) ⟨some 10, tcp, 5⟩, verdictOf (fun _ ↦ 5) ⟨some 11, udp, 9⟩] := by
  have hlisted : Told (fun _ ↦ 5) 0 5 :=
    ⟨iff_of_true (Or.inr ⟨0, by decide, rfl⟩) ⟨0, by decide, rfl⟩, fun h ↦ by cases h⟩
  have hother : Told (fun _ ↦ 5) 1 9 := by
    refine ⟨iff_of_false ?_ ?_, fun h ↦ absurd h (by decide)⟩
    · rintro (h | ⟨j, -, h⟩)
      · cases h
      · rw [ruleWord] at h
        rcases Nat.mod_two_eq_zero_or_one j with hj | hj
        all_goals
          rw [hj] at h
          cases h
    · rintro ⟨i, -, h⟩
      cases h
  have hfirst : Agree (fun _ ↦ 5) 1 (Function.update (fun _ ↦ 0) 0 5) := by
    apply agree_of_told (by decide)
    intro i hi
    obtain rfl : i = 0 := by omega
    exact hlisted
  have hboth : Agree (fun _ ↦ 5) 2 (Function.update (Function.update (fun _ ↦ 0) 0 5) 1 9) := by
    apply agree_of_told (by decide)
    intro i hi
    obtain rfl | rfl : i = 0 ∨ i = 1 := by omega
    · exact hlisted
    · exact hother
  obtain ⟨after, hafter⟩ := hfirst.returns
  obtain ⟨after', hafter'⟩ := hboth.returns
  refine ⟨after, after', verdicts_mainHook (fun _ ↦ 5) _ rfl _ ?_⟩
  refine StepRun.meets_cons ⟨⟨rfl, Or.inl rfl⟩, by decide, hlisted, hafter⟩ rfl ?_
  exact StepRun.meets_cons ⟨⟨rfl, Or.inr rfl⟩, show 1 < 128 by decide, hother, hafter'⟩ rfl trivial

end QHGPU.Firewall
