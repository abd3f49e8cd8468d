import Mathlib.Data.List.Forall2
import Mathlib.Logic.Function.Basic
import QHGPU.Library.StepRun

/-!
# The packet buffer of the firewall service

`packet_buffering` and `show_packet`,
`src/test_module/gpu_firewall/lib/libsrv_gpu_firewall.c:86–231`: packets are collected in
global arrays, handed to the device together, and get their verdicts in one go.
-/

namespace QHGPU.Firewall

/-- `UPACKETBUFFSIZE`, `src/test_module/gpu_firewall/lib/libsrv_gpu_firewall.c:33`. -/
def upacketbuffsize : Nat := 1024

/-- `TCP`, `src/test_module/gpu_firewall/lib/libsrv_gpu_firewall.c:41`. -/
def tcp : Nat := 6

/-- `UDP`, `src/test_module/gpu_firewall/lib/libsrv_gpu_firewall.c:42`. -/
def udp : Nat := 17

/-- The verdicts on a packet. -/
inductive Verdict where
  | nfAccept
  | nfDrop
  deriving DecidableEq

/-- A message of the queue: the id of its packet header, if it has one, and what the IP header
of the payload holds. -/
structure Packet where
  hdr : Option (BitVec 32)
  protocol : Nat
  saddr : BitVec 32
  deriving DecidableEq

/-- A call of `packet_buffering`: the two readings of the clock in microseconds, and what
`do_work` would leave in the buffer. -/
structure Callback where
  packet : Packet
  rvTime : Int
  endTime : Int
  doWork : (Nat → BitVec 32) → Nat → Nat → BitVec 32

/-- What happened at one flush: the entries of `id_buff`, the addresses given to `do_work`, and
the calls of `nfq_set_verdict`. -/
structure Flush where
  ids : List (BitVec 32)
  given : List (BitVec 32)
  verdicts : List (BitVec 32 × Verdict)

/-- The globals of the service, and the flushes so far,
`src/test_module/gpu_firewall/lib/libsrv_gpu_firewall.c:44–52`. -/
structure Buffers where
  idBuff : Nat → BitVec 32
  sipBuff : Nat → BitVec 32
  uPacketBuffIndex : Nat
  firstRvTime : Int
  perfoRvTime : Int
  packetId : Int
  flushes : List Flush

/-- The first `n` entries of an array. -/
def entries (f : Nat → BitVec 32) (n : Nat) : List (BitVec 32) := (List.range n).map f

/-- `show_packet`, `src/test_module/gpu_firewall/lib/libsrv_gpu_firewall.c:86–150`. Another
protocol leaves the entry as it is. -/
def showPacket (b : Buffers) (p : Packet) : Buffers :=
  if p.protocol = tcp ∨ p.protocol = udp then
    { b with sipBuff := Function.update b.sipBuff b.uPacketBuffIndex p.saddr }
  else b

/-- The calls of `src/test_module/gpu_firewall/lib/libsrv_gpu_firewall.c:213–223`: `do_work`, then
a verdict for each packet. -/
def flushOf (b : Buffers) (c : Callback) : Flush where
  ids := entries b.idBuff b.uPacketBuffIndex
  given := entries b.sipBuff b.uPacketBuffIndex
  verdicts := (List.range b.uPacketBuffIndex).map fun i ↦
    (b.idBuff i,
      if c.doWork b.sipBuff b.uPacketBuffIndex i = 0 then .nfAccept else .nfDrop)

/-- `src/test_module/gpu_firewall/lib/libsrv_gpu_firewall.c:213–226`. -/
def flush (b : Buffers) (c : Callback) : Buffers :=
  { b with
    sipBuff := c.doWork b.sipBuff b.uPacketBuffIndex
    uPacketBuffIndex := 0
    firstRvTime := c.rvTime
    flushes := b.flushes ++ [flushOf b c] }

/-- `packet_buffering`, `src/test_module/gpu_firewall/lib/libsrv_gpu_firewall.c:152–231`; `none`
for a store behind the arrays. -/
def packetBuffering (b : Buffers) (c : Callback) : Option Buffers :=
  match c.packet.hdr with
  | none => some { b with perfoRvTime := b.perfoRvTime + (c.endTime - c.rvTime) }
  | some id =>
    if b.uPacketBuffIndex < upacketbuffsize then
      let b := if 0 < b.packetId.tdiv 128 then { b with perfoRvTime := 0, packetId := 0 } else b
      let b := { b with
        packetId := b.packetId + 1
        idBuff := Function.update b.idBuff b.uPacketBuffIndex id }
      let b := showPacket b c.packet
      let b := { b with uPacketBuffIndex := b.uPacketBuffIndex + 1 }
      let b := if b.uPacketBuffIndex = upacketbuffsize ∨ 1000000 < c.rvTime - b.firstRvTime then
        flush b c else b
      some { b with perfoRvTime := b.perfoRvTime + (c.endTime - c.rvTime) }
    else none

/-- The globals as `netlink_init`,
`src/test_module/gpu_firewall/lib/libsrv_gpu_firewall.c:245–246`, leaves them. -/
def netlinkInit (b : Buffers) : Buffers := { b with uPacketBuffIndex := 0, packetId := 0 }

/-- `main_hook` of `src/test_module/gpu_firewall/gpu_firewall_module.c:34–45` queues it, and it
has a packet header. -/
def Packet.Queued (p : Packet) : Prop := p.hdr.isSome ∧ (p.protocol = tcp ∨ p.protocol = udp)

/-- The id in the packet header. -/
def Packet.id (p : Packet) : BitVec 32 := p.hdr.getD 0

/-- The packets of a batch: their addresses were looked at, and each got one verdict, in order. -/
structure Settled (batch : List Packet) (f : Flush) : Prop where
  ids : f.ids = batch.map Packet.id
  given : f.given = batch.map Packet.saddr
  verdicts : f.verdicts.map Prod.fst = batch.map Packet.id

/-- The packets of `past` have got their verdicts batch by batch, with the flushes `settled`,
but for those of `pending`, which are in the arrays. -/
structure Buffering (past : List Packet) (b : Buffers) (batches : List (List Packet))
    (pending : List Packet) (settled : List Flush) : Prop where
  past : past = batches.flatten ++ pending
  settled : List.Forall₂ Settled batches settled
  index : b.uPacketBuffIndex = pending.length
  inRange : b.uPacketBuffIndex < upacketbuffsize
  ids : entries b.idBuff b.uPacketBuffIndex = pending.map Packet.id
  sips : entries b.sipBuff b.uPacketBuffIndex = pending.map Packet.saddr

/-- The callbacks on `past` have cut it into batches, each with its flush, and a rest that is in
the arrays; `before` are the flushes made earlier. -/
def Buffered (before : List Flush) (past : List Packet) (b : Buffers) : Prop :=
  ∃ batches pending settled, b.flushes = before ++ settled ∧
    Buffering past b batches pending settled

variable {b : Buffers} {past : List Packet} {before : List Flush} {c : Callback}

/-- A store behind the first `n` entries. -/
theorem entries_update_succ (f : Nat → BitVec 32) (n : Nat) (v : BitVec 32) :
    entries (Function.update f n v) (n + 1) = entries f n ++ [v] := by
  rw [entries, List.range_succ, List.map_append, List.map_singleton, Function.update_self]
  congr 1
  refine List.map_congr_left ?_
  intro i hi
  rw [Function.update_of_ne (Nat.ne_of_lt (List.mem_range.mp hi))]

/-- The packet in the arrays behind those that are there. -/
def Buffers.stored (b : Buffers) (p : Packet) : Buffers :=
  { b with
    idBuff := Function.update b.idBuff b.uPacketBuffIndex p.id
    sipBuff := Function.update b.sipBuff b.uPacketBuffIndex p.saddr
    uPacketBuffIndex := b.uPacketBuffIndex + 1 }

/-- The parts that matter for the verdicts are the same. -/
structure SameBuffers (b b' : Buffers) : Prop where
  idBuff : b'.idBuff = b.idBuff
  sipBuff : b'.sipBuff = b.sipBuff
  index : b'.uPacketBuffIndex = b.uPacketBuffIndex
  flushes : b'.flushes = b.flushes

/-- What a callback on a queued packet does: it stores the packet, and flushes a full buffer, or
one that is due. -/
theorem packetBuffering_queued (hq : c.packet.Queued) (hin : b.uPacketBuffIndex < upacketbuffsize) :
    ∃ b', packetBuffering b c = some b' ∧
      ((b.uPacketBuffIndex + 1 < upacketbuffsize ∧ SameBuffers (b.stored c.packet) b') ∨
        SameBuffers (flush (b.stored c.packet) c) b') := by
  obtain ⟨hhdr, hprotocol⟩ := hq
  obtain ⟨id, hid⟩ := Option.isSome_iff_exists.mp hhdr
  have hpid : c.packet.id = id := by rw [Packet.id, hid, Option.getD_some]
  refine ⟨_, by rw [packetBuffering, hid]; exact if_pos hin, ?_⟩
  -- the counters of the statistics do not touch the buffers
  generalize hcounted : (if 0 < b.packetId.tdiv 128 then
    { b with perfoRvTime := 0, packetId := 0 } else b) = counted
  have hsame : counted.idBuff = b.idBuff ∧ counted.sipBuff = b.sipBuff ∧
      counted.uPacketBuffIndex = b.uPacketBuffIndex ∧ counted.flushes = b.flushes := by
    rw [← hcounted]
    split <;> exact ⟨rfl, rfl, rfl, rfl⟩
  obtain ⟨hids, hsips, hindex, hflushes⟩ := hsame
  simp only [showPacket, if_pos hprotocol]
  split
  · refine Or.inr ⟨?_, ?_, rfl, ?_⟩ <;>
      simp only [flush, flushOf, Buffers.stored, hids, hsips, hindex, hflushes, hpid]
  · next hmore =>
    rw [not_or, hindex] at hmore
    refine Or.inl ⟨Nat.lt_of_le_of_ne hin hmore.1, ?_, ?_, ?_, hflushes⟩ <;>
      simp only [Buffers.stored, hids, hsips, hindex, hpid]

/-- A further callback. -/
theorem Buffered.callback (h : Buffered before past b) (hq : c.packet.Queued) :
    ∃ b', packetBuffering b c = some b' ∧ Buffered before (past ++ [c.packet]) b' := by
  obtain ⟨batches, pending, settled, hflushes, h⟩ := h
  obtain ⟨b', hcall, hcases⟩ := packetBuffering_queued hq h.inRange
  have hids : entries (b.stored c.packet).idBuff (b.stored c.packet).uPacketBuffIndex =
      (pending ++ [c.packet]).map Packet.id := by
    rw [Buffers.stored]
    dsimp only
    rw [entries_update_succ, h.ids, List.map_append, List.map_singleton]
  have hsips : entries (b.stored c.packet).sipBuff (b.stored c.packet).uPacketBuffIndex =
      (pending ++ [c.packet]).map Packet.saddr := by
    rw [Buffers.stored]
    dsimp only
    rw [entries_update_succ, h.sips, List.map_append, List.map_singleton]
  refine ⟨b', hcall, ?_⟩
  rcases hcases with ⟨hroom, hsame⟩ | hsame
  · refine ⟨batches, pending ++ [c.packet], settled, ?_, ?_, h.settled, ?_, ?_, ?_, ?_⟩
    · rw [hsame.flushes]
      exact hflushes
    · rw [h.past, List.append_assoc]
    · rw [hsame.index, List.length_append, ← h.index]
      rfl
    · rw [hsame.index]
      exact hroom
    · rw [hsame.idBuff, hsame.index]
      exact hids
    · rw [hsame.sipBuff, hsame.index]
      exact hsips
  · have hbatch : Settled (pending ++ [c.packet]) (flushOf (b.stored c.packet) c) := by
      refine ⟨hids, hsips, ?_⟩
      rw [← hids, flushOf, List.map_map]
      rfl
    refine ⟨batches ++ [pending ++ [c.packet]], [], settled ++ [flushOf (b.stored c.packet) c],
      ?_, ?_, List.rel_append h.settled (.cons hbatch .nil), ?_, ?_, ?_, ?_⟩
    · rw [hsame.flushes, flush, ← List.append_assoc, ← hflushes]
      rfl
    · rw [h.past, List.flatten_append, List.flatten_singleton, List.append_nil, List.append_assoc]
    · rw [hsame.index]
      rfl
    · rw [hsame.index]
      exact Nat.zero_lt_succ _
    · rw [hsame.index]
      rfl
    · rw [hsame.index]
      rfl

/-- Nothing is buffered yet. -/
theorem buffered_netlinkInit (b : Buffers) : Buffered b.flushes [] (netlinkInit b) :=
  ⟨[], [], [], (List.append_nil _).symm, ⟨rfl, .nil, rfl, Nat.zero_lt_succ _, rfl, rfl⟩⟩

/-- An empty buffer that is emptied again. -/
theorem Buffered.netlinkInit (h : Buffered before past b) (hempty : b.uPacketBuffIndex = 0) :
    Buffered before past (netlinkInit b) := by
  obtain ⟨batches, pending, settled, hflushes, h⟩ := h
  refine ⟨batches, pending, settled, hflushes, h.past, h.settled, ?_, Nat.zero_lt_succ _, ?_, ?_⟩
  · rw [← h.index, hempty]
    rfl
  · rw [← h.ids, hempty]
    rfl
  · rw [← h.sips, hempty]
    rfl

/-- The ids of all verdicts are those of the packets seen, but for those still in the arrays. -/
theorem Buffered.verdicts (h : Buffered [] past b) : ∃ pending : List Packet,
    (b.flushes.flatMap fun f ↦ f.verdicts.map Prod.fst) ++ pending.map Packet.id =
      past.map Packet.id ∧ pending.length = b.uPacketBuffIndex := by
  obtain ⟨batches, pending, settled, hflushes, h⟩ := h
  refine ⟨pending, ?_, h.index.symm⟩
  have hsettled : (settled.flatMap fun f ↦ f.verdicts.map Prod.fst) =
      batches.flatten.map Packet.id := by
    have hall := h.settled
    clear h hflushes
    induction hall with
    | nil => rfl
    | cons hbatch _ ih =>
      rw [List.flatMap_cons, ih, hbatch.verdicts, List.flatten_cons, List.map_append]
  rw [hflushes, List.nil_append, hsettled, h.past, List.map_append]

/-- Further callbacks. -/
theorem Buffered.run {cs : List Callback} (h : Buffered before past b)
    (hq : ∀ c ∈ cs, c.packet.Queued) : ∃ b', StepRun.run packetBuffering b cs = some b' ∧
      Buffered before (past ++ cs.map Callback.packet) b' := by
  induction cs generalizing past b with
  | nil =>
    refine ⟨b, rfl, ?_⟩
    rw [List.map_nil, List.append_nil]
    exact h
  | cons c cs ih =>
    obtain ⟨b₁, hcall, h₁⟩ := h.callback (hq c List.mem_cons_self)
    obtain ⟨b', hrun, h'⟩ := ih h₁ fun d hd ↦ hq d (List.mem_cons_of_mem c hd)
    refine ⟨b', StepRun.run_cons_iff.mpr ⟨b₁, hcall, hrun⟩, ?_⟩
    rw [List.map_cons, List.append_cons]
    exact h'

/-- For every sequence of callbacks on queued packets, whatever the clock says and the device
does, and whatever earlier batches have left in the arrays: no store leaves the arrays; each
flush gives one verdict to each packet since the last one, in the order of arrival, and to no
other, on the address of that packet; the rest is in the arrays, fewer than their size. -/
theorem oneVerdict (b : Buffers) (cs : List Callback) (hq : ∀ c ∈ cs, c.packet.Queued) :
    ∃ b', StepRun.run packetBuffering (netlinkInit b) cs = some b' ∧
      Buffered b.flushes (cs.map Callback.packet) b' := (buffered_netlinkInit b).run hq

/-- Two packets, the second more than a second after the first. -/
theorem oneVerdict_two : ∃ b', StepRun.run packetBuffering
      (netlinkInit ⟨fun _ ↦ 5, fun _ ↦ 6, 3, 0, 0, 0, []⟩)
      [⟨⟨some 10, tcp, 77⟩, 0, 1, fun _ _ _ ↦ 0⟩,
        ⟨⟨some 11, udp, 78⟩, 1000001, 1000002, fun _ _ _ ↦ 1⟩] = some b' ∧
      Buffered [] [⟨some 10, tcp, 77⟩, ⟨some 11, udp, 78⟩] b' := by
  refine oneVerdict ⟨fun _ ↦ 5, fun _ ↦ 6, 3, 0, 0, 0, []⟩ _ ?_
  simp [Packet.Queued]

end QHGPU.Firewall
