import Mathlib.Data.List.Forall2
import QHGPU.Library.ByteArea
import QHGPU.Services.Firewall

/-!
# The packet buffer of the netfilter test

`packet_buffering`, `src/test_module/netfilter_firewall/lib/libsrv_netfilter_firewall.c:131–197`,
over the bytes of `u_packet_buff`. The payload is copied whole into a field of 576 bytes, so a
longer one goes on into the length behind it and into the entries that follow.
-/

namespace QHGPU.Netfilter

open ByteArea (Area write read bytes number)
open Firewall (Verdict)

/-! ### The array -/

/-- The size of `payload` in `struct u_packet`,
`src/test_module/netfilter_firewall/lib/libsrv_netfilter_firewall.c:33`. -/
def payloadArray : Nat := 576

/-- `sizeof(struct u_packet)`,
`src/test_module/netfilter_firewall/lib/libsrv_netfilter_firewall.c:31–36`: `id`, `payload` and
`payload_len`. -/
def sizeofUPacket : Nat := 4 + payloadArray + 4

/-- `&u_packet_buff[i].id`. -/
def idAt (i : Nat) : Nat := i * sizeofUPacket

/-- `u_packet_buff[i].payload`. -/
def payloadAt (i : Nat) : Nat := i * sizeofUPacket + 4

/-- `&u_packet_buff[i].payload_len`. -/
def payloadLenAt (i : Nat) : Nat := i * sizeofUPacket + 4 + payloadArray

/-- `sizeof(u_packet_buff)`,
`src/test_module/netfilter_firewall/lib/libsrv_netfilter_firewall.c:38`. -/
def sizeofUPacketBuff : Nat := 16 * sizeofUPacket

/-- `PAYLOADSIZE`, `src/test_module/netfilter_firewall/lib/libsrv_netfilter_firewall.c:20`, the
part of a packet that `netlink_init` asks the queue to copy. -/
def payloadsize : Nat := 2048

/-! ### The callback -/

/-- A message of the queue: the id of its packet header, if it has one, the payload, unless
`nfq_get_payload` fails, and the clock in milliseconds. -/
structure Message where
  hdr : Option (BitVec 32)
  payload : Option (List UInt8)
  rvTime : Int

/-- A packet as it is handled at a flush: the arguments of `nfq_set_verdict`, and the payload
that `show_packet` gets. -/
structure Handled where
  id : BitVec 32
  policy : Verdict
  payload : List UInt8

/-- The globals, and the packets handled so far. -/
structure Buffers where
  uPacketBuff : Area
  uPacketBuffIndex : Nat
  firstRvTime : Int
  handled : List Handled

/-- The stores of `src/test_module/netfilter_firewall/lib/libsrv_netfilter_firewall.c:173–175` to
entry `i`; `none` for a store behind the array. -/
def storeMessage (m : Area) (i : Nat) (id : BitVec 32) (payload : List UInt8) : Option Area :=
  if payloadLenAt i + 4 ≤ sizeofUPacketBuff ∧ payloadAt i + payload.length ≤ sizeofUPacketBuff then
    let m := write m (idAt i) (bytes 4 id.toNat)
    let m := write m (payloadLenAt i) (bytes 4 payload.length)
    some (write m (payloadAt i) payload)
  else none

/-- `src/test_module/netfilter_firewall/lib/libsrv_netfilter_firewall.c:183–186` for entry `i`.
`show_packet` prints, and its result is not used. -/
def handle (m : Area) (i : Nat) : Handled where
  id := BitVec.ofNat 32 (number (read m (idAt i) 4))
  policy := .nfAccept
  payload := read m (payloadAt i) payloadArray

/-- `packet_buffering`,
`src/test_module/netfilter_firewall/lib/libsrv_netfilter_firewall.c:126–193`. The length `-1` of a
payload that cannot be had is a size for `memcpy`. -/
def packetBuffering (b : Buffers) (p : Message) : Option Buffers :=
  match p.hdr with
  | none => some b
  | some id => do
    let payload ← p.payload
    let m ← storeMessage b.uPacketBuff b.uPacketBuffIndex id payload
    let index := b.uPacketBuffIndex + 1
    if index = 8 ∨ 1000 < p.rvTime - b.firstRvTime then
      some ⟨m, 0, p.rvTime, b.handled ++ (List.range index).map (handle m)⟩
    else some ⟨m, index, b.firstRvTime, b.handled⟩

/-- The globals as `netlink_init`,
`src/test_module/netfilter_firewall/lib/libsrv_netfilter_firewall.c:266–273`, leaves them. -/
def netlinkInit (b : Buffers) : Buffers := { b with uPacketBuffIndex := 0 }

/-! ### Entries -/

/-- The id in the packet header. -/
def Message.id (p : Message) : BitVec 32 := p.hdr.getD 0

/-- The bytes of the payload. -/
def Message.bytes (p : Message) : List UInt8 := p.payload.getD []

/-- A message with a packet header has a payload of at most the size asked for. -/
def Message.Copied (p : Message) : Prop :=
  p.hdr.isSome → p.payload.isSome ∧ p.bytes.length ≤ payloadsize

/-- Entry `i` holds the id and as much of the payload as there is room for. -/
structure Entry (m : Area) (i : Nat) (p : Message) : Prop where
  id : number (read m (idAt i) 4) = p.id.toNat
  payload : (read m (payloadAt i) payloadArray).take p.bytes.length = p.bytes.take payloadArray

/-- The packet is accepted, and shown with as much of the payload as there is room for. -/
structure Accepted (p : Message) (h : Handled) : Prop where
  id : h.id = p.id
  policy : h.policy = .nfAccept
  payload : h.payload.take p.bytes.length = p.bytes.take payloadArray

variable {m m' : Area} {b : Buffers} {i k : Nat} {p : Message} {id : BitVec 32}
  {payload : List UInt8} {past pending : List Message} {before : List Handled}

private theorem payloadArray_eq : payloadArray = 576 := rfl

private theorem sizeofUPacketBuff_eq : sizeofUPacketBuff = 9344 := rfl

private theorem idAt_eq (i : Nat) : idAt i = i * 584 := rfl

private theorem payloadAt_eq (i : Nat) : payloadAt i = i * 584 + 4 := rfl

private theorem payloadLenAt_eq (i : Nat) : payloadLenAt i = i * 584 + 580 := by
  show i * 584 + 4 + 576 = i * 584 + 580
  omega

private theorem idAt_le_payloadAt (i : Nat) : idAt i ≤ payloadAt i := Nat.le_add_right ..

private theorem idAt_le_payloadLenAt (i : Nat) : idAt i ≤ payloadLenAt i := by
  rw [payloadLenAt_eq]
  exact Nat.le_add_right ..

private theorem accepted_of_entry (h : Entry m i p) : Accepted p (handle m i) := by
  constructor
  · show BitVec.ofNat 32 (number (read m (idAt i) 4)) = p.id
    rw [h.id, BitVec.ofNat_toNat, BitVec.setWidth_eq]
  · rfl
  · exact h.payload

/-- The stores begin behind the payload of every earlier entry. -/
theorem storeMessage_frame (h : storeMessage m k id payload = some m') {q n : Nat}
    (hq : q + n ≤ idAt k) : read m' q n = read m q n := by
  rw [storeMessage] at h
  split at h
  · obtain rfl := Option.some.inj h
    rw [ByteArea.read_write_of_disjoint (Or.inl (hq.trans (idAt_le_payloadAt k))),
      ByteArea.read_write_of_disjoint (Or.inl (hq.trans (idAt_le_payloadLenAt k))),
      ByteArea.read_write_of_disjoint (Or.inl hq)]
  · cases h

/-- A store to a later entry leaves this one alone. -/
theorem Entry.store (h : Entry m i p) (hi : i < k) (hs : storeMessage m k id payload = some m') :
    Entry m' i p := by
  constructor
  · rw [storeMessage_frame hs]
    · exact h.id
    · rw [idAt_eq, idAt_eq]
      omega
  · rw [storeMessage_frame hs]
    · exact h.payload
    · rw [payloadAt_eq, idAt_eq, payloadArray_eq]
      omega

/-- The entry just stored: what a long payload overwrites is the length, and entries to come. -/
theorem entry_store (hp : p.id = id) (hbytes : p.bytes = payload)
    (hs : storeMessage m k id payload = some m') : Entry m' k p := by
  rw [storeMessage] at hs
  split at hs
  · obtain rfl := Option.some.inj hs
    constructor
    · have hid : number (bytes 4 id.toNat) = id.toNat := by
        rw [ByteArea.number_bytes]
        exact Nat.mod_eq_of_lt id.isLt
      rw [idAt_eq, payloadAt_eq, payloadLenAt_eq,
        ByteArea.read_write_of_disjoint (Or.inl (by omega)),
        ByteArea.read_write_of_disjoint (Or.inl (by omega)), hp]
      exact (congrArg number (ByteArea.read_write m (k * 584) (bytes 4 id.toNat))).trans hid
    · rw [hbytes]
      by_cases hlen : payload.length ≤ payloadArray
      · rw [ByteArea.take_read hlen, ByteArea.read_write, List.take_of_length_le hlen]
      · rw [ByteArea.read_write_take (by omega), List.take_take,
          Nat.min_eq_right (by omega)]
  · cases hs

/-- Up to eight packets fit, with payloads of the size asked for. -/
theorem exists_storeMessage (m : Area) (id : BitVec 32) (hk : k < 8)
    (hlen : payload.length ≤ payloadsize) : ∃ m', storeMessage m k id payload = some m' := by
  refine ⟨_, if_pos ?_⟩
  rw [payloadLenAt_eq, payloadAt_eq, sizeofUPacketBuff_eq]
  rw [payloadsize] at hlen
  omega

/-! ### Runs -/

/-- The packets of `past` have been accepted in order, but for those of `pending`, which are in
the array and came within a second of the last flush. -/
structure Buffering (before : List Handled) (past : List Message) (b : Buffers)
    (pending : List Message) : Prop where
  accepted : ∃ done handled, past = done ++ pending ∧ b.handled = before ++ handled ∧
    List.Forall₂ Accepted done handled
  index : b.uPacketBuffIndex = pending.length
  room : pending.length < 8
  entries : ∀ i (h : i < pending.length), Entry b.uPacketBuff i pending[i]
  recent : ∀ p ∈ pending, p.rvTime - b.firstRvTime ≤ 1000

/-- A further message with a packet header. -/
theorem Buffering.queued (h : Buffering before past b pending) (hhdr : p.hdr.isSome)
    (hp : p.Copied) : ∃ b' pending', packetBuffering b p = some b' ∧
      Buffering before (past ++ [p]) b' pending' := by
  obtain ⟨hpayload, hlen⟩ := hp hhdr
  obtain ⟨id, hid⟩ := Option.isSome_iff_exists.mp hhdr
  obtain ⟨payload, hsome⟩ := Option.isSome_iff_exists.mp hpayload
  have hpid : p.id = id := by rw [Message.id, hid, Option.getD_some]
  have hbytes : p.bytes = payload := by rw [Message.bytes, hsome, Option.getD_some]
  obtain ⟨m', hstore⟩ := exists_storeMessage b.uPacketBuff id h.room (hbytes ▸ hlen)
  rw [← h.index] at hstore
  have hentries (i : Nat) (hi : i < (pending ++ [p]).length) : Entry m' i (pending ++ [p])[i] := by
    rw [List.getElem_append]
    split
    · next hlt => exact (h.entries i hlt).store (h.index ▸ hlt) hstore
    · next hge =>
      have heq : i = b.uPacketBuffIndex := by
        rw [List.length_append, List.length_singleton] at hi
        have := h.index
        omega
      rw [List.getElem_singleton, heq]
      exact entry_store hpid hbytes hstore
  obtain ⟨done, handled, hpast, hhandled, hall⟩ := h.accepted
  have hroom := h.room
  have hindex : b.uPacketBuffIndex + 1 = (pending ++ [p]).length := by
    rw [List.length_append, h.index]
    rfl
  have hcall : packetBuffering b p =
      if b.uPacketBuffIndex + 1 = 8 ∨ 1000 < p.rvTime - b.firstRvTime then
        some ⟨m', 0, p.rvTime, b.handled ++
          (List.range (b.uPacketBuffIndex + 1)).map (handle m')⟩
      else some ⟨m', b.uPacketBuffIndex + 1, b.firstRvTime, b.handled⟩ := by
    simp only [packetBuffering, hid, hsome, hstore, Option.bind_eq_bind, Option.bind_some]
  rw [hcall]
  split
  · -- the batch is accepted
    refine ⟨_, [], rfl, ⟨done ++ (pending ++ [p]), handled ++
      (List.range (pending ++ [p]).length).map (handle m'), ?_, ?_, ?_⟩, rfl, by decide, ?_, ?_⟩
    · rw [hpast, List.append_nil, List.append_assoc]
    · rw [← List.append_assoc, ← hhandled, ← hindex]
    · apply List.rel_append hall
      rw [List.forall₂_iff_get]
      refine ⟨by simp, ?_⟩
      intro i hi _
      simpa using accepted_of_entry (hentries i hi)
    · intro i hi
      cases hi
    · intro q hq
      cases hq
  · next hwait =>
    rw [not_or] at hwait
    refine ⟨_, pending ++ [p], rfl, ⟨done, handled, ?_, hhandled, hall⟩, hindex, ?_, hentries, ?_⟩
    · rw [hpast, List.append_assoc]
    · have := h.index
      omega
    · intro q hq
      rcases List.mem_append.mp hq with hq | hq
      · exact h.recent q hq
      · rw [List.mem_singleton.mp hq]
        exact Int.not_lt.mp hwait.2

/-- Further messages; those without a packet header change nothing. -/
theorem Buffering.run {ps : List Message} (h : Buffering before past b pending)
    (hps : ∀ p ∈ ps, p.Copied) :
    ∃ b' pending', StepRun.run packetBuffering b ps = some b' ∧
      Buffering before (past ++ ps.filter fun p ↦ p.hdr.isSome) b' pending' := by
  induction ps generalizing past b pending with
  | nil =>
    refine ⟨b, pending, rfl, ?_⟩
    rw [List.filter_nil, List.append_nil]
    exact h
  | cons p ps ih =>
    have hrest := fun q hq ↦ hps q (List.mem_cons_of_mem p hq)
    cases hhdr : p.hdr with
    | none =>
      obtain ⟨b', pending', hrun, h'⟩ := ih h hrest
      refine ⟨b', pending', StepRun.run_cons_iff.mpr ⟨b, ?_, hrun⟩, ?_⟩
      · rw [packetBuffering, hhdr]
      · rw [List.filter_cons_of_neg (by simp [hhdr])]
        exact h'
    | some id =>
      have hsome : p.hdr.isSome := by rw [hhdr, Option.isSome_some]
      obtain ⟨b₁, pending₁, hcall, h₁⟩ := h.queued hsome (hps p List.mem_cons_self)
      obtain ⟨b', pending', hrun, h'⟩ := ih h₁ hrest
      refine ⟨b', pending', StepRun.run_cons_iff.mpr ⟨b₁, hcall, hrun⟩, ?_⟩
      rw [List.filter_cons_of_pos (by exact hsome), List.append_cons]
      exact h'

/-- For every stream of messages and every clock: no store leaves the array; every packet is
accepted once, in the order of arrival, and shown with as much of its payload as there is room
for, but for the last ones, fewer than eight, which came within a second of the last flush. -/
theorem allAccepted (b : Buffers) (ps : List Message) (hps : ∀ p ∈ ps, p.Copied) :
    ∃ b' pending, StepRun.run packetBuffering (netlinkInit b) ps = some b' ∧
      Buffering b.handled (ps.filter fun p ↦ p.hdr.isSome) b' pending := by
  have hstart : Buffering b.handled [] (netlinkInit b) [] := by
    refine ⟨⟨[], [], rfl, (List.append_nil _).symm, .nil⟩, rfl, by decide, ?_, ?_⟩
    · intro i hi
      cases hi
    · intro p hp
      cases hp
  exact hstart.run hps

/-- A payload of 600 bytes, a message without a packet header, and a packet two seconds later. -/
theorem allAccepted_long : ∃ b' pending,
    StepRun.run packetBuffering (netlinkInit ⟨fun _ ↦ 0, 3, 0, []⟩)
      [⟨some 10, some (List.replicate 600 1), 0⟩, ⟨none, none, 5⟩, ⟨some 11, some [69], 2000⟩] =
        some b' ∧
      Buffering [] [⟨some 10, some (List.replicate 600 1), 0⟩, ⟨some 11, some [69], 2000⟩] b'
        pending := by
  refine allAccepted ⟨fun _ ↦ 0, 3, 0, []⟩ _ ?_
  intro p hp hhdr
  simp only [List.mem_cons, List.not_mem_nil, or_false] at hp
  rcases hp with rfl | rfl | rfl
  · refine ⟨rfl, ?_⟩
    rw [Message.bytes, Option.getD_some, List.length_replicate]
    decide
  · cases hhdr
  · exact ⟨rfl, by decide⟩

end QHGPU.Netfilter
