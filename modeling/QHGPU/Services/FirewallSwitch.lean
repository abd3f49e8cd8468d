import QHGPU.Services.Firewall

/-!
# Switching the firewall on and off

`gpu_firewall_launch`, `netlink_init` and `handle_packet`,
`src/test_module/gpu_firewall/lib/libsrv_gpu_firewall.c:233–330`: every second launch starts a
thread that receives packets, the others end it.
-/

namespace QHGPU.Firewall

/-- Where `handle_packet`, `src/test_module/gpu_firewall/lib/libsrv_gpu_firewall.c:288–295`, is:
in `recv`, behind it with what it has returned (a message with a packet, or an error), or behind
its loop. -/
inductive HandlerPc where
  | none
  | recv
  | test (m : Option Callback)
  | ended

/-- Where `gpu_firewall_launch`, `src/test_module/gpu_firewall/lib/libsrv_gpu_firewall.c:306–330`,
is. -/
inductive LauncherPc where
  | idle
  | join
  deriving DecidableEq

/-- The flags, the threads and the packet buffer; then the packets received and those passed to
`nfq_handle_packet` since the service was last switched on, and all that were ever passed. -/
structure Service where
  offFlag : Int
  breakFlag : Bool
  launcher : LauncherPc
  handler : HandlerPc
  buffers : Buffers
  received : List Packet
  passed : List Packet
  handled : List Packet

namespace Service

/-- After `init_service`, `src/test_module/gpu_firewall/lib/libsrv_gpu_firewall.c:361–388`; static
memory is 0. -/
def start (firstRvTime : Int) : Service where
  offFlag := 0
  breakFlag := false
  launcher := .idle
  handler := .none
  buffers := ⟨fun _ ↦ 0, fun _ ↦ 0, 0, firstRvTime, 0, 0, []⟩
  received := []
  passed := []
  handled := []

/-- What can happen next: a launch, with whether `netlink_init` gets its queue; the return of
`pthread_join`; what `recv` returns; and the next step of the handler. -/
inductive Act where
  | launch (opened : Bool)
  | join
  | arrive (c : Callback) (hc : c.packet.Queued)
  | recvError
  | recvZero
  | handle

/-- `gpu_firewall_launch` up to the join,
`src/test_module/gpu_firewall/lib/libsrv_gpu_firewall.c:306–321`. `netlink_init` ends the process
when it gets no queue. -/
def launch (s : Service) (opened : Bool) : Option Service :=
  if s.offFlag = 0 then
    if opened then
      some { s with
        buffers := netlinkInit s.buffers
        handler := .recv
        offFlag := s.offFlag + 1
        received := []
        passed := [] }
    else none
  else some { s with offFlag := 0, breakFlag := true, launcher := .join }

/-- The rest of a round of the loop of `handle_packet`,
`src/test_module/gpu_firewall/lib/libsrv_gpu_firewall.c:290–293`. -/
def handle (s : Service) (m : Option Callback) : Option Service :=
  if s.breakFlag then some { s with handler := .ended }
  else
    match m with
    | Option.none => some { s with handler := .recv }
    | some c => (packetBuffering s.buffers c).map fun b ↦
        { s with
          buffers := b
          handler := .recv
          passed := s.passed ++ [c.packet]
          handled := s.handled ++ [c.packet] }

/-- One step. -/
def step (s : Service) : Act → Option Service
  | .launch opened => if s.launcher = .idle then s.launch opened else none
  | .join =>
    match s.launcher, s.handler with
    | .join, .ended => some { s with launcher := .idle, handler := .none }
    | _, _ => none
  | .arrive c _ =>
    match s.handler with
    | .recv => some { s with handler := .test (some c), received := s.received ++ [c.packet] }
    | _ => none
  | .recvError =>
    match s.handler with
    | .recv => some { s with handler := .test none }
    | _ => none
  | .recvZero =>
    match s.handler with
    | .recv => some { s with handler := .ended }
    | _ => none
  | .handle =>
    match s.handler with
    | .test m => s.handle m
    | _ => none

/-- The packet that the handler has received and not looked at. -/
def inHand (s : Service) : List Packet :=
  match s.handler with
  | .test (some c) => [c.packet]
  | _ => []

/-- The ids of all verdicts, in order. -/
def verdictIds (s : Service) : List (BitVec 32) :=
  s.buffers.flushes.flatMap fun f ↦ f.verdicts.map Prod.fst

/-- The service is off, and no launch is in progress. -/
def Off (s : Service) : Prop := s.offFlag = 0 ∧ s.launcher = .idle

/-- While the service is on, received packets are passed on; when it is off, every packet has its
verdict and no handler runs. -/
structure Switched (s : Service) : Prop where
  passes : s.offFlag ≠ 0 → s.received = s.passed ++ s.inHand
  settled : s.Off → s.verdictIds = s.handled.map Packet.id
  stopped : s.Off → s.handler = .none

/-- `break_flag` is clear when the loop tests it on a packet while the service is on, and
`pthread_join` returns while no packet waits in the buffer. -/
def Careful (s : Service) : Act → Prop
  | .handle => ∀ c, s.handler = .test (some c) → s.offFlag ≠ 0 → s.breakFlag = false
  | .join => s.buffers.uPacketBuffIndex = 0
  | _ => True

/-! ### The invariant -/

/-- With `Switched`: the callbacks have buffered what was handled, and nothing is left in the
arrays while the service is off. -/
structure Inv (s : Service) : Prop extends Switched s where
  buffered : Buffered [] s.handled s.buffers
  queued : ∀ c, s.handler = .test (some c) → c.packet.Queued
  empty : s.Off → s.buffers.uPacketBuffIndex = 0
  joining : s.launcher = .join → s.offFlag = 0

private theorem inv_start (firstRvTime : Int) : Inv (start firstRvTime) where
  passes h := absurd rfl h
  settled _ := rfl
  stopped _ := rfl
  buffered := ⟨[], [], [], rfl, ⟨rfl, .nil, rfl, Nat.zero_lt_succ _, rfl, rfl⟩⟩
  queued c h := by cases h
  empty _ := rfl
  joining h := by cases h

variable {s s' : Service}

private theorem inHand_of_not_test (h : ∀ c, s.handler ≠ .test (some c)) : s.inHand = [] := by
  rw [inHand]
  split
  · next c hc => exact absurd hc (h c)
  · rfl

/-- A launch. -/
theorem Inv.launch (h : Inv s) {opened : Bool} (hidle : s.launcher = .idle)
    (hlaunch : s.launch opened = some s') : Inv s' := by
  unfold Service.launch at hlaunch
  split at hlaunch
  · next hoff =>
    split at hlaunch
    · obtain rfl := Option.some.inj hlaunch
      have hon : ¬s.offFlag + 1 = 0 := by omega
      refine ⟨⟨fun _ ↦ rfl, fun hc ↦ absurd hc.1 hon, fun hc ↦ absurd hc.1 hon⟩,
        h.buffered.netlinkInit (h.empty ⟨hoff, hidle⟩), fun c hc ↦ (by cases hc),
        fun hc ↦ absurd hc.1 hon, fun hc ↦ ?_⟩
      rw [hidle] at hc
      cases hc
    · cases hlaunch
  · obtain rfl := Option.some.inj hlaunch
    exact ⟨⟨fun hc ↦ absurd rfl hc, fun hc ↦ (by cases hc.2), fun hc ↦ (by cases hc.2)⟩,
      h.buffered, h.queued, fun hc ↦ (by cases hc.2), fun _ ↦ rfl⟩

/-- A handler that is there: the service is not off. -/
theorem Inv.not_off (h : Inv s) {pc : HandlerPc} (hpc : s.handler = pc) (hne : pc ≠ .none) :
    ¬s.Off := by
  intro hoff
  rw [h.stopped hoff] at hpc
  exact hne hpc.symm

/-- `recv` returns a packet. -/
theorem Inv.arrive (h : Inv s) (hrecv : s.handler = .recv) {c : Callback}
    (hc : c.packet.Queued) :
    Inv { s with handler := .test (some c), received := s.received ++ [c.packet] } := by
  have hnone := h.not_off hrecv (by simp)
  refine ⟨⟨?_, fun hoff ↦ absurd hoff hnone, fun hoff ↦ absurd hoff hnone⟩, h.buffered, ?_,
    fun hoff ↦ absurd hoff hnone, h.joining⟩
  · intro hon
    have hpasses := h.passes hon
    rw [inHand_of_not_test (by simp [hrecv]), List.append_nil] at hpasses
    exact congrArg (· ++ [c.packet]) hpasses
  · rintro c' hc'
    obtain rfl := Option.some.inj (HandlerPc.test.inj hc')
    exact hc

/-- `recv` returns without a packet. -/
theorem Inv.nothing (h : Inv s) (hrecv : s.handler = .recv) {pc : HandlerPc}
    (hpc : pc = .test none ∨ pc = .ended) : Inv { s with handler := pc } := by
  have hnone := h.not_off hrecv (by simp)
  have htest (c : Callback) : pc ≠ .test (some c) := by
    rcases hpc with rfl | rfl <;> simp
  refine ⟨⟨?_, fun hoff ↦ absurd hoff hnone, fun hoff ↦ absurd hoff hnone⟩, h.buffered,
    fun c hc ↦ absurd hc (htest c), fun hoff ↦ absurd hoff hnone, h.joining⟩
  intro hon
  have hpasses := h.passes hon
  rw [inHand_of_not_test (by simp [hrecv])] at hpasses
  rw [inHand_of_not_test htest]
  exact hpasses

/-- The round ends with the test of `break_flag`, or with a packet in the buffer. -/
theorem Inv.handle (h : Inv s) {m : Option Callback} (hm : s.handler = .test m)
    (hcareful : s.Careful .handle) (hhandle : s.handle m = some s') : Inv s' := by
  have hnone := h.not_off hm (by simp)
  have hhand : s.inHand = (m.map Callback.packet).toList := by
    rw [inHand, hm]
    cases m <;> rfl
  unfold Service.handle at hhandle
  split at hhandle
  · next hbreak =>
    obtain rfl := Option.some.inj hhandle
    refine ⟨⟨?_, fun hoff ↦ absurd hoff hnone, fun hoff ↦ absurd hoff hnone⟩, h.buffered,
      fun c hc ↦ (by cases hc), fun hoff ↦ absurd hoff hnone, h.joining⟩
    intro hon
    have hpasses := h.passes hon
    cases m with
    | none =>
      rw [hhand] at hpasses
      exact hpasses
    | some c =>
      rw [hcareful c hm hon] at hbreak
      cases hbreak
  · cases m with
    | none =>
      obtain rfl := Option.some.inj hhandle
      refine ⟨⟨?_, fun hoff ↦ absurd hoff hnone, fun hoff ↦ absurd hoff hnone⟩, h.buffered,
        fun c hc ↦ (by cases hc), fun hoff ↦ absurd hoff hnone, h.joining⟩
      intro hon
      have hpasses := h.passes hon
      rw [hhand] at hpasses
      exact hpasses
    | some c =>
      obtain ⟨b, hcall, hbuffered⟩ := h.buffered.callback (h.queued c hm)
      dsimp only at hhandle
      rw [hcall] at hhandle
      obtain rfl := Option.some.inj hhandle
      refine ⟨⟨?_, fun hoff ↦ absurd hoff hnone, fun hoff ↦ absurd hoff hnone⟩, hbuffered,
        fun c hc ↦ (by cases hc), fun hoff ↦ absurd hoff hnone, h.joining⟩
      intro hon
      have hpasses := h.passes hon
      rw [hhand] at hpasses
      exact hpasses.trans (List.append_nil _).symm

/-- The switch-off returns. -/
theorem Inv.join (h : Inv s) (hjoin : s.launcher = .join)
    (hempty : s.buffers.uPacketBuffIndex = 0) :
    Inv { s with launcher := .idle, handler := .none } := by
  have hoff := h.joining hjoin
  refine ⟨⟨fun hon ↦ absurd hoff hon, ?_, fun _ ↦ rfl⟩, h.buffered, fun c hc ↦ (by cases hc),
    fun _ ↦ hempty, fun hc ↦ (by cases hc)⟩
  intro _
  obtain ⟨pending, hids, hlength⟩ := h.buffered.verdicts
  obtain rfl := List.eq_nil_of_length_eq_zero (hlength.trans hempty)
  rw [List.map_nil, List.append_nil] at hids
  exact hids

/-- A step that meets its condition keeps the invariant. -/
theorem Inv.step (h : Inv s) {a : Act} (hcareful : s.Careful a) (hstep : s.step a = some s') :
    Inv s' := by
  unfold Service.step at hstep
  cases a with
  | launch opened =>
    dsimp only at hstep
    split at hstep
    · next hidle => exact h.launch hidle hstep
    · cases hstep
  | join =>
    dsimp only at hstep
    split at hstep
    · next hjoin _ =>
      obtain rfl := Option.some.inj hstep
      exact h.join hjoin hcareful
    · cases hstep
  | arrive c hc =>
    dsimp only at hstep
    split at hstep
    · next hrecv =>
      obtain rfl := Option.some.inj hstep
      exact h.arrive hrecv hc
    · cases hstep
  | recvError =>
    dsimp only at hstep
    split at hstep
    · next hrecv =>
      obtain rfl := Option.some.inj hstep
      exact h.nothing hrecv (Or.inl rfl)
    · cases hstep
  | recvZero =>
    dsimp only at hstep
    split at hstep
    · next hrecv =>
      obtain rfl := Option.some.inj hstep
      exact h.nothing hrecv (Or.inr rfl)
    · cases hstep
  | handle =>
    dsimp only at hstep
    split at hstep
    · next m hm => exact h.handle hm hcareful hstep
    · cases hstep

/-- A step that does not meet its condition loses a packet. -/
theorem Inv.breaks (h : Inv s) {a : Act} (hcareless : ¬s.Careful a) (hstep : s.step a = some s') :
    ¬Switched s' := by
  intro hs'
  unfold Service.step at hstep
  cases a with
  | launch | arrive | recvError | recvZero => exact hcareless trivial
  | join =>
    dsimp only at hstep
    split at hstep
    · next hjoin _ =>
      obtain rfl := Option.some.inj hstep
      have hsettled := hs'.settled ⟨h.joining hjoin, rfl⟩
      obtain ⟨pending, hids, hlength⟩ := h.buffered.verdicts
      have hlengths := congrArg List.length (hids.trans hsettled.symm)
      change (s.verdictIds ++ pending.map Packet.id).length = s.verdictIds.length at hlengths
      rw [List.length_append, List.length_map, hlength] at hlengths
      exact hcareless (by simpa [Careful] using hlengths)
    · cases hstep
  | handle =>
    rw [Careful] at hcareless
    push Not at hcareless
    obtain ⟨c, hc, hon, hbreak⟩ := hcareless
    rw [hc] at hstep
    dsimp only at hstep
    rw [Service.handle, if_pos ((Bool.not_eq_false _).mp hbreak)] at hstep
    obtain rfl := Option.some.inj hstep
    have hpasses := h.passes hon
    have hpasses' := hs'.passes hon
    rw [show s.inHand = [c.packet] by rw [inHand, hc]] at hpasses
    change s.received = s.passed ++ [] at hpasses'
    rw [hpasses] at hpasses'
    have := List.append_cancel_left hpasses'
    cases this

end Service

end QHGPU.Firewall
