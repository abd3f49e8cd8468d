import QHGPU.Services.FloydWarshallPass
import QHGPU.Services.QueueOrder

/-!
# The order that the commands need

`run_floyd_warshall_gpu` enqueues the passes for ascending `k`. They may run in any order, as long
as all of them run between the write and the read.
-/

namespace QHGPU.FloydWarshall

open WorkItems (Stays Launch)
open WalkSums (closure)

variable {n k : Nat} {m target : Nat → Weight} {buffer : Int → Weight} {s : Transfer}
  {cs order : List Command}

/-- What a command leaves. -/
def Transfer.exec (n : Nat) (s : Transfer) : Command → Transfer
  | .write => s.write n
  | .pass k => { s with buffer := passedBuffer n k s.buffer }
  | .read => s.read n

/-- Neither matrix has an entry above the one for no edge. -/
structure Transfer.InRange (n : Nat) (s : Transfer) : Prop where
  data : Bounded n s.data
  buffer : Bounded n (matrix s.buffer)

/-! ### One command -/

private theorem Transfer.write_buffer (s : Transfer) {idx : Nat} (hidx : idx < n * n) :
    (s.write n).buffer idx = s.data idx := by
  have hin : (0 : Int) ≤ idx ∧ (idx : Int) < n * n := ⟨by omega, by exact_mod_cast hidx⟩
  rw [Transfer.write]
  exact if_pos hin

private theorem Transfer.read_data (s : Transfer) {idx : Nat} (hidx : idx < n * n) :
    (s.read n).data idx = s.buffer idx := by
  rw [Transfer.read]
  exact if_pos hidx

private theorem Transfer.InRange.exec (h : s.InRange n) {c : Command}
    (hc : ∀ k, c = .pass k → k < n) :
    (s.exec n c).InRange n := by
  cases c with
  | write =>
    refine ⟨h.data, ?_⟩
    intro i j
    rw [weight]
    show ((s.write n).buffer (i * n + j : Nat)).toNat ≤ intMax
    rw [Transfer.write_buffer s (cell_lt i.isLt j.isLt)]
    exact h.data i j
  | pass k => exact ⟨h.data, bounded_passed h.buffer ⟨k, hc k rfl⟩⟩
  | read =>
    refine ⟨?_, h.buffer⟩
    intro i j
    rw [weight]
    show ((s.read n).data (i * n + j)).toNat ≤ intMax
    rw [Transfer.read_data s (cell_lt i.isLt j.isLt)]
    exact h.buffer i j

/-- A request with the matrix `m`, when the buffer holds `m₀`. -/
def prepared (m m₀ : Nat → Weight) : Transfer := ⟨m, fun l ↦ m₀ l.toNat⟩

/-- Each matrix agrees with one of `ms`. -/
structure Among (n : Nat) (ms : List (Nat → Weight)) (s : Transfer) : Prop where
  data : ∃ m ∈ ms, ∀ idx < n * n, s.data idx = m idx
  buffer : ∃ m ∈ ms, ∀ idx < n * n, s.buffer idx = m idx

/-- The pass changes nothing. -/
def Fixed (n k : Nat) (m : Nat → Weight) : Prop := ∀ idx < n * n, passed n k m idx = m idx

private theorem passed_congr {m m' : Nat → Weight} (hk : k < n) (h : ∀ idx < n * n, m idx = m' idx)
    {idx : Nat} (hidx : idx < n * n) : passed n k m idx = passed n k m' idx := by
  have hn : 0 < n := Nat.zero_lt_of_lt hk
  have hrow : idx / n < n := Nat.div_lt_of_lt_mul hidx
  rw [passed, passed, h idx hidx, h _ (cell_lt hrow hk), h _ (cell_lt hk (Nat.mod_lt idx hn))]

private theorem Among.exec {ms : List (Nat → Weight)} (h : Among n ms s) {c : Command}
    (hc : ∀ k, c = .pass k → k < n ∧ ∀ m ∈ ms, Fixed n k m) : Among n ms (s.exec n c) := by
  cases c with
  | write =>
    obtain ⟨m, hm, hdata⟩ := h.data
    refine ⟨⟨m, hm, hdata⟩, ⟨m, hm, ?_⟩⟩
    intro idx hidx
    exact (Transfer.write_buffer s hidx).trans (hdata idx hidx)
  | read =>
    obtain ⟨m, hm, hbuffer⟩ := h.buffer
    refine ⟨⟨m, hm, ?_⟩, ⟨m, hm, hbuffer⟩⟩
    intro idx hidx
    exact (Transfer.read_data s hidx).trans (hbuffer idx hidx)
  | pass k =>
    obtain ⟨hk, hfixed⟩ := hc k rfl
    obtain ⟨m, hm, hbuffer⟩ := h.buffer
    refine ⟨h.data, ⟨m, hm, ?_⟩⟩
    intro idx hidx
    exact (passed_congr hk hbuffer hidx).trans (hfixed m hm idx hidx)

private theorem Among.foldl {ms : List (Nat → Weight)} (h : Among n ms s) (cs : List Command)
    (hcs : ∀ k, .pass k ∈ cs → k < n ∧ ∀ m ∈ ms, Fixed n k m) :
    Among n ms (cs.foldl (Transfer.exec n) s) := by
  induction cs generalizing s with
  | nil => exact h
  | cons c cs ih =>
    have hnext := h.exec fun k hk ↦ hcs k (hk ▸ List.mem_cons_self)
    exact ih hnext fun k hk ↦ hcs k (List.mem_cons_of_mem c hk)

end QHGPU.FloydWarshall
