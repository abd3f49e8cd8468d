import Mathlib.Data.BitVec
import QHGPU.Services.RadixScan

/-!
# The scan of the histogram

`cl_radix_scan_histogram` scans the histogram in parts, scans the sums of the parts, and adds
these to the parts.
-/

namespace QHGPU.Radix

variable {V : Type} [AddCommMonoid V] {geo : Geometry} {n e e' : Nat} {m : Place → V}
  {post : (Place → V) → Prop}

/-- The three launches of `cl_radix_scan_histogram`, each accepted and followed by `clFinish`,
`src/test_module/radix_sort/lib/cl_radix_sort.c:765–903`; `post` holds at the end. -/
def ClRadixScanHistogram (geo : Geometry) (n : Nat) (post : (Place → V) → Prop) (m : Place → V) :
    Prop :=
  Command.scanHistogram.accepted geo = true ∧ ∀ m₁, SameBuffers m m₁ →
    KernelRuns (Command.scanHistogram.range geo) (scanhistograms .histograms .globsum _)
      (Command.scanHistogram.InBuffers geo n) m₁ fun m₂ ↦
  Command.scanGlobsum.accepted geo = true ∧ ∀ m₃, SameBuffers m₂ m₃ →
    KernelRuns (Command.scanGlobsum.range geo) (scanhistograms .globsum .temp _)
      (Command.scanGlobsum.InBuffers geo n) m₃ fun m₄ ↦
  Command.pasteHistogram.accepted geo = true ∧ ∀ m₅, SameBuffers m₄ m₅ →
    KernelRuns (Command.pasteHistogram.range geo) (pastehistograms _)
      (Command.pasteHistogram.InBuffers geo n) m₅ post

/-- A range of whole groups is accepted. -/
theorem rangeAccepted_mul {q w : Nat} (hq : 0 < q) (hw : 0 < w) :
    rangeAccepted (q * w) w = true := by
  simp [rangeAccepted, Nat.mul_pos hq hw, hw]

/-- The scan of the parts, the scan of their sums and the addition of these replace the entries
of the histogram by the sums of the entries before them. -/
theorem clRadixScanHistogram_runs (hsplit : Split geo (2 ^ e))
    (hparts : geo.histosplit = 2 ^ (e' + 1))
    (hpost : ∀ m', (∀ k < radix * (geo.groups * geo.items), m' (.cell .histograms k) =
        ∑ i ∈ Finset.range k, m (.cell .histograms i)) →
      (∀ b k, b ≠ .histograms → b ≠ .globsum → b ≠ .temp → m' (.cell b k) = m (.cell b k)) →
      post m') : ClRadixScanHistogram geo n post m := by
  have hlen : radix * (geo.groups * geo.items) = geo.histosplit * 2 ^ (e + 1) := by
    rw [hsplit.size, Nat.pow_succ']
  have hrange : rangeAccepted (radix * geo.groups * geo.items / 2)
      (radix * geo.groups * geo.items / 2 / geo.histosplit) = true := by
    rw [hsplit.part, hsplit.half]
    exact rangeAccepted_mul hsplit.pos (Nat.two_pow_pos e)
  have hsums : rangeAccepted (geo.histosplit / 2) (geo.histosplit / 2) = true := by
    rw [hparts, Nat.pow_succ, Nat.mul_div_cancel _ Nat.two_pos]
    have haccepted := rangeAccepted_mul Nat.one_pos (Nat.two_pow_pos e')
    rwa [Nat.one_mul] at haccepted
  refine ⟨hrange, fun m₁ h₁ ↦ runs_scanHistogram hsplit fun m₂ hscan ↦ ?_⟩
  refine ⟨hsums, fun m₃ h₃ ↦ runs_scanGlobsum hparts fun m₄ hscan' ↦ ?_⟩
  refine ⟨hrange, fun m₅ h₅ ↦ runs_paste hsplit fun m₆ hpaste hrest ↦ hpost m₆ ?_ ?_⟩
  · intro k hk
    have hw : 2 * 2 ^ e = 2 ^ (e + 1) := (Nat.pow_succ' ..).symm
    have hq : k / 2 ^ (e + 1) < geo.histosplit :=
      Nat.div_lt_of_lt_mul (Nat.mul_comm _ _ ▸ hlen ▸ hk)
    have hpart (q j : Nat) :
        part .histograms e m₁ q j = m (.cell .histograms (q * 2 ^ (e + 1) + j)) := h₁ _ _
    have hlow : m₅ (.cell .histograms k) = ∑ i ∈ Finset.range (k % 2 ^ (e + 1)),
        m (.cell .histograms (k / 2 ^ (e + 1) * 2 ^ (e + 1) + i)) := by
      rw [h₅, hscan'.rest _ k (by decide) (by decide), h₃, hscan.prefixSum k (hlen ▸ hk)]
      exact Finset.sum_congr rfl fun i _ ↦ hpart _ i
    have hsum : m₅ (.cell .globsum (k / 2 ^ (e + 1))) = ∑ p ∈ Finset.range (k / 2 ^ (e + 1)),
        ∑ i ∈ Finset.range (2 ^ (e + 1)), m (.cell .histograms (p * 2 ^ (e + 1) + i)) := by
      have hlt := hparts ▸ hq
      rw [h₅, hscan'.prefixSum _ ((Nat.one_mul _).symm ▸ hlt), Nat.mod_eq_of_lt hlt,
        Nat.div_eq_of_lt hlt]
      apply Finset.sum_congr rfl
      intro p hp
      have hp : p < geo.histosplit := (Finset.mem_range.mp hp).trans hq
      rw [part, Nat.zero_mul, Nat.zero_add, h₃, hscan.partSum p hp]
      exact Finset.sum_congr rfl fun i _ ↦ hpart p i
    rw [hpaste k hk, hw, hlow, hsum, add_comm]
    exact Scan.sum_parts (fun i ↦ m (.cell .histograms i)) _ k
  · intro b k hb hb' hb''
    rw [hrest b k hb, h₅, hscan'.rest b k hb' hb'', h₃, hscan.rest b k hb hb', h₁]

/-! ### Words -/

private theorem toNat_sum (f : Nat → BitVec 32) (k : Nat) :
    (∑ i ∈ Finset.range k, f i).toNat = (∑ i ∈ Finset.range k, (f i).toNat) % 2 ^ 32 := by
  induction k with
  | zero => rfl
  | succ k ih =>
    rw [Finset.sum_range_succ, Finset.sum_range_succ, BitVec.toNat_add, ih, Nat.mod_add_mod]

/-- On words the sums wrap around. -/
theorem clRadixScanHistogram_words {a b : Nat} (words : Place → BitVec 32)
    (hparts : geo.histosplit = 2 ^ (a + 1))
    (hentries : radix * geo.groups * geo.items = geo.histosplit * 2 ^ (b + 1)) :
    ClRadixScanHistogram geo n (fun words' ↦ ∀ i < radix * geo.groups * geo.items,
      (words' (.cell .histograms i)).toNat =
        (∑ j ∈ Finset.range i, (words (.cell .histograms j)).toNat) % 2 ^ 32) words := by
  have hsplit : Split geo (2 ^ b) := by
    refine ⟨?_, hparts ▸ Nat.two_pow_pos _⟩
    rw [← Nat.mul_assoc, hentries, Nat.pow_succ']
  refine clRadixScanHistogram_runs hsplit hparts fun words' hsum _ ↦ ?_
  intro i hi
  rw [Nat.mul_assoc] at hi
  rw [hsum i hi]
  exact toNat_sum _ i

/-- Two parts of 16 words, all with the largest value. -/
theorem clRadixScanHistogram_words_max :
    ClRadixScanHistogram ⟨1, 1, 2⟩ 0 (fun words' ↦ ∀ i < radix * 1 * 1,
      (words' (.cell .histograms i)).toNat =
        (∑ _j ∈ Finset.range i, (BitVec.allOnes 32).toNat) % 2 ^ 32)
      fun _ ↦ BitVec.allOnes 32 :=
  clRadixScanHistogram_words (a := 0) (b := 3) _ rfl rfl

end QHGPU.Radix
