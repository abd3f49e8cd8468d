import QHGPU.Services.RadixPrefixSums
import QHGPU.Services.RadixReorder

/-!
# The passes

Each pass of `cl_radix_sort` is a stable sort by its digit. After the last one the keys are in
order.
-/

namespace QHGPU.Radix

open CountingSort (Sorts rank)

variable {geo : Geometry} {s : Sizes} {post : Memory → Prop} {cs : List Command}
variable {pass size e e' : Nat} {m m' m'' : Memory}

/-- The parameters as powers of two: `2 ^ (e' + 1)` parts of `2 ^ (e + 1)` entries. -/
structure Powers (geo : Geometry) (e e' : Nat) : Prop where
  split : Split geo (2 ^ e)
  histosplit : geo.histosplit = 2 ^ (e' + 1)
  groups : 0 < geo.groups
  items : 0 < geo.items

/-- The sizes for `size` keys in each chunk. -/
structure Chunks (geo : Geometry) (s : Sizes) (size : Nat) : Prop where
  rounded : s.nkeysRounded = total geo size
  nkeys : s.nkeysRounded ≤ s.nkeys

/-- The same keys with the same permutation. -/
structure SameKeys (m m' : Memory) : Prop where
  keys : ∀ i, m' (.cell .inKeys i) = m (.cell .inKeys i)
  permut : ∀ i, m' (.cell .inPermut i) = m (.cell .inPermut i)

private theorem SameKeys.trans (h : SameKeys m m') (h' : SameKeys m' m'') : SameKeys m m'' :=
  ⟨fun i ↦ (h'.keys i).trans (h.keys i), fun i ↦ (h'.permut i).trans (h.permut i)⟩

private theorem SameBuffers.sameKeys (h : SameBuffers m m') : SameKeys m m' :=
  ⟨h .inKeys, h .inPermut⟩

private theorem SameKeys.digit (h : SameKeys m m') (pass : Nat) : digit pass m' = digit pass m :=
  funext fun i ↦ congrArg (shortkey pass) (h.keys i)

/-- The entry of the histogram for an item and a digit. -/
def table (geo : Geometry) (pass size : Nat) (m : Memory) (k : Nat) : Nat :=
  chunkCount pass size m (k % (geo.groups * geo.items)) (k / (geo.groups * geo.items))

private theorem SameKeys.table (h : SameKeys m m') :
    table geo pass size m' = table geo pass size m := by
  funext k
  rw [Radix.table, Radix.table, chunkCount, chunkCount, h.digit]

private theorem completes_histogram (hgeo : Powers geo e e') (hs : Chunks geo s size)
    (hnext : ∀ m', SameKeys m m' → (∀ k < radix * (geo.groups * geo.items),
      m' (.cell .histograms k) = table geo pass size m k) → Completes geo s post cs m') :
    Completes geo s post (.histogram pass :: cs) m := by
  refine ⟨?_, rangeAccepted_mul hgeo.groups hgeo.items, ?_⟩
  · simp [Command.asserted, hs.rounded, hs.nkeys.trans' hs.rounded.ge, total, radix,
      Nat.one_shiftLeft]
  · intro m₁ hsame
    rw [hs.rounded]
    refine runs_histogram fun m₂ hhisto hrest ↦ ?_
    have hkeys : SameKeys m₁ m₂ := ⟨fun i ↦ hrest _ i (by decide), fun i ↦ hrest _ i (by decide)⟩
    refine hnext m₂ (hsame.sameKeys.trans hkeys) ?_
    intro k hk
    rw [← hsame.sameKeys.table]
    exact hhisto k hk

private theorem completes_scans (hgeo : Powers geo e e') {T : Nat → Nat}
    (hT : ∀ k < radix * (geo.groups * geo.items), m (.cell .histograms k) = T k)
    (hnext : ∀ m', SameKeys m m' → (∀ k < radix * (geo.groups * geo.items),
      m' (.cell .histograms k) = ∑ i ∈ Finset.range k, T i) → Completes geo s post cs m') :
    Completes geo s post (.scanHistogram :: .scanGlobsum :: .pasteHistogram :: cs) m := by
  have hscan : ClRadixScanHistogram geo s.nkeysRounded (Completes geo s post cs) m := by
    refine clRadixScanHistogram_runs hgeo.split hgeo.histosplit fun m' hsum hrest ↦ ?_
    have hsame : SameKeys m m' := ⟨fun i ↦ hrest _ i (by decide) (by decide) (by decide),
      fun i ↦ hrest _ i (by decide) (by decide) (by decide)⟩
    refine hnext m' hsame fun k hk ↦ ?_
    rw [hsum k hk]
    exact Finset.sum_congr rfl fun i hi ↦ hT i ((Finset.mem_range.mp hi).trans hk)
  obtain ⟨haccept, hscan⟩ := hscan
  refine ⟨rfl, haccept, fun m₁ h₁ ↦ ((hscan m₁ h₁).mono fun m₂ h ↦ ?_).command⟩
  obtain ⟨haccept, hscan⟩ := h
  refine ⟨rfl, haccept, fun m₃ h₃ ↦ ((hscan m₃ h₃).mono fun m₄ h ↦ ?_).command⟩
  obtain ⟨haccept, hpaste⟩ := h
  exact ⟨rfl, haccept, fun m₅ h₅ ↦ (hpaste m₅ h₅).command⟩

/-! ### One pass -/

/-- A stable sort by the digit of the pass. -/
structure Passed (geo : Geometry) (pass size : Nat) (m m' : Memory) : Prop where
  keys : ∀ i < total geo size, m' (.cell .inKeys (rank (digit pass m) (total geo size) i)) =
    m (.cell .inKeys i)
  permut : ∀ i < total geo size, m' (.cell .inPermut (rank (digit pass m) (total geo size) i)) =
    m (.cell .inPermut i)

private theorem completes_reorder (hgeo : Powers geo e e') (hs : Chunks geo s size)
    (hsame : SameKeys m m')
    (hpos : ∀ k < radix * (geo.groups * geo.items), m' (.cell .histograms k) =
      ∑ i ∈ Finset.range k, table geo pass size m i)
    (hnext : ∀ m'', Passed geo pass size m m'' → Completes geo s post cs m'') :
    Completes geo s post (.reorder pass :: cs) m' := by
  refine ⟨?_, rangeAccepted_mul hgeo.groups hgeo.items, ?_⟩
  · simp [Command.asserted, hs.rounded, total, radix, Nat.one_shiftLeft]
  · intro m₁ h₁
    have hkeys : SameKeys m m₁ := hsame.trans h₁.sameKeys
    have hdigit : digit pass m₁ = digit pass m := hkeys.digit pass
    rw [hs.rounded]
    refine runs_reorder ?_ fun m₂ hmoved hmoved' ↦ hnext m₂ ⟨?_, ?_⟩
    · intro ir hir ig hig
      rw [h₁, hpos _ (entry_lt hir hig), hdigit]
      exact CountingSort.sum_table ir hig.le
    · intro i hi
      rw [← hdigit, hmoved i hi]
      exact hkeys.keys i
    · intro i hi
      rw [← hdigit, hmoved' i hi]
      exact hkeys.permut i

/-- The five launches of a pass. -/
theorem completes_pass (hgeo : Powers geo e e') (hs : Chunks geo s size)
    (hnext : ∀ m', Passed geo pass size m m' → Completes geo s post cs m') :
    Completes geo s post (.histogram pass :: .scanHistogram :: .scanGlobsum :: .pasteHistogram ::
      .reorder pass :: cs) m := by
  apply completes_histogram hgeo hs
  intro m₁ hsame htable
  apply completes_scans hgeo htable
  intro m₂ hsame' hsum
  exact completes_reorder hgeo hs (hsame.trans hsame') hsum hnext

/-! ### All passes -/

variable {n t : Nat} {input : Nat → Nat}

/-- The keys in the order of their lowest `t` digits. -/
structure SortedBy (t n : Nat) (input : Nat → Nat) (m : Memory) : Prop where
  order : Sorts (fun i ↦ input i % 2 ^ (t * bits)) n fun p ↦ m (.cell .inPermut p)
  keys : ∀ p < n, m (.cell .inKeys p) = input (m (.cell .inPermut p))

private theorem shortkey_eq (pass key : Nat) :
    shortkey pass key = key / 2 ^ (pass * bits) % 2 ^ bits := by
  rw [shortkey, Nat.shiftRight_eq_div_pow, radix, Nat.one_shiftLeft, Nat.and_two_pow_sub_one_eq_mod]

/-- A pass sorts by one digit more. -/
theorem SortedBy.passed (h : SortedBy t (total geo size) input m)
    (hpass : Passed geo t size m m') : SortedBy (t + 1) (total geo size) input m' := by
  constructor
  · show Sorts (fun i ↦ input i % 2 ^ ((t + 1) * bits)) (total geo size) _
    rw [Nat.succ_mul, Nat.pow_add]
    apply h.order.digit (Nat.two_pow_pos _)
    intro p hp
    have hrank : rank (fun j ↦ input (m (.cell .inPermut j)) / 2 ^ (t * bits) % 2 ^ bits)
        (total geo size) p = rank (digit t m) (total geo size) p := by
      apply CountingSort.rank_congr _ hp
      intro j hj
      rw [digit, h.keys j hj, shortkey_eq]
    rw [hrank]
    exact hpass.permut p hp
  · intro p hp
    obtain ⟨i, hi, rfl⟩ := CountingSort.exists_rank_eq (digit t m) hp
    rw [hpass.keys i hi, hpass.permut i hi]
    exact h.keys i hi

/-- All passes complete, and sort by all digits. -/
theorem completes_passes (hgeo : Powers geo e e') (hs : Chunks geo s size)
    (hpost : ∀ m', SortedBy passes (total geo size) input m' → post m')
    (h : SortedBy 0 (total geo size) input m) : Completes geo s post launches m := by
  -- the passes from `t` on
  have loop (l : List Nat) (t : Nat) (m : Memory) (hl : List.range' t l.length = l)
      (hlen : t + l.length = passes) (h : SortedBy t (total geo size) input m) :
      Completes geo s post (l.flatMap fun pass ↦ [.histogram pass, .scanHistogram, .scanGlobsum,
        .pasteHistogram, .reorder pass]) m := by
    induction l generalizing t m with
    | nil =>
      obtain rfl : t = passes := hlen
      exact hpost m h
    | cons pass l ih =>
      rw [List.length_cons, List.range'_succ, List.cons.injEq] at hl
      obtain ⟨rfl, hl⟩ := hl
      apply completes_pass hgeo hs
      intro m' hpass
      refine ih (t + 1) m' hl ?_ (h.passed hpass)
      rw [List.length_cons] at hlen
      omega
  refine loop _ 0 m ?_ ?_ h
  · rw [List.length_range, List.range_eq_range']
  · rw [List.length_range, Nat.zero_add]

end QHGPU.Radix
