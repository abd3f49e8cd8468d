import QHGPU.Kernel.PoolOwnership

/-!
# The pool loses nothing

Beside what `PoolOwnership` shows, the units in use are those of the blocks that clients hold
and no others: a pool whose blocks have all come back is clear again, and `qhgpu_vmalloc`
refuses a size only when the blocks in hand leave no room for it.
-/

namespace QHGPU

/-- The addresses of the pool's units do not wrap, and none is null. -/
structure QhgpuMempool.Mapped (gmp : QhgpuMempool) : Prop where
  kva_pos : 0 < gmp.kva.toNat
  end_le : gmp.kva.toNat + gmp.nunits.toNat * qhgpuBufUnitSize ≤ 2 ^ 64

/-- `bitmap_find_next_zero_area` finds an area when there is one. -/
structure FindsEveryArea (find : (Nat → Bool) → BitVec 32 → BitVec 32 → Word) : Prop
    extends FindsZeroArea find where
  complete : ∀ {map size nr}, size.toNat ≤ (find map size nr).toNat →
    ∀ i < size.toNat, map i = false → i + nr.toNat ≤ size.toNat →
      ∃ b, i ≤ b ∧ b < i + nr.toNat ∧ map b = true

variable {find : (Nat → Bool) → BitVec 32 → BitVec 32 → Word} {gmp gmp' : QhgpuMempool}
  {bitmap : KArray Bool} {allocSz : KArray (BitVec 32)} {s s' : PoolClients} {b : Block}

/-- The address of a unit. -/
def QhgpuMempool.unitAddr (gmp : QhgpuMempool) (i : Nat) : Word :=
  gmp.kva + BitVec.ofNat 64 i * BitVec.ofNat 64 qhgpuBufUnitSize

private theorem toNat_unitAddr (h : gmp.Mapped) {i : Nat} (hi : i < gmp.nunits.toNat) :
    (gmp.unitAddr i).toNat = gmp.kva.toNat + i * qhgpuBufUnitSize := by
  have hend := h.end_le
  have hlt := gmp.nunits.isLt
  rw [qhgpuBufUnitSize_eq] at hend ⊢
  rw [QhgpuMempool.unitAddr, BitVec.toNat_add, BitVec.toNat_mul, toNat_unitSize,
    BitVec.toNat_ofNat]
  omega

private theorem unitAddr_ne_zero (h : gmp.Mapped) {i : Nat} (hi : i < gmp.nunits.toNat) :
    gmp.unitAddr i ≠ 0 := by
  intro hzero
  have hnat := toNat_unitAddr h hi
  have hpos := h.kva_pos
  have hnull : (0 : Word).toNat = 0 := rfl
  rw [hzero, hnull] at hnat
  omega

/-- A unit is known by its address. -/
theorem unitAddr_inj (h : gmp.Mapped) {i j : Nat} (hi : i < gmp.nunits.toNat)
    (hj : j < gmp.nunits.toNat) (heq : gmp.unitAddr i = gmp.unitAddr j) : i = j := by
  have hnat := toNat_unitAddr h hi
  rw [heq, toNat_unitAddr h hj, qhgpuBufUnitSize_eq] at hnat
  omega

/-! ### Every block is in someone's hands -/

/-- The blocks of the table are those in the hands of clients. -/
structure PoolClients.Exact (s : PoolClients) (bitmap : KArray Bool)
    (allocSz : KArray (BitVec 32)) : Prop extends s.Held bitmap allocSz where
  mapped : s.gmp.Mapped
  owned : ∀ i < s.gmp.nunits.toNat, 0 < (allocSz.get i).toNat →
    ∃ b ∈ s.live, b.p = s.gmp.unitAddr i

private theorem PoolClients.Exact.vmalloc (hfind : FindsZeroArea find) (h : s.Exact bitmap allocSz)
    {nbytes : Word} (hok : AskOk s (.qhgpuVmalloc nbytes))
    (hs : clientStep find s (.qhgpuVmalloc nbytes) = some s') :
    ∃ bitmap allocSz, s'.Exact bitmap allocSz := by
  obtain ⟨bitmap', allocSz', hheld⟩ := h.toHeld.vmalloc hfind hok hs
  obtain ⟨⟨p, gmp'⟩, hcall, rfl⟩ := Option.map_eq_some_iff.mp hs
  have hsizes := hheld.arrays.allocSz_eq
  rcases qhgpuVmalloc_cases h.arrays hcall with ⟨_, rfl, rfl⟩ | ⟨hidx, hp, rfl⟩
  · obtain rfl := Option.some.inj (h.arrays.allocSz_eq.symm.trans hsizes)
    refine ⟨bitmap', allocSz, hheld, h.mapped, ?_⟩
    simp only [if_true]
    exact h.owned
  · obtain rfl := Option.some.inj hsizes
    refine ⟨bitmap', _, hheld, ⟨h.mapped.kva_pos, h.mapped.end_le⟩, ?_⟩
    generalize find bitmap.get s.gmp.nunits (reqNunits nbytes) = idx at *
    have hofNat : BitVec.ofNat 64 idx.toNat = idx := BitVec.eq_of_toNat_eq (by
      rw [BitVec.toNat_ofNat]
      exact Nat.mod_eq_of_lt idx.isLt)
    have haddr : p = s.gmp.unitAddr idx.toNat := by
      rw [hp, QhgpuMempool.unitAddr, hofNat]
    have hne : p ≠ 0 := by
      rw [haddr]
      exact unitAddr_ne_zero h.mapped hidx
    intro i hi hpos
    simp only [if_neg hne]
    by_cases heq : i = idx.toNat
    · refine ⟨⟨p, nbytes⟩, List.mem_append_right _ List.mem_cons_self, ?_⟩
      rw [heq]
      exact haddr
    · simp only at hpos
      rw [Function.update_of_ne heq] at hpos
      obtain ⟨b, hb, hbp⟩ := h.owned i hi hpos
      exact ⟨b, List.mem_append_left _ hb, hbp⟩

private theorem PoolClients.Exact.vfree (h : s.Exact bitmap allocSz) {p : Word}
    (hs : clientStep find s (.qhgpuVfree p) = some s') :
    ∃ bitmap allocSz, s'.Exact bitmap allocSz := by
  obtain ⟨bitmap', allocSz', hheld⟩ := h.toHeld.vfree hs
  rw [clientStep, Option.ite_none_right_eq_some] at hs
  obtain ⟨hmem, hs⟩ := hs
  obtain ⟨gmp', hcall, rfl⟩ := Option.map_eq_some_iff.mp hs
  obtain ⟨b, hb, rfl⟩ := List.mem_map.mp hmem
  obtain ⟨i, hi, hp, _, hsize, hpos, _⟩ := h.units hb
  rw [hp, qhgpuVfree_block h.arrays h.sound hi (hsize ▸ hpos)] at hcall
  obtain rfl := Option.some.inj hcall
  obtain rfl := Option.some.inj hheld.arrays.allocSz_eq
  refine ⟨bitmap', _, hheld, ⟨h.mapped.kva_pos, h.mapped.end_le⟩, ?_⟩
  intro j hj hjpos
  have hji : j ≠ i := by
    rintro rfl
    simp only at hjpos
    rw [Function.update_self] at hjpos
    exact absurd hjpos (by decide)
  simp only at hjpos
  rw [Function.update_of_ne hji] at hjpos
  obtain ⟨c, hc, hcp⟩ := h.owned j hj hjpos
  have hne : c.p ≠ b.p := by
    intro heq
    exact hji (unitAddr_inj h.mapped hj hi (hcp.symm.trans (heq.trans hp)))
  refine ⟨c, ?_, hcp⟩
  rw [List.mem_eraseP_of_neg (by simpa using hne)]
  exact hc

private theorem PoolClients.Exact.step (hfind : FindsZeroArea find) (h : s.Exact bitmap allocSz)
    {c : PoolCall} (hok : AskOk s c) (hs : clientStep find s c = some s') :
    ∃ bitmap allocSz, s'.Exact bitmap allocSz := by
  cases c with
  | qhgpuVmalloc nbytes => exact h.vmalloc hfind hok hs
  | qhgpuVfree p => exact h.vfree hs

/-- The invariant of the runs of `PoolOwnership`, on a pool that is mapped. -/
theorem exact_of_meets (hfind : FindsZeroArea find) (hcleared : gmp.Cleared)
    (hmapped : gmp.Mapped) {calls : List PoolCall}
    (hok : StepRun.Meets (clientStep find) AskOk ⟨gmp, []⟩ calls)
    (hrun : StepRun.run (clientStep find) ⟨gmp, []⟩ calls = some s) :
    ∃ bitmap allocSz, s.Exact bitmap allocSz := by
  refine StepRun.run_invariant (I := fun s : PoolClients ↦ ∃ bitmap allocSz,
    s.Exact bitmap allocSz) (fun _ _ _ ⟨_, _, hexact⟩ hcond hs ↦ hexact.step hfind hcond hs)
    ?_ hok hrun
  obtain ⟨bitmap, allocSz, harrays, hbits, hsizes⟩ := hcleared
  obtain ⟨bitmap', allocSz', harrays', hsound⟩ :=
    QhgpuMempool.Cleared.represented ⟨bitmap, allocSz, harrays, hbits, hsizes⟩
  obtain rfl := Option.some.inj (harrays.allocSz_eq.symm.trans harrays'.allocSz_eq)
  refine ⟨bitmap', allocSz, ⟨harrays', hsound, nofun, List.Pairwise.nil⟩, hmapped, ?_⟩
  intro i hi hpos
  have hzero : allocSz.get i = 0 := hsizes i hi
  rw [hzero] at hpos
  exact absurd hpos (by decide)

/-- A unit is in use when it is one of a block in the hands of a client. -/
theorem PoolClients.Exact.used_iff (h : s.Exact bitmap allocSz) {u : Nat}
    (hu : u < s.gmp.nunits.toNat) :
    s.gmp.used u = true ↔ ∃ b ∈ s.live, b.Holds s.gmp.kva u := by
  constructor
  · intro hused
    have hbit : (poolTable s.gmp.nunits.toNat bitmap.get allocSz.get).bit u = true := by
      rw [QhgpuMempool.used, h.arrays.bitmap_eq] at hused
      simp only [poolTable, hu, decide_true, Bool.true_and]
      exact hused
    obtain ⟨i, hle, hlt⟩ := (h.sound.bit_iff u).mp hbit
    have hi : i < s.gmp.nunits.toNat := Nat.lt_of_le_of_lt hle hu
    simp only [poolTable, if_pos hi] at hlt
    obtain ⟨b, hb, hp⟩ := h.owned i hi (by omega)
    obtain ⟨j, hj, hp', _, hsize, _, _, _, hunits⟩ := h.units hb
    obtain rfl := unitAddr_inj h.mapped hi hj (hp.symm.trans hp')
    refine ⟨b, hb, (hunits u).mpr ⟨hle, ?_⟩⟩
    rw [← hsize]
    exact hlt
  · rintro ⟨b, hb, hholds⟩
    exact h.toHeld.belong.allocated b hb u hholds

/-- With no block in anyone's hands the pool is clear. -/
theorem PoolClients.Exact.cleared (h : s.Exact bitmap allocSz) (hlive : s.live = []) :
    s.gmp.Cleared := by
  refine ⟨bitmap, allocSz, h.arrays, ?_, ?_⟩
  · intro u hu
    rw [← Bool.not_eq_true]
    intro hset
    obtain ⟨b, hb, -⟩ := (h.used_iff hu).mp (by
      rw [QhgpuMempool.used, h.arrays.bitmap_eq]
      exact hset)
    rw [hlive] at hb
    cases hb
  · intro i hi
    by_contra hne
    have hpos : 0 < (allocSz.get i).toNat := by
      rw [Nat.pos_iff_ne_zero]
      intro hzero
      exact hne (BitVec.eq_of_toNat_eq hzero)
    obtain ⟨b, hb, -⟩ := h.owned i hi hpos
    rw [hlive] at hb
    cases hb

/-- In every run of clients that ask as they should, on a pool mapped at an address that does
not wrap: the units in use are those of the blocks in hand, and when all blocks have come back,
in whatever order, the pool is clear as it was at the start. -/
theorem used_iff_of_meets (hfind : FindsZeroArea find) (hcleared : gmp.Cleared)
    (hmapped : gmp.Mapped) (calls : List PoolCall) (s : PoolClients)
    (hok : StepRun.Meets (clientStep find) AskOk ⟨gmp, []⟩ calls)
    (hrun : StepRun.run (clientStep find) ⟨gmp, []⟩ calls = some s) :
    (∀ u < s.gmp.nunits.toNat, s.gmp.used u = true ↔ ∃ b ∈ s.live, b.Holds s.gmp.kva u) ∧
      (s.live = [] → s.gmp.Cleared) := by
  obtain ⟨bitmap, allocSz, hexact⟩ := exact_of_meets hfind hcleared hmapped hok hrun
  exact ⟨fun u hu ↦ hexact.used_iff hu, hexact.cleared⟩

private theorem clearedPool_mapped : clearedPool.Mapped := ⟨by decide, by decide⟩

/-- Two blocks, given back in the order in which they were taken. -/
theorem used_iff_of_meets_two : ∃ s, StepRun.run (clientStep scanZeroArea) ⟨clearedPool, []⟩
    (twoBlocks ++ [.qhgpuVfree 0xffffc90000419000#64]) = some s ∧ s.gmp.Cleared := by
  obtain ⟨s, hrun, hlive⟩ : ∃ s, StepRun.run (clientStep scanZeroArea) ⟨clearedPool, []⟩
      (twoBlocks ++ [.qhgpuVfree 0xffffc90000419000#64]) = some s ∧ s.live = [] := ⟨_, rfl, rfl⟩
  refine ⟨s, hrun, (used_iff_of_meets findsZeroArea_scanZeroArea clearedPool_cleared
    clearedPool_mapped _ s (StepRun.meets_of_forall ?_) hrun).2 hlive⟩
  intro c hc t
  simp only [twoBlocks, List.cons_append, List.nil_append, List.mem_cons, List.not_mem_nil,
    or_false] at hc
  rcases hc with rfl | rfl | rfl | rfl
  · exact Or.inl (by decide)
  · exact Or.inl (by decide)
  · trivial
  · trivial

/-! ### A request is refused only for want of room -/

/-- One of the `n` units from `i` on is in the hands of a client. -/
def PoolClients.Taken (s : PoolClients) (i n : Nat) : Prop :=
  ∃ b ∈ s.live, ∃ u, i ≤ u ∧ u < i + n ∧ b.Holds s.gmp.kva u

/-- The first run of `n` units that meets no block in hand begins with unit `i`. -/
structure PoolClients.FirstFree (s : PoolClients) (i n : Nat) : Prop where
  fits : i + n ≤ s.gmp.nunits.toNat
  free : ¬s.Taken i n
  first : ∀ j < i, s.Taken j n

namespace PoolClients.Exact

variable {nr : BitVec 32} {i u : Nat}

private theorem taken (h : s.Exact bitmap allocSz) (hle : i ≤ u) (hlt : u < i + nr.toNat)
    (hu : u < s.gmp.nunits.toNat) (hset : bitmap.get u = true) : s.Taken i nr.toNat := by
  have hiff := h.used_iff hu
  rw [QhgpuMempool.used, h.arrays.bitmap_eq] at hiff
  obtain ⟨b, hb, hholds⟩ := hiff.mp hset
  exact ⟨b, hb, u, hle, hlt, hholds⟩

private theorem not_taken (h : s.Exact bitmap allocSz) (hfit : i + nr.toNat ≤ s.gmp.nunits.toNat)
    (hclear : ∀ u, i ≤ u → u < i + nr.toNat → bitmap.get u = false) : ¬s.Taken i nr.toNat := by
  rintro ⟨b, hb, u, hle, hlt, hholds⟩
  have hiff := h.used_iff (Nat.lt_of_lt_of_le hlt hfit)
  rw [QhgpuMempool.used, h.arrays.bitmap_eq, Option.any_some, hclear u hle hlt] at hiff
  cases hiff.mpr ⟨b, hb, hholds⟩

/-- When the search fails, every run of units meets a block in hand. -/
theorem all_taken (h : s.Exact bitmap allocSz) (hfind : FindsEveryArea find) (hpos : 0 < nr.toNat)
    (hnone : s.gmp.nunits.toNat ≤ (find bitmap.get s.gmp.nunits nr).toNat)
    (hfit : i + nr.toNat ≤ s.gmp.nunits.toNat) : s.Taken i nr.toNat := by
  by_cases hset : bitmap.get i = true
  · exact h.taken (Nat.le_refl i) (by omega) (by omega) hset
  · obtain ⟨u, hle, hlt, hset⟩ :=
      hfind.complete hnone i (by omega) (Bool.eq_false_iff.mpr hset) hfit
    exact h.taken hle hlt (by omega) hset

/-- When it succeeds, it has found the first run that meets none. -/
theorem firstFree (h : s.Exact bitmap allocSz) (hfind : FindsZeroArea find) (hpos : 0 < nr.toNat)
    (hidx : (find bitmap.get s.gmp.nunits nr).toNat < s.gmp.nunits.toNat) :
    s.FirstFree (find bitmap.get s.gmp.nunits nr).toNat nr.toNat := by
  have hfit := hfind.fits hidx
  refine ⟨hfit, h.not_taken hfit (hfind.area_clear hidx), ?_⟩
  intro j hj
  by_cases hset : bitmap.get j = true
  · exact h.taken (Nat.le_refl j) (by omega) (by omega) hset
  · obtain ⟨u, hle, hlt, hset⟩ := hfind.least hidx j hj (Bool.eq_false_iff.mpr hset)
    exact h.taken hle hlt (by omega) hset

end PoolClients.Exact

/-- In every such run, when a client asks for more bytes: a null pointer says that every run of
as many units as they need meets a block in hand, and any other is the address of the first run
that meets none. -/
theorem vmalloc_null_iff (hfind : FindsEveryArea find) (hcleared : gmp.Cleared)
    (hmapped : gmp.Mapped) (calls : List PoolCall) (s : PoolClients)
    (hok : StepRun.Meets (clientStep find) AskOk ⟨gmp, []⟩ calls)
    (hrun : StepRun.run (clientStep find) ⟨gmp, []⟩ calls = some s) (nbytes : Word)
    (hpos : 0 < (reqNunits nbytes).toNat) :
    ∃ p gmp', qhgpuVmalloc find s.gmp nbytes = some (p, gmp') ∧
      (p = 0 ↔ ∀ i, i + (reqNunits nbytes).toNat ≤ s.gmp.nunits.toNat →
        s.Taken i (reqNunits nbytes).toNat) ∧
      (p ≠ 0 → ∃ i, p = s.gmp.unitAddr i ∧ s.FirstFree i (reqNunits nbytes).toNat) := by
  obtain ⟨bitmap, allocSz, hexact⟩ :=
    exact_of_meets hfind.toFindsZeroArea hcleared hmapped hok hrun
  obtain ⟨p, gmp', hcall, -⟩ := QhgpuMempool.Represented.qhgpuVmalloc hfind.toFindsZeroArea
    ⟨bitmap, allocSz, hexact.arrays, hexact.sound⟩ nbytes
  refine ⟨p, gmp', hcall, ?_⟩
  rcases qhgpuVmalloc_cases hexact.arrays hcall with ⟨hnone, rfl, -⟩ | ⟨hidx, hp, -⟩
  · constructor
    · exact iff_of_true rfl fun i hfit ↦ hexact.all_taken hfind hpos hnone hfit
    · exact fun hne ↦ absurd rfl hne
  · have hfirst := hexact.firstFree hfind.toFindsZeroArea hpos hidx
    generalize find bitmap.get s.gmp.nunits (reqNunits nbytes) = idx at *
    have haddr : p = s.gmp.unitAddr idx.toNat := by
      rw [hp, QhgpuMempool.unitAddr, BitVec.ofNat_toNat, BitVec.setWidth_eq]
    constructor
    · refine iff_of_false ?_ ?_
      · rw [haddr]
        exact unitAddr_ne_zero hexact.mapped hidx
      · intro hall
        exact hfirst.free (hall idx.toNat hfirst.fits)
    · exact fun _ ↦ ⟨idx.toNat, haddr, hfirst⟩

private theorem findsEveryArea_scanZeroArea : FindsEveryArea scanZeroArea := by
  refine ⟨findsZeroArea_scanZeroArea, ?_⟩
  intro map size nr hnone i hi hclear hfit
  rw [scanZeroArea] at hnone
  have hsize := size.isLt
  cases hfind : (List.range size.toNat).find? fun i ↦
      !map i && decide (i + nr.toNat ≤ size.toNat) &&
        (List.range nr.toNat).all fun k ↦ !map (i + k) with
  | some j =>
    have hj := (List.find?_range_eq_some.mp hfind).2.1
    rw [List.mem_range] at hj
    rw [hfind, Option.getD_some, BitVec.toNat_ofNat] at hnone
    omega
  | none =>
    have hbad := List.find?_eq_none.mp hfind i (List.mem_range.mpr hi)
    simp [hclear, hfit] at hbad
    obtain ⟨k, hk, hset⟩ := hbad
    exact ⟨i + k, by omega, by omega, hset⟩

/-- With unit 2 of eight in hand, six units are refused, and three are given behind it. -/
theorem vmalloc_null_iff_six : ∃ s,
    StepRun.run (clientStep scanZeroArea) ⟨clearedPool, []⟩ twoBlocks = some s ∧
      (qhgpuVmalloc scanZeroArea s.gmp 307200).map Prod.fst = some 0 ∧
      (∀ i, i + 6 ≤ 8 → s.Taken i 6) ∧
      (qhgpuVmalloc scanZeroArea s.gmp 153600).map Prod.fst = some 0xffffc90000425800#64 ∧
      ∃ i, 0xffffc90000425800#64 = s.gmp.unitAddr i ∧ s.FirstFree i 3 := by
  obtain ⟨s, hrun, hnull, hthree, hunits⟩ : ∃ s,
      StepRun.run (clientStep scanZeroArea) ⟨clearedPool, []⟩ twoBlocks = some s ∧
        (qhgpuVmalloc scanZeroArea s.gmp 307200).map Prod.fst = some 0 ∧
        (qhgpuVmalloc scanZeroArea s.gmp 153600).map Prod.fst = some 0xffffc90000425800#64 ∧
        s.gmp.nunits.toNat = 8 := ⟨_, rfl, rfl, rfl, rfl⟩
  have hok : StepRun.Meets (clientStep scanZeroArea) AskOk ⟨clearedPool, []⟩ twoBlocks := by
    apply StepRun.meets_of_forall
    intro c hc t
    simp only [twoBlocks, List.mem_cons, List.not_mem_nil, or_false] at hc
    rcases hc with rfl | rfl | rfl
    · exact Or.inl (by decide)
    · exact Or.inl (by decide)
    · trivial
  refine ⟨s, hrun, hnull, ?_, hthree, ?_⟩
  · obtain ⟨p, gmp', hcall, hiff, -⟩ := vmalloc_null_iff findsEveryArea_scanZeroArea
      clearedPool_cleared clearedPool_mapped twoBlocks s hok hrun 307200 (by decide)
    rw [hcall] at hnull
    rw [hunits] at hiff
    exact hiff.mp (Option.some.inj hnull)
  · obtain ⟨p, gmp', hcall, -, hfirst⟩ := vmalloc_null_iff findsEveryArea_scanZeroArea
      clearedPool_cleared clearedPool_mapped twoBlocks s hok hrun 153600 (by decide)
    rw [hcall] at hthree
    obtain rfl : p = 0xffffc90000425800#64 := Option.some.inj hthree
    exact hfirst (by decide)

end QHGPU
