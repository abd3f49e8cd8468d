import QHGPU.Kernel.PoolAlloc

/-!
# Blocks in the hands of clients

What `qhgpu_vmalloc` and `qhgpu_vfree` owe to clients that give back only what they hold.
Addresses are counted in bytes from `kva`.
-/

namespace QHGPU

/-- A block that a client holds: the pointer it got, and the size it had asked for. -/
structure Block where
  p : Word
  nbytes : Word
  deriving DecidableEq, Repr

/-- The pool, and the blocks in the hands of clients. -/
structure PoolClients where
  gmp : QhgpuMempool
  live : List Block

/-- One call of a client. It gives back a pointer that it holds, and a null pointer is not
held. -/
def clientStep (find : (Nat → Bool) → BitVec 32 → BitVec 32 → Word) (s : PoolClients) :
    PoolCall → Option PoolClients
  | .qhgpuVmalloc nbytes =>
    (qhgpuVmalloc find s.gmp nbytes).map fun (p, gmp) ↦
      { gmp := gmp, live := if p = 0 then s.live else s.live ++ [⟨p, nbytes⟩] }
  | .qhgpuVfree p =>
    if p ∈ s.live.map Block.p then
      (qhgpuVfree s.gmp p).map fun gmp ↦
        { gmp := gmp, live := s.live.eraseP fun b ↦ b.p = p }
    else none

/-- The first byte of the block. -/
def Block.start (b : Block) (kva : Word) : Nat := (b.p - kva).toNat

/-- The units that `nbytes` bytes take. -/
def Block.count (b : Block) : Nat := (b.nbytes.toNat + qhgpuBufUnitSize - 1) / qhgpuBufUnitSize

/-- A unit of the block. -/
def Block.Holds (b : Block) (kva : Word) (u : Nat) : Prop :=
  b.start kva / qhgpuBufUnitSize ≤ u ∧ u < b.start kva / qhgpuBufUnitSize + b.count

instance (b : Block) (kva : Word) (u : Nat) : Decidable (b.Holds kva u) :=
  inferInstanceAs (Decidable (_ ∧ _))

/-- The bit of a unit. -/
def QhgpuMempool.used (gmp : QhgpuMempool) (u : Nat) : Bool := gmp.bitmap.any fun map ↦ map.get u

/-- Every block in the hands of a client lies inside the pool, apart from the others, its units
are in use, and giving it back makes free exactly these. -/
structure PoolClients.Belong (s : PoolClients) : Prop where
  inside : ∀ b ∈ s.live,
    b.start s.gmp.kva + b.nbytes.toNat ≤ s.gmp.nunits.toNat * qhgpuBufUnitSize
  apart : s.live.Pairwise fun b c ↦ b.p ≠ c.p ∧
    (b.start s.gmp.kva + b.nbytes.toNat ≤ c.start s.gmp.kva ∨
      c.start s.gmp.kva + c.nbytes.toNat ≤ b.start s.gmp.kva)
  allocated : ∀ b ∈ s.live, ∀ u, b.Holds s.gmp.kva u → s.gmp.used u = true
  frees : ∀ b ∈ s.live, ∃ gmp, qhgpuVfree s.gmp b.p = some gmp ∧
    ∀ u, gmp.used u = (s.gmp.used u && !decide (b.Holds s.gmp.kva u))

/-- The units counted for `nbytes` bytes: the sum wraps at `2^64`, the quotient is cut to 32
bits. -/
def countFor (nbytes : Nat) : Nat :=
  (nbytes + (qhgpuBufUnitSize - 1)) % 2 ^ 64 / qhgpuBufUnitSize % 2 ^ 32

/-- No `n` units in a row are free, and no single one for `n = 0`. -/
def QhgpuMempool.Full (gmp : QhgpuMempool) (n : Nat) : Prop :=
  ∀ i, i + max n 1 ≤ gmp.nunits.toNat → ∃ u, i ≤ u ∧ u < i + max n 1 ∧ gmp.used u = true

/-- What a client must keep to: it asks for at least one byte, and for no more than `2^32 - 1`
units hold, unless the pool is too full for the units that are counted. -/
def AskOk (s : PoolClients) : PoolCall → Prop
  | .qhgpuVmalloc nbytes =>
    (0 < nbytes.toNat ∧ nbytes.toNat ≤ (2 ^ 32 - 1) * qhgpuBufUnitSize) ∨
      s.gmp.Full (countFor nbytes.toNat)
  | .qhgpuVfree _ => True

variable {find : (Nat → Bool) → BitVec 32 → BitVec 32 → Word} {gmp gmp' : QhgpuMempool}
  {bitmap : KArray Bool} {allocSz : KArray (BitVec 32)}

/-! ### The two calls on a pool in order -/

private theorem toNat_reqNunits (nbytes : Word) : (reqNunits nbytes).toNat =
    (2 ^ 64 - 1 + (nbytes.toNat + 51200) % 2 ^ 64) % 2 ^ 64 / 51200 % 2 ^ 32 := by
  have hone : (1 : Word).toNat = 1 := rfl
  rw [reqNunits, BitVec.toNat_setWidth, BitVec.toNat_udiv, BitVec.toNat_sub, BitVec.toNat_add,
    toNat_unitSize, hone]

/-- What `qhgpu_vmalloc` counts. -/
theorem toNat_reqNunits_eq_countFor (nbytes : Word) :
    (reqNunits nbytes).toNat = countFor nbytes.toNat := by
  have hunit : qhgpuBufUnitSize - 1 = 51199 := rfl
  have hsum : (2 ^ 64 - 1 + (nbytes.toNat + 51200) % 2 ^ 64) % 2 ^ 64 =
      (nbytes.toNat + 51199) % 2 ^ 64 := by omega
  rw [toNat_reqNunits, countFor, hunit, hsum, qhgpuBufUnitSize_eq]

/-- Up to the bytes of `2^32 - 1` units nothing is cut. -/
theorem le_reqNunits {nbytes : Word} (h : nbytes.toNat ≤ (2 ^ 32 - 1) * qhgpuBufUnitSize) :
    nbytes.toNat ≤ (reqNunits nbytes).toNat * qhgpuBufUnitSize := by
  have hunit : qhgpuBufUnitSize - 1 = 51199 := rfl
  have hbound : nbytes.toNat ≤ 219902325504000 := h
  have hfit : (nbytes.toNat + 51199) % 2 ^ 64 = nbytes.toNat + 51199 :=
    Nat.mod_eq_of_lt (by omega)
  have hcut : (nbytes.toNat + 51199) / 51200 < 2 ^ 32 := by omega
  rw [toNat_reqNunits_eq_countFor, countFor, hunit, qhgpuBufUnitSize_eq, hfit,
    Nat.mod_eq_of_lt hcut]
  omega

/-- In a pool that is too full the search fails. -/
theorem QhgpuMempool.Full.le_find (hfind : FindsZeroArea find) (harrays : gmp.Arrays bitmap allocSz)
    {nbytes : Word} (h : gmp.Full (countFor nbytes.toNat)) :
    gmp.nunits.toNat ≤ (find bitmap.get gmp.nunits (reqNunits nbytes)).toNat := by
  rw [← toNat_reqNunits_eq_countFor] at h
  by_contra hnot
  have hidx := Nat.lt_of_not_le hnot
  have hfit := hfind.fits hidx
  obtain ⟨u, hle, hlt, hused⟩ :=
    h (find bitmap.get gmp.nunits (reqNunits nbytes)).toNat (by omega)
  rw [QhgpuMempool.used, harrays.bitmap_eq] at hused
  have hclear : bitmap.get u = false := by
    by_cases hfirst : u = (find bitmap.get gmp.nunits (reqNunits nbytes)).toNat
    · rw [hfirst]
      exact hfind.start_clear hidx
    · exact hfind.area_clear hidx u hle (by omega)
  rw [Option.any_some, hclear] at hused
  cases hused

/-- A count of units that covers the bytes is the exact one. -/
theorem reqNunits_exact {nbytes : Word} (hpos : 0 < nbytes.toNat)
    (hcover : nbytes.toNat ≤ (reqNunits nbytes).toNat * qhgpuBufUnitSize) :
    (reqNunits nbytes).toNat =
      (nbytes.toNat + qhgpuBufUnitSize - 1) / qhgpuBufUnitSize := by
  have hlt := nbytes.isLt
  rw [toNat_reqNunits, qhgpuBufUnitSize_eq] at hcover ⊢
  -- the sum in 64 bits is exact, or it has wrapped to less than one unit
  have hsum : (2 ^ 64 - 1 + (nbytes.toNat + 51200) % 2 ^ 64) % 2 ^ 64 = nbytes.toNat + 51199 ∨
      (2 ^ 64 - 1 + (nbytes.toNat + 51200) % 2 ^ 64) % 2 ^ 64 < 51200 := by omega
  rcases hsum with hsum | hsum
  · rw [hsum] at hcover ⊢
    omega
  · rw [Nat.div_eq_of_lt hsum] at hcover
    omega

/-- `qhgpu_vfree` of the first unit of a block. -/
theorem qhgpuVfree_block (harrays : gmp.Arrays bitmap allocSz)
    (hsound : RunTable.Sound gmp.nunits.toNat (poolTable gmp.nunits.toNat bitmap.get allocSz.get))
    {i : Nat} (hi : i < gmp.nunits.toNat) (hsize : 0 < (allocSz.get i).toNat) :
    qhgpuVfree gmp (gmp.kva + BitVec.ofNat 64 i * BitVec.ofNat 64 qhgpuBufUnitSize) =
      some { gmp with
        bitmap := some { bitmap with get := bitmapClear bitmap.get i (allocSz.get i).toNat }
        allocSz := some { allocSz with get := Function.update allocSz.get i 0 } } := by
  have hb := harrays.nunits_le_bitmap
  have ha := harrays.nunits_le_allocSz
  have hlt := gmp.nunits.isLt
  have hend : i + (allocSz.get i).toNat ≤ gmp.nunits.toNat := by
    have hinside := hsound.inside i
    simp only [poolTable, if_pos hi] at hinside
    exact hinside hsize
  have hidx := unit_index gmp.kva (show i < 2 ^ 32 by omega)
  have htoNat : (BitVec.ofNat 64 i).toNat = i := by
    rw [BitVec.toNat_ofNat]
    omega
  have hne : allocSz.get i ≠ 0 := by
    intro hzero
    rw [hzero] at hsize
    exact absurd hsize (by decide)
  have hin : ¬gmp.nunits.setWidth 64 ≤ BitVec.ofNat 64 i := by
    rw [BitVec.le_def, toNat_nunits, htoNat]
    omega
  have hfits : ¬gmp.nunits.setWidth 64 - BitVec.ofNat 64 i < (allocSz.get i).setWidth 64 := by
    rw [BitVec.lt_def, toNat_nunits, BitVec.toNat_sub, toNat_nunits, htoNat]
    omega
  rw [qhgpuVfree, hidx]
  simp only
  rw [if_neg hin, harrays.allocSz_eq]
  simp only [htoNat]
  rw [if_pos (by omega), if_neg hne, if_neg hfits, harrays.bitmap_eq]
  simp only
  rw [if_pos (by omega)]

/-! ### The invariant -/

/-- The two arrays agree, and every block in the hands of a client is one of theirs. -/
structure PoolClients.Held (s : PoolClients) (bitmap : KArray Bool)
    (allocSz : KArray (BitVec 32)) : Prop where
  arrays : s.gmp.Arrays bitmap allocSz
  sound : RunTable.Sound s.gmp.nunits.toNat
    (poolTable s.gmp.nunits.toNat bitmap.get allocSz.get)
  block : ∀ b ∈ s.live, ∃ i < s.gmp.nunits.toNat,
    b.p = s.gmp.kva + BitVec.ofNat 64 i * BitVec.ofNat 64 qhgpuBufUnitSize ∧
      0 < b.nbytes.toNat ∧ (allocSz.get i).toNat = b.count
  distinct : s.live.Pairwise fun b c ↦ b.p ≠ c.p

variable {s s' : PoolClients} {b c : Block}

/-- The units of a block in the hands of a client. -/
theorem PoolClients.Held.units (h : s.Held bitmap allocSz) (hb : b ∈ s.live) :
    ∃ i < s.gmp.nunits.toNat,
      b.p = s.gmp.kva + BitVec.ofNat 64 i * BitVec.ofNat 64 qhgpuBufUnitSize ∧
      b.start s.gmp.kva = i * qhgpuBufUnitSize ∧ (allocSz.get i).toNat = b.count ∧
      0 < b.count ∧ b.nbytes.toNat ≤ b.count * qhgpuBufUnitSize ∧
      i + b.count ≤ s.gmp.nunits.toNat ∧
      ∀ u, b.Holds s.gmp.kva u ↔ i ≤ u ∧ u < i + b.count := by
  obtain ⟨i, hi, hp, hpos, hsize⟩ := h.block b hb
  have hlt := s.gmp.nunits.isLt
  have hstart : b.start s.gmp.kva = i * qhgpuBufUnitSize := by
    rw [Block.start, hp]
    exact unit_offset s.gmp.kva (by omega)
  have hcount : 0 < b.count := by
    simp only [Block.count, qhgpuBufUnitSize]
    omega
  have hend := h.sound.inside i
  simp only [poolTable, if_pos hi, hsize] at hend
  refine ⟨i, hi, hp, hstart, hsize, hcount, ?_, hend hcount, ?_⟩
  · simp only [Block.count, qhgpuBufUnitSize]
    omega
  · intro u
    rw [Block.Holds, hstart, Nat.mul_div_cancel i (by decide : 0 < qhgpuBufUnitSize)]

/-- What `Held` says of the arrays, as clients see it. -/
theorem PoolClients.Held.belong (h : s.Held bitmap allocSz) : s.Belong where
  inside b hb := by
    obtain ⟨i, _, _, hstart, _, _, hbytes, hend, _⟩ := h.units hb
    rw [hstart]
    simp only [qhgpuBufUnitSize] at hbytes ⊢
    omega
  apart := by
    refine List.Pairwise.imp_of_mem ?_ h.distinct
    intro b c hb hc hne
    obtain ⟨i, hi, hp, hstart, hsize, hpos, hbytes, _, _⟩ := h.units hb
    obtain ⟨j, hj, hp', hstart', hsize', hpos', hbytes', _, _⟩ := h.units hc
    have hij : i ≠ j := by
      rintro rfl
      exact hne (hp.trans hp'.symm)
    have hdisjoint := h.sound.disjoint i j hij
    simp only [poolTable, if_pos hi, if_pos hj, hsize, hsize'] at hdisjoint
    have hruns := hdisjoint hpos hpos'
    rw [hstart, hstart']
    simp only [qhgpuBufUnitSize] at hbytes hbytes' ⊢
    exact ⟨hne, by omega⟩
  allocated b hb u hu := by
    obtain ⟨i, hi, _, _, hsize, _, _, hend, hunits⟩ := h.units hb
    obtain ⟨hle, hlt⟩ := (hunits u).mp hu
    have hbit := (h.sound.bit_iff u).mpr
    simp only [poolTable, Bool.and_eq_true, decide_eq_true_eq] at hbit
    rw [QhgpuMempool.used, h.arrays.bitmap_eq]
    refine (hbit ⟨i, hle, ?_⟩).2
    rw [if_pos hi, hsize]
    exact hlt
  frees b hb := by
    obtain ⟨i, hi, hp, _, hsize, hpos, _, _, hunits⟩ := h.units hb
    rw [hp, qhgpuVfree_block h.arrays h.sound hi (hsize ▸ hpos)]
    refine ⟨_, rfl, ?_⟩
    intro u
    simp only [QhgpuMempool.used, h.arrays.bitmap_eq, Option.any_some, bitmapClear, hsize,
      hunits u]
    split
    · next hin => simp [hin]
    · next hout => simp [hout]

/-- A new block is apart from the old ones. -/
theorem PoolClients.Held.vmalloc (hfind : FindsZeroArea find) (h : s.Held bitmap allocSz)
    {nbytes : Word} (hok : AskOk s (.qhgpuVmalloc nbytes))
    (hs : clientStep find s (.qhgpuVmalloc nbytes) = some s') :
    ∃ bitmap allocSz, s'.Held bitmap allocSz := by
  obtain ⟨⟨p, gmp'⟩, hcall, rfl⟩ := Option.map_eq_some_iff.mp hs
  rcases qhgpuVmalloc_cases h.arrays hcall with ⟨_, rfl, rfl⟩ | ⟨hidx, hp, rfl⟩
  · simp only [if_true]
    exact ⟨bitmap, allocSz, h.arrays, h.sound, h.block, h.distinct⟩
  · rcases hok with ⟨hpos, hcover⟩ | hfull
    · have hexact := reqNunits_exact hpos (le_reqNunits hcover)
      have hfit := hfind.fits hidx
      have hstart := hfind.start_clear hidx
      have harea := hfind.area_clear hidx
      generalize find bitmap.get s.gmp.nunits (reqNunits nbytes) = idx at *
      have hbit : (poolTable s.gmp.nunits.toNat bitmap.get allocSz.get).bit idx.toNat = false := by
        simp [poolTable, hstart]
      -- no block starts at a unit that is clear
      have hzero := h.sound.size_eq_zero hbit
      simp only [poolTable, if_pos hidx] at hzero
      have hother {b : Block} (hb : b ∈ s.live) : ∃ i < s.gmp.nunits.toNat, i ≠ idx.toNat ∧
          b.p = s.gmp.kva + BitVec.ofNat 64 i * BitVec.ofNat 64 qhgpuBufUnitSize ∧
            0 < b.nbytes.toNat ∧ (allocSz.get i).toNat = b.count := by
        obtain ⟨i, hi, hpb, hbytes, hsize⟩ := h.block b hb
        refine ⟨i, hi, ?_, hpb, hbytes, hsize⟩
        rintro rfl
        obtain ⟨_, _, _, _, _, hcount, _⟩ := h.units hb
        omega
      have hofNat : BitVec.ofNat 64 idx.toNat = idx := BitVec.eq_of_toNat_eq (by
        rw [BitVec.toNat_ofNat]
        exact Nat.mod_eq_of_lt idx.isLt)
      refine ⟨_, _, ⟨rfl, rfl, h.arrays.nunits_le_bitmap, h.arrays.nunits_le_allocSz⟩, ?_, ?_, ?_⟩
      · simp only
        rw [poolTable_claim hidx hfit]
        refine h.sound.claim hbit hfit ?_
        intro b hle hlt
        simp [poolTable, harea b hle hlt]
      · intro b hb
        have hcases : b ∈ s.live ∨ b = ⟨p, nbytes⟩ := by
          simp only at hb
          split at hb
          · exact Or.inl hb
          · simpa using hb
        rcases hcases with hb | rfl
        · obtain ⟨i, hi, hne, hpb, hbytes, hsize⟩ := hother hb
          refine ⟨i, hi, hpb, hbytes, ?_⟩
          simp only
          rwa [Function.update_of_ne hne]
        · refine ⟨idx.toNat, hidx, ?_, hpos, ?_⟩
          · rw [hofNat]
            exact hp
          · simp only
            rw [Function.update_self]
            exact hexact
      · simp only
        split
        · exact h.distinct
        · rw [List.pairwise_append]
          refine ⟨h.distinct, List.pairwise_singleton _ _, ?_⟩
          intro b hb c hc
          obtain rfl := List.mem_singleton.mp hc
          obtain ⟨i, hi, hne, hpb, _⟩ := hother hb
          rw [hpb, hp, ← hofNat]
          intro heq
          have hlt := s.gmp.nunits.isLt
          have hoffset := unit_offset s.gmp.kva (i := i) (by omega)
          rw [heq, unit_offset s.gmp.kva (by omega), qhgpuBufUnitSize_eq] at hoffset
          exact hne (by omega)
    · exact absurd (hfull.le_find hfind h.arrays) (Nat.not_le.mpr hidx)

/-- No other block has the pointer that is given back. -/
theorem ne_of_mem_eraseP {p : Word} {live : List Block}
    (h : live.Pairwise fun b c ↦ b.p ≠ c.p) (hc : c ∈ live.eraseP fun b ↦ b.p = p) : c.p ≠ p := by
  induction live with
  | nil => cases hc
  | cons b live ih =>
    obtain ⟨hb, hlive⟩ := List.pairwise_cons.mp h
    by_cases hp : b.p = p
    · rw [List.eraseP_cons_of_pos (by simpa using hp)] at hc
      exact fun heq ↦ hb c hc (hp.trans heq.symm)
    · rw [List.eraseP_cons_of_neg (by simpa using hp)] at hc
      rcases List.mem_cons.mp hc with rfl | hc
      · exact hp
      · exact ih hlive hc

/-- A block given back leaves the others. -/
theorem PoolClients.Held.vfree (h : s.Held bitmap allocSz) {p : Word}
    (hs : clientStep find s (.qhgpuVfree p) = some s') :
    ∃ bitmap allocSz, s'.Held bitmap allocSz := by
  rw [clientStep, Option.ite_none_right_eq_some] at hs
  obtain ⟨hmem, hs⟩ := hs
  obtain ⟨gmp', hcall, rfl⟩ := Option.map_eq_some_iff.mp hs
  obtain ⟨b, hb, rfl⟩ := List.mem_map.mp hmem
  obtain ⟨i, hi, hp, _, hsize, hpos, _⟩ := h.units hb
  rw [hp, qhgpuVfree_block h.arrays h.sound hi (hsize ▸ hpos)] at hcall
  obtain rfl := Option.some.inj hcall
  refine ⟨_, _, ⟨rfl, rfl, h.arrays.nunits_le_bitmap, h.arrays.nunits_le_allocSz⟩, ?_, ?_, ?_⟩
  · simp only
    rw [poolTable_release hi]
    exact h.sound.release i
  · intro c hc
    have hcl : c ∈ s.live := List.mem_of_mem_eraseP hc
    obtain ⟨j, hj, hpc, hbytes, hsize'⟩ := h.block c hcl
    have hne : j ≠ i := by
      rintro rfl
      exact ne_of_mem_eraseP h.distinct hc (hpc.trans hp.symm)
    refine ⟨j, hj, hpc, hbytes, ?_⟩
    simp only
    rwa [Function.update_of_ne hne]
  · exact h.distinct.sublist List.eraseP_sublist

/-- A call that keeps to `AskOk` keeps the blocks those of the table. -/
theorem PoolClients.Held.step (hfind : FindsZeroArea find) (h : s.Held bitmap allocSz)
    {c : PoolCall} (hok : AskOk s c) (hs : clientStep find s c = some s') :
    ∃ bitmap allocSz, s'.Held bitmap allocSz := by
  cases c with
  | qhgpuVmalloc nbytes => exact h.vmalloc hfind hok hs
  | qhgpuVfree p => exact h.vfree hs

/-- From a cleared pool, in every run in which clients ask for at least one byte and for no more
than `2^32 - 1` units hold, unless the pool is too full for what the driver counts: every block in
the hands of a client is its own. -/
theorem belong_of_meets (hfind : FindsZeroArea find) (hcleared : gmp.Cleared)
    (calls : List PoolCall) (s : PoolClients)
    (hok : StepRun.Meets (clientStep find) AskOk ⟨gmp, []⟩ calls)
    (hrun : StepRun.run (clientStep find) ⟨gmp, []⟩ calls = some s) : s.Belong := by
  have hstart : ∃ bitmap allocSz, PoolClients.Held ⟨gmp, []⟩ bitmap allocSz := by
    obtain ⟨bitmap, allocSz, harrays, hsound⟩ := hcleared.represented
    refine ⟨bitmap, allocSz, harrays, hsound, ?_, List.Pairwise.nil⟩
    intro b hb
    cases hb
  obtain ⟨bitmap, allocSz, hheld⟩ := StepRun.run_invariant
    (I := fun s : PoolClients ↦ ∃ bitmap allocSz, s.Held bitmap allocSz)
    (fun _ _ _ ⟨_, _, hheld⟩ hcond hs ↦ hheld.step hfind hcond hs) hstart hok hrun
  exact hheld.belong

/-- Two blocks, and the first given back. -/
def twoBlocks : List PoolCall :=
  [.qhgpuVmalloc 100000, .qhgpuVmalloc 51200, .qhgpuVfree 0xffffc90000400000#64]

/-- In the cleared pool of eight units. -/
theorem belong_of_meets_two : ∃ s,
    StepRun.run (clientStep scanZeroArea) ⟨clearedPool, []⟩ twoBlocks = some s ∧
      s.live = [⟨0xffffc90000419000#64, 51200⟩] ∧ s.Belong := by
  obtain ⟨s, hrun, hlive⟩ : ∃ s,
      StepRun.run (clientStep scanZeroArea) ⟨clearedPool, []⟩ twoBlocks = some s ∧
        s.live = [⟨0xffffc90000419000#64, 51200⟩] := ⟨_, rfl, rfl⟩
  refine ⟨s, hrun, hlive, belong_of_meets findsZeroArea_scanZeroArea clearedPool_cleared twoBlocks
    s (StepRun.meets_of_forall ?_) hrun⟩
  intro c hc t
  simp only [twoBlocks, List.mem_cons, List.not_mem_nil, or_false] at hc
  rcases hc with rfl | rfl | rfl
  · exact Or.inl (by decide)
  · exact Or.inl (by decide)
  · trivial

/-- Two requests for no bytes get the same pointer. -/
theorem not_belong_zero : ¬∀ (find : (Nat → Bool) → BitVec 32 → BitVec 32 → Word)
    (gmp : QhgpuMempool) (calls : List PoolCall) (s : PoolClients), FindsZeroArea find →
      gmp.Cleared → StepRun.run (clientStep find) ⟨gmp, []⟩ calls = some s → s.Belong := by
  intro hall
  obtain ⟨s, hrun, hlive⟩ : ∃ s, StepRun.run (clientStep scanZeroArea) ⟨clearedPool, []⟩
      [.qhgpuVmalloc 0, .qhgpuVmalloc 0] = some s ∧
        s.live = [⟨0xffffc90000400000#64, 0⟩, ⟨0xffffc90000400000#64, 0⟩] := ⟨_, rfl, rfl⟩
  have hapart := (hall _ _ _ s findsZeroArea_scanZeroArea clearedPool_cleared hrun).apart
  rw [hlive] at hapart
  obtain ⟨hfirst, _⟩ := List.pairwise_cons.mp hapart
  exact (hfirst _ List.mem_cons_self).1 rfl

end QHGPU
