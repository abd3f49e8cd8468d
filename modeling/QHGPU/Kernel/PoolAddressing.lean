import QHGPU.Kernel.Mempool

/-!
# Which pool pointers reach the daemon unharmed

A pool pointer is an address in the area `vmap` made of the frames in `gmp->pages`; the
daemon reads the rebased address through its own page table. The page list holds one frame
per 512 bytes of the buffer, `vmap` gives each of them a real page.
-/

namespace QHGPU

/-- `qhgpu_v2page`, `src/qhgpu/main.c:161–183`, over the page table `pt` of the daemon: the frame
that holds `v`. -/
def v2pageOf (pt : Nat → Page) (v : Word) : Page := pt (v.toNat / 2 ^ pageShift)

/-- The physical byte, frame and offset, behind user address `v`. -/
def daemonByte (pt : Nat → Page) (v : Word) : Page × Nat :=
  (v2pageOf pt v, v.toNat % 2 ^ pageShift)

/-- The physical byte behind `p` in the area where `vmap` laid out the frames of `pages`
from `kva`, one real page each. -/
def QhgpuMempool.kernelByte (gmp : QhgpuMempool) (p : Word) : Option (Page × Nat) :=
  gmp.pages.map fun pages ↦
    (pages.get ((p - gmp.kva).toNat / 2 ^ pageShift), (p - gmp.kva).toNat % 2 ^ pageShift)

/-- The three pointer fields that `fill_ku_request` may rebase. -/
inductive PtrField where
  | inp
  | out
  | udata
  deriving DecidableEq

/-- The pointer a client put into the field. -/
def PtrField.ofRequest (req : QhgpuRequest) : PtrField → Word
  | .inp => req.inp
  | .out => req.out
  | .udata => req.udata

/-- The pointer the daemon receives for the field. -/
def PtrField.ofKuRequest (kureq : QhgpuKuRequest) : PtrField → Word
  | .inp => kureq.inp
  | .out => kureq.out
  | .udata => kureq.data

/-- `p` lies in `[kva, kva+size)`. -/
def InBuffer (kva size p : Word) : Prop :=
  kva.toNat ≤ p.toNat ∧ p.toNat < kva.toNat + size.toNat

/-- What is asked of a pool pointer `p` that the daemon receives as `q`. -/
structure PoolAddressing (gb : QhgpuGpuMemInfo) (pt : Nat → Page) (gmp : QhgpuMempool)
    (p q : Word) : Prop where
  rebases_iff : gmp.rebases p = true ↔ InBuffer gmp.kva gb.size p
  same_byte : gmp.rebases p = true → gmp.kernelByte p = some (daemonByte pt q)
  unchanged : ¬InBuffer gmp.kva gb.size p → q = p

/-- The window in which `fill_ku_request` rebases, from the registered size alone. -/
def windowSize (size : Word) : Word :=
  (((size / BitVec.ofNat 64 pageSize).setWidth 32) <<< pageShift).setWidth 64

/-- Pointers into the buffer must lie in its first real page, inside the window, with the
buffer on a page boundary; other pointers must be outside the window too. -/
def Addressable (gb : QhgpuGpuMemInfo) (kva p : Word) : Prop :=
  (InBuffer kva gb.size p ∧ addrWithin p kva (windowSize gb.size) = true ∧
    gb.uva.toNat % 2 ^ pageShift = 0 ∧ p.toNat - kva.toNat < 2 ^ pageShift) ∨
  (¬InBuffer kva gb.size p ∧ addrWithin p kva (windowSize gb.size) = false)

/-- The page list holds one frame per `PAGE_SIZE` bytes. -/
theorem fillPages_apply (v2page : Word → Page) (uva : Word) (pages : Nat → Page) {n i : Nat}
    (hi : i < n) : fillPages v2page uva n pages i = v2page (uva + pageOffset i) := by
  induction n with
  | zero => omega
  | succ n ih =>
    rw [fillPages]
    by_cases h : i = n
    · subst i
      rw [Function.update_self]
    · rw [Function.update_of_ne h, ih (by omega)]

/-- A successful registration sets addresses, counts and every entry of the page list. -/
theorem setGpuMempool_ok {env : MempoolEnv} {v2page : Word → Page} {gb : QhgpuGpuMemInfo}
    {gmp : QhgpuMempool} (h : (setGpuMempool env v2page gb gmp).1 = 0) :
    let gmp' := (setGpuMempool env v2page gb gmp).2
    gmp'.uva = gb.uva ∧ gmp'.kva = env.vmap ∧ gmp'.byteSize = windowSize gb.size ∧
      ∃ pages, gmp'.pages = some pages ∧ ∀ i < gmp'.npages.toNat,
        pages.get i = v2page (gb.uva + pageOffset i) := by
  unfold setGpuMempool at h ⊢
  dsimp only at h ⊢
  split at h
  · simp [enomem] at h
  · next pages hp =>
    split at h
    · simp [enomem] at h
    · next bitmap hb =>
      split at h
      · simp [enomem] at h
      · next allocSz ha =>
        split at h
        · simp [efault] at h
        · next hv =>
          simp only [hv, if_false, true_and]
          refine ⟨rfl, _, rfl, ?_⟩
          intro i hi
          exact fillPages_apply v2page gb.uva pages.get hi

/-- Inside the window the distance from `kva` is below the window size, without wrapping. -/
theorem addrWithin_sub_lt {p base size : Word} (h : addrWithin p base size = true) :
    base.toNat ≤ p.toNat ∧ p.toNat - base.toNat < size.toNat := by
  simp only [addrWithin, Bool.and_eq_true, decide_eq_true_eq, BitVec.le_def, BitVec.lt_def,
    BitVec.toNat_add] at h
  have hp := p.isLt
  have hb := base.isLt
  have hs := size.isLt
  omega

/-- The window is below 4 GiB and no longer than the page list. -/
theorem byteSize_toNat (gmp : QhgpuMempool) :
    gmp.byteSize.toNat < 2 ^ 32 ∧ gmp.byteSize.toNat ≤ gmp.npages.toNat * 2 ^ pageShift := by
  simp only [QhgpuMempool.byteSize, BitVec.toNat_setWidth, BitVec.toNat_shiftLeft,
    Nat.shiftLeft_eq, pageShift]
  omega

/-- No `int` overflow while the page index stays inside the window. -/
theorem pageOffset_toNat {i : Nat} (hi : i < 2 ^ 20) : (pageOffset i).toNat = i * 512 := by
  have hm : (BitVec.ofNat 32 (i * pageSize)).msb = false := by
    rw [BitVec.msb_eq_false_iff_two_mul_lt, BitVec.toNat_ofNat, pageSize]
    omega
  rw [pageOffset, BitVec.signExtend_eq_setWidth_of_msb_false hm, BitVec.toNat_setWidth,
    BitVec.toNat_ofNat, pageSize]
  omega

/-- An address sum wraps at most once. -/
theorem mod_word (x : Nat) (hx : x < 2 * 2 ^ 64) :
    x % 2 ^ 64 = x ∧ x < 2 ^ 64 ∨ x % 2 ^ 64 + 2 ^ 64 = x := by
  rcases Nat.lt_or_ge x (2 ^ 64) with h | h
  · exact Or.inl ⟨Nat.mod_eq_of_lt h, h⟩
  · refine Or.inr ?_
    rw [Nat.mod_eq_sub_mod h, Nat.mod_eq_of_lt (by omega)]
    omega

/-- The two pages and the two offsets agree only on the first page of an aligned buffer:
eight entries of the page list share one frame. -/
theorem same_byte_iff {u k : Nat} (hu : u < 2 ^ 64) (hk : k < 2 ^ 32) :
    ((u + k / 4096 * 512) % 2 ^ 64 / 4096 = (u + k) % 2 ^ 64 / 4096 ∧
      k % 4096 = (u + k) % 2 ^ 64 % 4096) ↔ u % 4096 = 0 ∧ k < 4096 := by
  have h1 := mod_word (u + k / 4096 * 512) (by omega)
  have h2 := mod_word (u + k) (by omega)
  generalize (u + k / 4096 * 512) % 2 ^ 64 = x at h1 ⊢
  generalize (u + k) % 2 ^ 64 = y at h2 ⊢
  constructor
  · rintro ⟨hpage, hoff⟩
    rcases h1 with ⟨h1, h1'⟩ | h1 <;> rcases h2 with ⟨h2, h2'⟩ | h2 <;> omega
  · rintro ⟨halign, hfirst⟩
    rcases h1 with ⟨h1, h1'⟩ | h1 <;> rcases h2 with ⟨h2, h2'⟩ | h2 <;> omega

/-- A real page has 4096 bytes. -/
theorem two_pow_pageShift : 2 ^ pageShift = 4096 := rfl

section Registered

variable {env : MempoolEnv} {gb : QhgpuGpuMemInfo} {gmp : QhgpuMempool} {pt : Nat → Page}

/-- The kernel's byte behind a rebased pointer, read off the page list. -/
theorem kernelByte_of_rebases (h : (setGpuMempool env (v2pageOf pt) gb gmp).1 = 0) {p : Word}
    (hp : (setGpuMempool env (v2pageOf pt) gb gmp).2.rebases p = true) :
    p.toNat - env.vmap.toNat < 2 ^ 32 ∧
      (setGpuMempool env (v2pageOf pt) gb gmp).2.kernelByte p =
        some (pt ((gb.uva.toNat + (p.toNat - env.vmap.toNat) / 4096 * 512) % 2 ^ 64 / 4096),
          (p.toNat - env.vmap.toNat) % 4096) := by
  obtain ⟨_, hkva, _, pages, hpages, hget⟩ := setGpuMempool_ok h
  rw [QhgpuMempool.rebases, hkva] at hp
  obtain ⟨hle, hlt⟩ := addrWithin_sub_lt hp
  obtain ⟨h32, hn⟩ := byteSize_toNat (setGpuMempool env (v2pageOf pt) gb gmp).2
  have hk : p.toNat - env.vmap.toNat < 2 ^ 32 := by omega
  refine ⟨hk, ?_⟩
  have hsub : (p - env.vmap).toNat = p.toNat - env.vmap.toNat :=
    BitVec.toNat_sub_of_le (BitVec.le_def.mpr hle)
  rw [two_pow_pageShift] at hn
  rw [QhgpuMempool.kernelByte, hpages, hkva, hsub, Option.map_some, two_pow_pageShift,
    hget _ (by omega), v2pageOf, BitVec.toNat_add, pageOffset_toNat (by omega), two_pow_pageShift]

/-- The daemon's byte behind a rebased pointer. -/
theorem daemonByte_addrRebase {uva kva p : Word} (hle : kva.toNat ≤ p.toNat) :
    daemonByte pt (addrRebase uva kva p) =
      (pt ((uva.toNat + (p.toNat - kva.toNat)) % 2 ^ 64 / 4096),
        (uva.toNat + (p.toNat - kva.toNat)) % 2 ^ 64 % 4096) := by
  have hsub : (p - kva).toNat = p.toNat - kva.toNat :=
    BitVec.toNat_sub_of_le (BitVec.le_def.mpr hle)
  rw [daemonByte, v2pageOf, addrRebase, BitVec.toNat_add, hsub, two_pow_pageShift]

/-- Each pointer field is passed through the same rebase-or-copy. -/
theorem ofKuRequest_fillKuRequest (gmp : QhgpuMempool) (kureq : QhgpuKuRequest)
    (req : QhgpuRequest) (f : PtrField) :
    f.ofKuRequest (fillKuRequest gmp kureq req) = gmp.rebasePtr (f.ofRequest req) := by
  cases f <;> rfl

/-- For a registered buffer and any request, the pointer in field `f` is addressed as
promised under every page table exactly when `Addressable` holds of it. -/
theorem poolAddressing_iff (env : MempoolEnv) (gb : QhgpuGpuMemInfo) (gmp : QhgpuMempool)
    (h : ∀ pt, (setGpuMempool env (v2pageOf pt) gb gmp).1 = 0)
    (kureq : QhgpuKuRequest) (req : QhgpuRequest) (f : PtrField) :
    (∀ pt, PoolAddressing gb pt (setGpuMempool env (v2pageOf pt) gb gmp).2 (f.ofRequest req)
      (f.ofKuRequest
        (fillKuRequest (setGpuMempool env (v2pageOf pt) gb gmp).2 kureq req))) ↔
      Addressable gb env.vmap (f.ofRequest req) := by
  simp only [ofKuRequest_fillKuRequest]
  generalize f.ofRequest req = p
  have hreb (pt : Nat → Page) : (setGpuMempool env (v2pageOf pt) gb gmp).2.rebases p =
      addrWithin p env.vmap (windowSize gb.size) := by
    obtain ⟨_, hkva, hsize, _⟩ := setGpuMempool_ok (h pt)
    rw [QhgpuMempool.rebases, hkva, hsize]
  constructor
  · intro hall
    -- The identity page table tells every two user pages apart.
    obtain ⟨hiff, hbyte, _⟩ := hall id
    obtain ⟨huva, hkva, _⟩ := setGpuMempool_ok (h id)
    rw [hreb id, hkva] at hiff
    rw [hreb id] at hbyte
    by_cases hin : InBuffer env.vmap gb.size p
    · have hw := hiff.mpr hin
      have hrb := (hreb id).trans hw
      obtain ⟨hk, hker⟩ := kernelByte_of_rebases (h id) hrb
      have heq := hbyte hw
      rw [hker, QhgpuMempool.rebasePtr, if_pos hrb, huva, hkva,
        daemonByte_addrRebase (addrWithin_sub_lt hw).1] at heq
      have hpair := Prod.mk.inj (Option.some.inj heq)
      exact Or.inl ⟨hin, hw, (same_byte_iff gb.uva.isLt hk).mp hpair⟩
    · refine Or.inr ⟨hin, ?_⟩
      cases hw : addrWithin p env.vmap (windowSize gb.size)
      · rfl
      · exact absurd (hiff.mp hw) hin
  · intro hcond pt
    obtain ⟨huva, hkva, _⟩ := setGpuMempool_ok (h pt)
    rcases hcond with ⟨hin, hw, halign, hfirst⟩ | ⟨hout, hw⟩
    · have hrb := (hreb pt).trans hw
      refine ⟨?_, ?_, ?_⟩
      · rw [hkva]
        exact iff_of_true hrb hin
      · intro _
        obtain ⟨hk, hker⟩ := kernelByte_of_rebases (h pt) hrb
        have hpair := (same_byte_iff gb.uva.isLt hk).mpr ⟨halign, hfirst⟩
        rw [hker, QhgpuMempool.rebasePtr, if_pos hrb, huva, hkva,
          daemonByte_addrRebase (addrWithin_sub_lt hw).1, hpair.1, hpair.2]
      · intro hnot
        rw [hkva] at hnot
        exact absurd hin hnot
    · have hrb := (hreb pt).trans hw
      refine ⟨?_, ?_, ?_⟩
      · rw [hkva, hrb]
        exact iff_of_false Bool.false_ne_true hout
      · intro htrue
        rw [hrb] at htrue
        exact absurd htrue Bool.false_ne_true
      · intro _
        rw [QhgpuMempool.rebasePtr, hrb]
        rfl

end Registered

/-- Linux granting every request, with the pool mapped at a fixed kernel address. -/
def grantingEnv : MempoolEnv where
  kmallocPages := some fun _ ↦ 0
  kmallocBitmap := some fun _ ↦ true
  kmallocAllocSz := some fun _ ↦ 0
  vmap := 0xffffc90000400000#64

/-- A request whose three pointers all equal `p`. -/
def pointerRequest (p : Word) : QhgpuRequest where
  id := 0
  inp := p
  out := p
  udata := p
  kdata := .client 0
  kmmapAddr := 0
  insize := 0
  outsize := 0
  udatasize := 0
  mmapSize := 0
  batchSize := 0
  serviceName := []
  callback := .null
  errcode := 0
  module := 0

/-- A page-aligned buffer, the fourth byte of the pool. -/
theorem poolAddressing_iff_aligned :
    (∀ pt, (setGpuMempool grantingEnv (v2pageOf pt)
        ⟨0x7f5a00001000#64, 8192#64⟩ .zeroed).1 = 0) ∧
      (∀ pt, PoolAddressing ⟨0x7f5a00001000#64, 8192#64⟩ pt
        (setGpuMempool grantingEnv (v2pageOf pt) ⟨0x7f5a00001000#64, 8192#64⟩ .zeroed).2
        0xffffc90000400003#64
        (PtrField.ofKuRequest (fillKuRequest (setGpuMempool grantingEnv (v2pageOf pt)
          ⟨0x7f5a00001000#64, 8192#64⟩ .zeroed).2 .zeroed
          (pointerRequest 0xffffc90000400003#64)) .inp)) := by
  have h (pt : Nat → Page) : (setGpuMempool grantingEnv (v2pageOf pt)
      ⟨0x7f5a00001000#64, 8192#64⟩ .zeroed).1 = 0 := rfl
  refine ⟨h, (poolAddressing_iff grantingEnv ⟨0x7f5a00001000#64, 8192#64⟩ .zeroed h .zeroed
    (pointerRequest 0xffffc90000400003#64) .inp).mpr (Or.inl ⟨⟨?_, ?_⟩, ?_, ?_, ?_⟩)⟩ <;> decide

/-- A buffer that `malloc` placed 16 bytes into its page: the first pool byte is rebased to
another offset of the frame. -/
theorem not_poolAddressing_unaligned :
    ¬∀ (env : MempoolEnv) (gb : QhgpuGpuMemInfo) (gmp : QhgpuMempool),
      (∀ pt, (setGpuMempool env (v2pageOf pt) gb gmp).1 = 0) →
      ∀ (kureq : QhgpuKuRequest) (req : QhgpuRequest) (f : PtrField) (pt : Nat → Page),
        PoolAddressing gb pt (setGpuMempool env (v2pageOf pt) gb gmp).2 (f.ofRequest req)
          (f.ofKuRequest
            (fillKuRequest (setGpuMempool env (v2pageOf pt) gb gmp).2 kureq req)) := by
  intro hall
  have hbyte := (hall grantingEnv ⟨0x7f5a00000010#64, 8192#64⟩ .zeroed (fun _ ↦ rfl)
    .zeroed (pointerRequest 0xffffc90000400000#64) .inp id).same_byte (by decide)
  revert hbyte
  decide

end QHGPU
