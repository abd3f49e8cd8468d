import Mathlib.Data.List.GetD
import QHGPU.Library.CountingSort
import QHGPU.Library.StepRun

/-!
# The radix sort of the client

`rxSort` and `pow`, `src/test_module/radix_sort/radix_sort_module.c:58–161`, with which the client
sorts on the CPU. An access outside of an array and a signed result outside of `int` have no
result.
-/

namespace QHGPU.RxSort

/-- `int` or `unsigned int`. -/
abbrev Word := BitVec 32

/-- The array of the caller and the globals `counts` and `temp`,
`src/test_module/radix_sort/radix_sort_module.c:112–113`. -/
structure Arrays where
  data : List Word
  counts : List Word
  temp : List Word
  deriving DecidableEq, Repr

/-- The result of a signed operation. -/
def checked (x : Int) : Option Int := if -2 ^ 31 ≤ x ∧ x < 2 ^ 31 then some x else none

/-- `a / b`. -/
def div (a b : Int) : Option Int := if b = 0 then none else checked (a.tdiv b)

/-- `a % b`, which needs the quotient in `int` too. -/
def rem (a b : Int) : Option Int := (div a b).map fun _ ↦ a.tmod b

/-- `a[i]`. -/
def load (a : List Word) (i : Int) : Option Word := if 0 ≤ i then a[i.toNat]? else none

/-- `a[i] = v`. -/
def store (a : List Word) (i : Int) (v : Word) : Option (List Word) :=
  if 0 ≤ i ∧ i < a.length then some (a.set i.toNat v) else none

/-- `pow`, `src/test_module/radix_sort/radix_sort_module.c:58–65`. -/
def pow (k n : Int) : Option Int :=
  StepRun.run (fun ret _ ↦ checked (ret * k)) 1 (List.range n.toNat)

/-- `index = (int)(data[j] / pval) % k`, `src/test_module/radix_sort/radix_sort_module.c:135`. -/
def indexOf (pval k : Int) (s : Arrays) (j : Nat) : Option Int := do
  let key ← load s.data j
  let quotient ← div key.toInt pval
  rem quotient k

/-- One turn of the loop that clears the counts,
`src/test_module/radix_sort/radix_sort_module.c:123–124`. -/
def clear (s : Arrays) (i : Nat) : Option Arrays :=
  (store s.counts i 0).map fun counts ↦ { s with counts := counts }

/-- One turn of the loop that counts the digits,
`src/test_module/radix_sort/radix_sort_module.c:132–137`. -/
def countDigit (pval k : Int) (s : Arrays) (j : Nat) : Option Arrays := do
  let index ← indexOf pval k s j
  let count ← load s.counts index
  let counts ← store s.counts index (count + 1)
  some { s with counts := counts }

/-- One turn of the loop that adds up the counts, which starts at 1,
`src/test_module/radix_sort/radix_sort_module.c:142–144`. -/
def accumulate (s : Arrays) (i : Nat) : Option Arrays := do
  let count ← load s.counts i
  let before ← load s.counts (i - 1)
  let counts ← store s.counts i (count + before)
  some { s with counts := counts }

/-- One turn of the loop that places the entries,
`src/test_module/radix_sort/radix_sort_module.c:150–154`. -/
def place (pval k : Int) (s : Arrays) (j : Nat) : Option Arrays := do
  let index ← indexOf pval k s j
  let count ← load s.counts index
  let key ← load s.data j
  let temp ← store s.temp (count - 1).toNat key
  let counts ← store s.counts index (count - 1)
  some { s with counts := counts, temp := temp }

/-- `memcpy(data, temp, size * sizeof(int))`,
`src/test_module/radix_sort/radix_sort_module.c:159`. -/
def copyBack (size : Int) (s : Arrays) : Option Arrays :=
  if 0 ≤ size ∧ size ≤ s.temp.length ∧ size ≤ s.data.length then
    some { s with data := s.temp.take size.toNat ++ s.data.drop size.toNat }
  else none

/-- One turn of the loop over the digits,
`src/test_module/radix_sort/radix_sort_module.c:122–160`. -/
def pass (size k : Int) (s : Arrays) (n : Nat) : Option Arrays := do
  let s ← StepRun.run clear s (List.range k.toNat)
  let pval ← pow k n
  let s ← StepRun.run (countDigit pval k) s (List.range size.toNat)
  let s ← StepRun.run (fun s i ↦ accumulate s (i + 1)) s (List.range (k.toNat - 1))
  let s ← StepRun.run (place pval k) s (List.range size.toNat).reverse
  copyBack size s

/-- `rxSort`, `src/test_module/radix_sort/radix_sort_module.c:115–161`. -/
def rxSort (size p k : Int) (s : Arrays) : Option Arrays :=
  StepRun.run (pass size k) s (List.range p.toNat)

/-! ### Accesses -/

private theorem load_natCast (a : List Word) (i : Nat) : load a i = a[i]? :=
  if_pos (Int.natCast_nonneg i)

private theorem store_natCast {a : List Word} {i : Nat} (hi : i < a.length) (v : Word) :
    store a i v = some (a.set i v) := by
  rw [store, if_pos (by omega)]
  rfl

private theorem checked_natCast {x : Nat} (hx : x < 2 ^ 31) : checked x = some (x : Int) := by
  apply if_pos
  omega

private theorem div_natCast {a b : Nat} (ha : a < 2 ^ 31) (hb : 0 < b) :
    div a b = some ((a / b : Nat) : Int) := by
  have hle := Nat.div_le_self a b
  rw [div, if_neg (by omega), ← Int.ofNat_tdiv]
  apply checked_natCast
  omega

private theorem rem_natCast {a b : Nat} (ha : a < 2 ^ 31) (hb : 0 < b) :
    rem a b = some ((a % b : Nat) : Int) := by
  rw [rem, div_natCast ha hb, Option.map_some, ← Int.ofNat_tmod]

private theorem pow_natCast {k n : Nat} (hk : 1 ≤ k) (hpow : k ^ n < 2 ^ 31) :
    pow k n = some ((k ^ n : Nat) : Int) := by
  have hround (j : Nat) (hj : j < n) (ret : Int) (hret : ret = (k ^ j : Nat)) :
      ∃ ret', checked (ret * k) = some ret' ∧ ret' = (k ^ (j + 1) : Nat) := by
    have hle : k ^ (j + 1) ≤ k ^ n := Nat.pow_le_pow_right hk hj
    refine ⟨_, ?_, rfl⟩
    rw [hret, ← Int.natCast_mul, ← Nat.pow_succ]
    exact checked_natCast (hle.trans_lt hpow)
  obtain ⟨ret, hrun, hret⟩ := StepRun.run_range hround (s := 1) rfl
  rw [pow, Int.toNat_natCast, hrun, hret]

/-! ### Digits -/

/-- Entry `j` as a number. -/
def key (data : List Word) (j : Nat) : Nat := (data.getD j 0).toNat

/-- Digit `n` of entry `j` in base `k`. -/
def digit (k n : Nat) (data : List Word) (j : Nat) : Nat := key data j / k ^ n % k

private theorem key_of_getElem? {data data' : List Word} {i j : Nat} (h : data[i]? = data'[j]?) :
    key data i = key data' j := by
  rw [key, key, List.getD_eq_getElem?_getD, List.getD_eq_getElem?_getD, h]

private theorem key_eq {data : List Word} {j : Nat} (hj : j < data.length) :
    key data j = data[j].toNat := congrArg BitVec.toNat (List.getD_eq_getElem _ _ hj)

/-- An `int` that is not negative. -/
theorem toInt_of_nonneg {x : Word} (hx : 0 ≤ x.toInt) : x.toInt = x.toNat ∧ x.toNat < 2 ^ 31 := by
  have := x.toInt_eq_toNat_cond
  split at this <;> omega

/-! ### One pass -/

open CountingSort (Sorts rank unrank below equal equal_succ)

/-- The array and the bounds with which a pass works. -/
structure Fits (k n : Nat) (s : Arrays) : Prop where
  base : 2 ≤ k
  int : k < 2 ^ 31
  pow : k ^ n < 2 ^ 31
  length : s.data.length < 2 ^ 31
  nonneg : ∀ x ∈ s.data, 0 ≤ x.toInt
  counts : k ≤ s.counts.length
  temp : s.data.length ≤ s.temp.length

/-- The first `m` counts are `c`; the array is as before. -/
structure Counted (s₀ : Arrays) (m : Nat) (c : Nat → Nat) (s : Arrays) : Prop where
  data : s.data = s₀.data
  temp : s.temp.length = s₀.temp.length
  length : s.counts.length = s₀.counts.length
  counts : ∀ a < m, s.counts[a]? = some (BitVec.ofNat 32 (c a))

variable {k n m m' a j v : Nat} {s s₀ s' : Arrays} {c c' : Nat → Nat}

/-- Entry `a` gets a new count. -/
theorem Counted.set (h : Counted s₀ m c s) (ha : a < s₀.counts.length)
    (hself : c' a = v) (hother : ∀ b < m', b ≠ a → b < m ∧ c' b = c b) :
    Counted s₀ m' c' { s with counts := s.counts.set a (BitVec.ofNat 32 v) } := by
  constructor
  · exact h.data
  · exact h.temp
  · exact (List.length_set ..).trans h.length
  · intro b hb
    by_cases hba : b = a
    · subst hba
      rw [List.getElem?_set_self (h.length ▸ ha), hself]
    · obtain ⟨hlt, heq⟩ := hother b hb hba
      rw [List.getElem?_set_ne (Ne.symm hba), heq]
      exact h.counts b hlt

/-- A count is stored where there is room. -/
theorem Counted.store (h : Counted s₀ m c s) (ha : a < s₀.counts.length) (v : Word) :
    store s.counts a v = some (s.counts.set a v) := store_natCast (h.length ▸ ha) v

/-- A count that is known is read. -/
theorem Counted.load (h : Counted s₀ m c s) (ha : a < m) :
    load s.counts a = some (BitVec.ofNat 32 (c a)) := by
  rw [load_natCast]
  exact h.counts a ha

private theorem Fits.indexOf (h : Fits k n s₀) (hs : s.data = s₀.data) (hj : j < s₀.data.length) :
    indexOf (k ^ n : Nat) k s j = some (digit k n s₀.data j : Int) := by
  have hint := toInt_of_nonneg (h.nonneg _ (List.getElem_mem hj))
  have hkey := key_eq hj
  have hle := Nat.div_le_self (key s₀.data j) (k ^ n)
  have hk := h.base
  have hdiv : div (key s₀.data j) (k ^ n : Nat) = some ((key s₀.data j / k ^ n : Nat) : Int) :=
    div_natCast (by omega) (Nat.pow_pos (by omega))
  rw [RxSort.indexOf, hs, load_natCast, List.getElem?_eq_getElem hj]
  simp only [Option.bind_eq_bind, Option.bind_some]
  rw [hint.1, ← hkey, hdiv, Option.bind_some]
  exact rem_natCast (by omega) (by omega)

private theorem Fits.digit_lt (h : Fits k n s) (j : Nat) : digit k n s.data j < k :=
  Nat.mod_lt _ (Nat.lt_of_lt_of_le Nat.two_pos h.base)

private theorem runs_clear (h : Fits k n s₀) :
    ∃ s, StepRun.run clear s₀ (List.range k) = some s ∧ Counted s₀ k (fun _ ↦ 0) s := by
  apply StepRun.run_range (I := fun i s ↦ Counted s₀ i (fun _ ↦ 0) s)
  · intro i hi s hs
    have hlt := h.counts.trans_lt' hi
    refine ⟨_, ?_, hs.set (v := 0) hlt rfl ?_⟩
    · rw [clear, hs.store hlt]
      rfl
    · intro b hb hbi
      exact ⟨by omega, rfl⟩
  · exact ⟨rfl, rfl, rfl, fun a ha ↦ absurd ha (Nat.not_lt_zero a)⟩

private theorem runs_countDigit (h : Fits k n s₀) (hs : Counted s₀ k (fun _ ↦ 0) s) :
    ∃ s', StepRun.run (countDigit (k ^ n : Nat) k) s (List.range s₀.data.length) = some s' ∧
      Counted s₀ k (fun a ↦ equal (digit k n s₀.data) a s₀.data.length) s' := by
  apply StepRun.run_range (I := fun j s ↦ Counted s₀ k (fun a ↦ equal (digit k n s₀.data) a j) s)
  · intro j hj s hs
    have hdigit := h.digit_lt j
    have hlt := h.counts.trans_lt' hdigit
    refine ⟨_, ?_, hs.set (v := equal (digit k n s₀.data) (digit k n s₀.data j) j + 1) hlt ?_ ?_⟩
    · simp only [countDigit, h.indexOf hs.data hj, hs.load hdigit, hs.store hlt, BitVec.ofNat_add,
        Option.bind_eq_bind, Option.bind_some]
      rfl
    · rw [equal_succ, if_pos rfl]
    · intro b hlt hb
      rw [equal_succ, if_neg (Ne.symm hb), Nat.add_zero]
      exact ⟨hlt, rfl⟩
  · exact hs

/-- The counts when those up to `i` have been added up. -/
def summedTo (d : Nat → Nat) (n i a : Nat) : Nat :=
  if a ≤ i then below d (a + 1) n else equal d a n

private theorem Counted.accumulate {i : Nat} (h : Fits k n s₀)
    (hs : Counted s₀ k (summedTo (digit k n s₀.data) s₀.data.length i) s) (hi : i + 1 < k) :
    ∃ s', accumulate s (i + 1) = some s' ∧
      Counted s₀ k (summedTo (digit k n s₀.data) s₀.data.length (i + 1)) s' := by
  have hlt := h.counts.trans_lt' hi
  have hload := hs.load hi
  have hbefore := hs.load (Nat.lt_of_succ_lt hi)
  have hpred : ((i + 1 : Nat) : Int) - 1 = (i : Nat) := by omega
  rw [summedTo, if_neg (by omega)] at hload
  rw [summedTo, if_pos (Nat.le_refl i)] at hbefore
  refine ⟨_, ?_, hs.set (v := below (digit k n s₀.data) (i + 1 + 1) s₀.data.length) hlt ?_ ?_⟩
  · simp only [RxSort.accumulate, hload, hpred, hbefore, hs.store hlt, Option.bind_eq_bind,
      Option.bind_some]
    rw [← BitVec.ofNat_add, CountingSort.below_succ _ (i + 1), Nat.add_comm (below _ _ _)]
  · rw [summedTo, if_pos (Nat.le_refl _)]
  · intro b hlt hb
    refine ⟨hlt, ?_⟩
    by_cases hle : b ≤ i
    · rw [summedTo, summedTo, if_pos hle, if_pos (by omega)]
    · rw [summedTo, summedTo, if_neg hle, if_neg (by omega)]

/-- Counts that are the same. -/
theorem Counted.congr (h : Counted s₀ m c s) (hc : ∀ a < m, c a = c' a) : Counted s₀ m c' s := by
  refine ⟨h.data, h.temp, h.length, ?_⟩
  intro a ha
  rw [← hc a ha]
  exact h.counts a ha

private theorem runs_accumulate (h : Fits k n s₀)
    (hs : Counted s₀ k (fun a ↦ equal (digit k n s₀.data) a s₀.data.length) s) :
    ∃ s', StepRun.run (fun s i ↦ accumulate s (i + 1)) s (List.range (k - 1)) = some s' ∧
      Counted s₀ k (fun a ↦ below (digit k n s₀.data) (a + 1) s₀.data.length) s' := by
  have hk := h.base
  have hstart : Counted s₀ k (summedTo (digit k n s₀.data) s₀.data.length 0) s := by
    apply hs.congr
    intro a _
    rw [summedTo]
    split
    · next hle =>
      have hnone : below (digit k n s₀.data) 0 s₀.data.length = 0 :=
        Nat.count_iff_forall_not.mpr fun _ _ ↦ Nat.not_lt_zero _
      rw [Nat.le_zero.mp hle, CountingSort.below_succ, hnone, Nat.zero_add]
    · rfl
  have hround (i : Nat) (hi : i < k - 1) (s : Arrays)
      (hs : Counted s₀ k (summedTo (digit k n s₀.data) s₀.data.length i) s) :=
    hs.accumulate h (Nat.add_lt_of_lt_sub hi)
  obtain ⟨s', hrun, hs'⟩ := StepRun.run_range hround hstart
  refine ⟨s', hrun, hs'.congr ?_⟩
  intro a ha
  rw [summedTo, if_pos (by omega)]

/-- The entries from `j` on are in their places. -/
structure Placed (k n : Nat) (s₀ : Arrays) (j : Nat) (s : Arrays) : Prop extends
    Counted s₀ k (fun a ↦ below (digit k n s₀.data) a s₀.data.length +
      equal (digit k n s₀.data) a j) s where
  placed : ∀ i, j ≤ i → i < s₀.data.length →
    s.temp[rank (digit k n s₀.data) s₀.data.length i]? = s₀.data[i]?

private theorem Counted.setTemp (h : Counted s₀ m c s) (i : Nat) (v : Word) :
    Counted s₀ m c { s with temp := s.temp.set i v } :=
  ⟨h.data, (List.length_set ..).trans h.temp, h.length, h.counts⟩

/-- The count of the digit is the place after that of the entry. -/
theorem Placed.load (h : Fits k n s₀) (hs : Placed k n s₀ (j + 1) s) :
    RxSort.load s.counts (digit k n s₀.data j) =
      some (BitVec.ofNat 32 (rank (digit k n s₀.data) s₀.data.length j) + 1) := by
  have hload := hs.toCounted.load (h.digit_lt j)
  rw [equal_succ, if_pos rfl, ← Nat.add_assoc, BitVec.ofNat_add] at hload
  exact hload

/-- One turn places one entry more. -/
theorem Placed.place (h : Fits k n s₀) (hs : Placed k n s₀ (j + 1) s) (hj : j < s₀.data.length) :
    ∃ s', place (k ^ n : Nat) k s j = some s' ∧ Placed k n s₀ j s' := by
  have hlt := h.counts.trans_lt' (h.digit_lt j)
  have hrank : rank (digit k n s₀.data) s₀.data.length j < s₀.data.length :=
    CountingSort.rank_lt hj
  have hroom : rank (digit k n s₀.data) s₀.data.length j < s.temp.length :=
    hs.temp ▸ hrank.trans_le h.temp
  have hpred (x : Word) : x + 1 - 1 = x := BitVec.add_sub_cancel x 1
  have hkey : RxSort.load s.data j = some s₀.data[j] := by
    rw [hs.data, load_natCast, List.getElem?_eq_getElem hj]
  have hindex : (BitVec.ofNat 32 (rank (digit k n s₀.data) s₀.data.length j)).toNat =
      rank (digit k n s₀.data) s₀.data.length j := by
    have := h.length
    rw [BitVec.toNat_ofNat]
    omega
  have hcounted : Counted s₀ k (fun a ↦ below (digit k n s₀.data) a s₀.data.length +
      equal (digit k n s₀.data) a j)
      { s with
        counts := s.counts.set (digit k n s₀.data j)
          (BitVec.ofNat 32 (rank (digit k n s₀.data) s₀.data.length j)) } := by
    apply hs.toCounted.set hlt rfl
    intro b hb hne
    rw [equal_succ, if_neg (Ne.symm hne), Nat.add_zero]
    exact ⟨hb, rfl⟩
  refine ⟨_, ?_, ⟨hcounted.setTemp (rank (digit k n s₀.data) s₀.data.length j) s₀.data[j], ?_⟩⟩
  · simp only [RxSort.place, h.indexOf hs.data hj, hs.load h, hkey, hpred, hindex,
      store_natCast hroom, hs.store hlt, Option.bind_eq_bind, Option.bind_some]
  · intro i hji hi
    by_cases hij : i = j
    · subst hij
      rw [List.getElem?_set_self hroom, List.getElem?_eq_getElem hi]
    · have hne : rank (digit k n s₀.data) s₀.data.length j ≠
          rank (digit k n s₀.data) s₀.data.length i := fun heq ↦
        hij (CountingSort.eq_of_rank_eq hj hi heq).symm
      rw [List.getElem?_set_ne hne]
      exact hs.placed i (by omega) hi

private theorem runs_place (h : Fits k n s₀)
    (hs : Counted s₀ k (fun a ↦ below (digit k n s₀.data) (a + 1) s₀.data.length) s) :
    ∃ s', StepRun.run (place (k ^ n : Nat) k) s (List.range s₀.data.length).reverse = some s' ∧
      Placed k n s₀ 0 s' := by
  apply StepRun.run_range_reverse (I := Placed k n s₀)
  · exact fun j hj s hs ↦ hs.place h hj
  · refine ⟨hs.congr fun a _ ↦ CountingSort.below_succ _ a _, ?_⟩
    exact fun i hi hi' ↦ absurd hi' (Nat.not_lt.mpr hi)

/-- What a pass does: each entry goes to its place among the digits. -/
structure Passed (k n : Nat) (s s' : Arrays) : Prop where
  length : s'.data.length = s.data.length
  counts : s'.counts.length = s.counts.length
  temp : s'.temp.length = s.temp.length
  moved : ∀ i < s.data.length,
    s'.data[rank (digit k n s.data) s.data.length i]? = s.data[i]?

private theorem Placed.copyBack (h : Fits k n s₀) (hs : Placed k n s₀ 0 s) :
    ∃ s', copyBack s₀.data.length s = some s' ∧ Passed k n s₀ s' := by
  have htemp : s₀.data.length ≤ s.temp.length := hs.temp ▸ h.temp
  have hdata : s.data.length = s₀.data.length := congrArg List.length hs.data
  refine ⟨_, if_pos (by omega), ?_⟩
  rw [Int.toNat_natCast, List.drop_eq_nil_of_le hdata.le, List.append_nil]
  constructor
  · rw [List.length_take, Nat.min_eq_left htemp]
  · exact hs.length
  · exact hs.temp
  · intro i hi
    rw [List.getElem?_take_of_lt (CountingSort.rank_lt hi)]
    exact hs.placed i (Nat.zero_le i) hi

/-- A pass goes through. -/
theorem passed (h : Fits k n s) :
    ∃ s', pass s.data.length k s n = some s' ∧ Passed k n s s' := by
  have hk := h.base
  have hpow := pow_natCast (Nat.le_of_lt hk) h.pow
  obtain ⟨s₁, hrun₁, hs₁⟩ := runs_clear h
  obtain ⟨s₂, hrun₂, hs₂⟩ := runs_countDigit h hs₁
  obtain ⟨s₃, hrun₃, hs₃⟩ := runs_accumulate h hs₂
  obtain ⟨s₄, hrun₄, hs₄⟩ := runs_place h hs₃
  obtain ⟨s₅, hcopy, hs₅⟩ := hs₄.copyBack h
  refine ⟨s₅, ?_, hs₅⟩
  simp only [pass, Int.toNat_natCast, hrun₁, hpow, hrun₂, hrun₃, hrun₄, hcopy,
    Option.bind_eq_bind, Option.bind_some]

/-- The entries of `ys` are those of `xs` in the order of digit `n`, equal digits in the order in
which they stand in `xs`. -/
def Stable (k n : Nat) (xs ys : List Word) : Prop :=
  ys.length = xs.length ∧ ∃ perm, Sorts (digit k n xs) xs.length perm ∧
    ∀ p < xs.length, ys[p]? = xs[perm p]?

/-- A pass sorts stably by its digit. -/
theorem Passed.stable (h : Passed k n s s') : Stable k n s.data s'.data := by
  refine ⟨h.length, _, CountingSort.sorts_unrank _ _, ?_⟩
  intro p hp
  obtain ⟨i, hi, rfl⟩ := CountingSort.exists_rank_eq (digit k n s.data) hp
  rw [CountingSort.unrank_rank hi]
  exact h.moved i hi

/-! ### All passes -/

/-- The entries in the order of their lowest `n` digits. -/
structure SortedBy (k n : Nat) (s₀ s : Arrays) : Prop where
  length : s.data.length = s₀.data.length
  counts : s.counts.length = s₀.counts.length
  temp : s.temp.length = s₀.temp.length
  order : ∃ perm, Sorts (fun i ↦ key s₀.data i % k ^ n) s₀.data.length perm ∧
    ∀ p < s₀.data.length, s.data[p]? = s₀.data[perm p]?

private theorem sortedBy_zero (k : Nat) (s : Arrays) : SortedBy k 0 s s := by
  refine ⟨rfl, rfl, rfl, _, CountingSort.sorts_self (fun _ _ ↦ rfl) ?_, fun _ _ ↦ rfl⟩
  intro p q
  rw [Nat.pow_zero, Nat.mod_one, Nat.mod_one]

/-- No entry is lost. -/
theorem SortedBy.perm (h : SortedBy k n s₀ s) : s.data.Perm s₀.data := by
  obtain ⟨perm, hsorts, hget⟩ := h.order
  exact CountingSort.perm_of_getElem? h.length hsorts.onto hget

private theorem SortedBy.fits (h : SortedBy k n s₀ s) (hfits : Fits k m s₀)
    (hpow : k ^ n < 2 ^ 31) :
    Fits k n s := by
  constructor
  · exact hfits.base
  · exact hfits.int
  · exact hpow
  · exact h.length ▸ hfits.length
  · exact fun x hx ↦ hfits.nonneg x (h.perm.mem_iff.mp hx)
  · exact h.counts ▸ hfits.counts
  · rw [h.length, h.temp]
    exact hfits.temp

/-- A pass sorts by one digit more. -/
theorem SortedBy.passed (h : SortedBy k n s₀ s) (hk : 0 < k) (hpass : Passed k n s s') :
    SortedBy k (n + 1) s₀ s' := by
  obtain ⟨perm, hsorts, hget⟩ := h.order
  refine ⟨hpass.length.trans h.length, hpass.counts.trans h.counts, hpass.temp.trans h.temp,
    fun q ↦ perm (unrank (digit k n s.data) s.data.length q), ?_, ?_⟩
  · rw [Nat.pow_succ]
    apply hsorts.digit (Nat.pow_pos hk)
    intro p hp
    have hrank : rank (fun j ↦ key s₀.data (perm j) / k ^ n % k) s₀.data.length p =
        rank (digit k n s.data) s₀.data.length p := by
      apply CountingSort.rank_congr _ hp
      intro j hj
      rw [digit, key_of_getElem? (hget j hj)]
    rw [hrank, h.length, CountingSort.unrank_rank hp]
  · intro q hq
    rw [← h.length] at hq
    obtain ⟨i, hi, rfl⟩ := CountingSort.exists_rank_eq (digit k n s.data) hq
    rw [hpass.moved i hi, hget i (h.length ▸ hi)]
    simp only [CountingSort.unrank_rank hi]

/-- Sorted by all their digits, numbers ascend. -/
theorem SortedBy.pairwise {p : Nat} (h : SortedBy k p s₀ s)
    (hnonneg : ∀ x ∈ s₀.data, 0 ≤ x.toInt) (hdigits : ∀ x ∈ s₀.data, x.toInt < (k ^ p : Nat)) :
    s.data.Pairwise fun x y ↦ x.toInt ≤ y.toInt := by
  obtain ⟨perm, hsorts, hget⟩ := h.order
  have hentry (q : Nat) (hq : q < s.data.length) :
      s.data[q].toInt = (key s₀.data (perm q) % k ^ p : Nat) := by
    have hlt := hsorts.lt q (h.length ▸ hq)
    have hsame := hget q (h.length ▸ hq)
    rw [List.getElem?_eq_getElem hq, List.getElem?_eq_getElem hlt] at hsame
    have hmem := List.getElem_mem hlt
    have hint := (toInt_of_nonneg (hnonneg _ hmem)).1
    have hdigit := hdigits _ hmem
    rw [Option.some.inj hsame, key_eq hlt, Nat.mod_eq_of_lt (by omega), hint]
  apply List.pairwise_iff_getElem.mpr
  intro q q' hq hq' hlt
  have := hsorts.order q q' hlt (h.length ▸ hq')
  rw [hentry q hq, hentry q' hq']
  omega

/-- `rxSort` sorts by as many digits as it makes passes. -/
theorem sortedBy_rxSort {p : Nat} (h : ∀ n < p, k ^ n < 2 ^ 31) (hfits : Fits k m s₀) :
    ∃ s, rxSort s₀.data.length p k s₀ = some s ∧ SortedBy k p s₀ s := by
  apply StepRun.run_range (I := fun n s ↦ SortedBy k n s₀ s)
  · intro n hn s hs
    obtain ⟨s', hpass, hpassed⟩ := RxSort.passed (hs.fits hfits (h n hn))
    rw [hs.length] at hpass
    exact ⟨s', hpass, hs.passed (Nat.lt_of_lt_of_le Nat.two_pos hfits.base) hpassed⟩
  · exact sortedBy_zero k s₀

/-- `rxSort` never leaves its arrays, puts the entries in ascending order, and each of its passes
is stable. -/
theorem rxSort_sorts {data counts temp : List Word} {p k : Nat} (hk : 2 ≤ k) (hint : k < 2 ^ 31)
    (hlen : data.length < 2 ^ 31) (hnonneg : ∀ x ∈ data, 0 ≤ x.toInt)
    (hdigits : ∀ x ∈ data, x.toInt < (k ^ p : Nat)) (hpow : k ^ (p - 1) < 2 ^ 31)
    (hcounts : k ≤ counts.length) (htemp : data.length ≤ temp.length) :
    ∃ s', rxSort data.length p k ⟨data, counts, temp⟩ = some s' ∧ s'.data.Perm data ∧
      (s'.data.Pairwise fun x y ↦ x.toInt ≤ y.toInt) ∧
      ∀ n < p, ∃ s s', rxSort data.length n k ⟨data, counts, temp⟩ = some s ∧
        pass data.length k s n = some s' ∧ Stable k n s.data s'.data := by
  have hpows (n : Nat) (hn : n < p) : k ^ n < 2 ^ 31 :=
    (Nat.pow_le_pow_right (Nat.lt_of_succ_lt hk) (Nat.le_sub_one_of_lt hn)).trans_lt hpow
  have hfits : Fits k 0 ⟨data, counts, temp⟩ :=
    ⟨hk, hint, Nat.one_lt_two_pow (by decide), hlen, hnonneg, hcounts, htemp⟩
  obtain ⟨s', hrun, hs'⟩ := sortedBy_rxSort hpows hfits
  refine ⟨s', hrun, hs'.perm, hs'.pairwise hnonneg hdigits, ?_⟩
  intro n hn
  obtain ⟨s, hrun, hs⟩ := sortedBy_rxSort (fun n' hn' ↦ hpows n' (hn'.trans hn)) hfits
  obtain ⟨s', hpass, hpassed⟩ := passed (hs.fits hfits (hpows n hn))
  rw [hs.length] at hpass
  exact ⟨s, s', hrun, hpass, hpassed.stable⟩

/-- Three numbers with two decimal digits. -/
theorem rxSort_sorts_ten : ∃ s', rxSort ([53, 7, 12] : List Word).length (2 : Nat) (10 : Nat)
      ⟨[53, 7, 12], List.replicate 10 0, [0, 0, 0]⟩ = some s' ∧ s'.data.Perm [53, 7, 12] ∧
    (s'.data.Pairwise fun x y ↦ x.toInt ≤ y.toInt) ∧
    ∀ n < 2, ∃ s s', rxSort ([53, 7, 12] : List Word).length (n : Nat) (10 : Nat)
        ⟨[53, 7, 12], List.replicate 10 0, [0, 0, 0]⟩ = some s ∧
      pass ([53, 7, 12] : List Word).length (10 : Nat) s n = some s' ∧
      Stable 10 n s.data s'.data := by
  apply rxSort_sorts
  · decide
  · omega
  · show 3 < 2 ^ 31
    omega
  · simp
  · simp
  · simp
  · exact Nat.le_of_eq List.length_replicate.symm
  · exact Nat.le_refl 3

end QHGPU.RxSort
