import Mathlib.Data.Finset.Card
import Mathlib.Algebra.BigOperators.Fin
import Mathlib.Algebra.Order.BigOperators.Group.Finset
import Mathlib.Data.Fintype.Card
import QHGPU.Kernel.Driver
import QHGPU.Library.StepRun

/-!
# Concurrent slot claims

`qhgpu_mmap_id`, `src/qhgpu/main.c:1049–1060`, called by several clients at once: a test of an
entry of `module_active_checker` and the store that claims it are steps of their own, with no
lock around them.
-/

namespace QHGPU.Kernel

/-- Where a call of `qhgpu_mmap_id` is, `src/qhgpu/main.c:1049–1060`. -/
inductive ClaimPc where
  | test (i : Nat)
  | claim (i : Nat)
  | returned (id : Int)
  deriving DecidableEq

/-- The steps that a call may still make. -/
def ClaimPc.left (n : Nat) : ClaimPc → Nat
  | .test i => n - i + 2
  | .claim _ => 1
  | .returned _ => 0

/-- The table and the places of `m` calls. -/
structure ClaimState (m : Nat) where
  checker : Int → Int
  pc : Fin m → ClaimPc

namespace ClaimState

variable {m n : Nat}

/-- Every call is at its first test. -/
def start (m : Nat) (checker : Int → Int) : ClaimState m := ⟨checker, fun _ ↦ .test 0⟩

/-- Call `k` goes on at `pc`. -/
def goto (s : ClaimState m) (k : Fin m) (pc : ClaimPc) : ClaimState m :=
  { s with pc := Function.update s.pc k pc }

/-- One step of call `k`, `n` being `module_cnt`, `src/qhgpu/main.c:1053–1059`; a call that has
returned makes none. -/
def step (n : Nat) (s : ClaimState m) (k : Fin m) : Option (ClaimState m) :=
  match s.pc k with
  | .test i =>
    if i < n then
      if s.checker i = 0 then some (s.goto k (.claim i)) else some (s.goto k (.test (i + 1)))
    else some (s.goto k (.returned 0))
  | .claim i =>
    some ({ s with checker := Function.update s.checker i 1 }.goto k (.returned i))
  | .returned _ => none

/-- The ids returned so far are pairwise different, and slots that were free in `checker`. -/
structure Granted (n : Nat) (checker : Int → Int) (s : ClaimState m) : Prop where
  free : ∀ k id, s.pc k = .returned id → ∃ i < n, id = (i : Int) ∧ checker i = 0
  distinct : ∀ k k' id, s.pc k = .returned id → s.pc k' = .returned id → k = k'

/-- Every call has returned a slot that was free in `checker`, each a different one. -/
def Obtained (n : Nat) (checker : Int → Int) (s : ClaimState m) : Prop :=
  ∃ ids : Fin m → Nat, Function.Injective ids ∧
    ∀ k, s.pc k = .returned (ids k) ∧ ids k < n ∧ checker (ids k) = 0

/-- A store finds the entry it claims still clear. -/
def FindsClear (s : ClaimState m) (k : Fin m) : Prop := ∀ i, s.pc k = .claim i → s.checker i = 0

/-- The slots that are free in `checker`. -/
def freeSlots (n : Nat) (checker : Int → Int) : Finset Nat :=
  (Finset.range n).filter fun i : Nat ↦ checker i = 0

variable {s t : ClaimState m} {k : Fin m} {checker : Int → Int}

/-- Going on leaves the table alone. -/
@[simp] theorem goto_checker (s : ClaimState m) (k : Fin m) (pc : ClaimPc) :
    (s.goto k pc).checker = s.checker := rfl

private theorem goto_pc (s : ClaimState m) (k : Fin m) (pc : ClaimPc) (l : Fin m) :
    (s.goto k pc).pc l = if l = k then pc else s.pc l := Function.update_apply ..

/-- The steps, with what each one finds. -/
inductive Trans (n : Nat) (s : ClaimState m) (k : Fin m) : ClaimState m → Prop
  | busy {i : Nat} (hk : s.pc k = .test i) (hi : i < n) (hentry : s.checker i ≠ 0) :
      Trans n s k (s.goto k (.test (i + 1)))
  | clear {i : Nat} (hk : s.pc k = .test i) (hi : i < n) (hentry : s.checker i = 0) :
      Trans n s k (s.goto k (.claim i))
  | none {i : Nat} (hk : s.pc k = .test i) (hi : n ≤ i) : Trans n s k (s.goto k (.returned 0))
  | store {i : Nat} (hk : s.pc k = .claim i) :
      Trans n s k ({ s with checker := Function.update s.checker i 1 }.goto k (.returned i))

/-- Every step is one of `Trans`. -/
theorem trans_of_step (h : s.step n k = some t) : Trans n s k t := by
  unfold step at h
  cases hk : s.pc k with
  | test i =>
    simp only [hk] at h
    split at h
    · next hi =>
      split at h
      · next hentry =>
        obtain rfl := Option.some.inj h
        exact .clear hk hi hentry
      · next hentry =>
        obtain rfl := Option.some.inj h
        exact .busy hk hi hentry
    · next hi =>
      obtain rfl := Option.some.inj h
      exact .none hk (Nat.not_lt.mp hi)
  | claim i =>
    simp only [hk] at h
    obtain rfl := Option.some.inj h
    exact .store hk
  | returned id =>
    simp only [hk] at h
    cases h

/-- What a call keeps is its own; a returned id stays. -/
theorem returned_stays (h : s.step n k = some t) {l : Fin m} {id : Int}
    (hl : s.pc l = .returned id) : t.pc l = .returned id := by
  have other (hk : ∀ id, s.pc k ≠ .returned id) : l ≠ k := by
    rintro rfl
    exact hk id hl
  cases trans_of_step h with
  | busy hk | clear hk | none hk | store hk =>
    rw [goto_pc, if_neg (other (by simp [hk]))]
    exact hl

/-- No step repairs what was granted wrongly. -/
theorem granted_back (h : s.step n k = some t) (ht : Granted n checker t) :
    Granted n checker s where
  free l id hl := ht.free l id (returned_stays h hl)
  distinct l l' id hl hl' := ht.distinct l l' id (returned_stays h hl) (returned_stays h hl')

/-! ### The invariant -/

/-- An entry is clear if it was free and no call has returned it; a call has passed only
entries that are taken. -/
structure Inv (n : Nat) (checker : Int → Int) (s : ClaimState m) : Prop
    extends Granted n checker s where
  clear_iff : ∀ i : Nat, i < n →
    (s.checker i = 0 ↔ checker i = 0 ∧ ∀ k, s.pc k ≠ .returned i)
  passed : ∀ k i, s.pc k = .test i → ∀ j < i, j < n → s.checker j ≠ 0
  found : ∀ k i, s.pc k = .claim i → i < n ∧ checker i = 0

private theorem inv_start (n : Nat) (checker : Int → Int) : Inv n checker (start m checker) where
  free k id hk := by cases hk
  distinct k k' id hk := by cases hk
  clear_iff i hi := by simp [start]
  passed k i hk j hj := by
    cases hk
    exact absurd hj (Nat.not_lt_zero j)
  found k i hk := by cases hk

/-- A call goes on without a result: it has passed only taken entries, or found a free one. -/
theorem Inv.goto (h : Inv n checker s) {pc : ClaimPc} (hk : ∀ id, s.pc k ≠ .returned id)
    (hpc : ∀ id, pc ≠ .returned id)
    (hpassed : ∀ i, pc = .test i → ∀ j < i, j < n → s.checker j ≠ 0)
    (hfound : ∀ i, pc = .claim i → i < n ∧ checker i = 0) : Inv n checker (s.goto k pc) := by
  have hreturned (l : Fin m) (id : Int) :
      (s.goto k pc).pc l = .returned id ↔ s.pc l = .returned id := by
    rw [goto_pc]
    split
    · next hl => exact iff_of_false (hpc id) (hl ▸ hk id)
    · exact Iff.rfl
  refine ⟨⟨?_, ?_⟩, ?_, ?_, ?_⟩
  · intro l id hl
    exact h.free l id ((hreturned l id).mp hl)
  · intro l l' id hl hl'
    exact h.distinct l l' id ((hreturned l id).mp hl) ((hreturned l' id).mp hl')
  · intro i hi
    rw [goto_checker, h.clear_iff i hi]
    simp only [ne_eq, hreturned]
  · intro l i hl
    rw [goto_pc] at hl
    split at hl
    · exact hpassed i hl
    · exact h.passed l i hl
  · intro l i hl
    rw [goto_pc] at hl
    split at hl
    · exact hfound i hl
    · exact h.found l i hl

/-- While a call is on its way, fewer slots have been returned than were free. -/
theorem Inv.exists_clear (h : Inv n checker s) (hfree : m ≤ (freeSlots n checker).card)
    (hk : ∀ id, s.pc k ≠ .returned id) : ∃ i < n, s.checker i = 0 := by
  by_contra hnone
  have htaken (i : Nat) (hi : i ∈ freeSlots n checker) : ∃ l, s.pc l = .returned i := by
    obtain ⟨hin, hzero⟩ := Finset.mem_filter.mp hi
    have hin := Finset.mem_range.mp hin
    by_contra hno
    exact hnone ⟨i, hin, (h.clear_iff i hin).mpr ⟨hzero, fun l hl ↦ hno ⟨l, hl⟩⟩⟩
  have : Nonempty (Fin m) := ⟨k⟩
  choose! taker htaker using htaken
  have hmaps : ∀ i ∈ freeSlots n checker, taker i ∈ Finset.univ.erase k := by
    intro i hi
    refine Finset.mem_erase.mpr ⟨?_, Finset.mem_univ _⟩
    intro heq
    exact hk i (heq ▸ htaker i hi)
  have hinj : Set.InjOn taker (freeSlots n checker) := by
    intro i hi j hj heq
    have hij := (htaker i hi).symm.trans ((congrArg s.pc heq).trans (htaker j hj))
    exact Int.ofNat.inj (ClaimPc.returned.inj hij)
  have hcard := Finset.card_le_card_of_injOn taker hmaps hinj
  rw [Finset.card_erase_of_mem (Finset.mem_univ k), Finset.card_univ, Fintype.card_fin] at hcard
  have hpos : 0 < m := Fin.pos k
  omega

/-- The store of a claim that is still good. -/
theorem Inv.store {i : Nat} (h : Inv n checker s) (hk : s.pc k = .claim i)
    (hentry : s.checker i = 0) :
    Inv n checker ({ s with checker := Function.update s.checker i 1 }.goto k (.returned i)) := by
  obtain ⟨hi, hzero⟩ := h.found k i hk
  have hnone := ((h.clear_iff i hi).mp hentry).2
  have hentries (j : Nat) :
      Function.update s.checker i 1 (j : Int) = 0 ↔ s.checker j = 0 ∧ j ≠ i := by
    rw [Function.update_apply]
    split
    · next hj =>
      exact iff_of_false (by decide) fun hc ↦ hc.2 (Int.ofNat.inj hj)
    · next hj =>
      exact ⟨fun hz ↦ ⟨hz, fun hji ↦ hj (congrArg Int.ofNat hji)⟩, And.left⟩
  refine ⟨⟨?_, ?_⟩, ?_, ?_, ?_⟩
  · intro l id hl
    rw [goto_pc] at hl
    split at hl
    · exact ⟨i, hi, (ClaimPc.returned.inj hl).symm, hzero⟩
    · exact h.free l id hl
  · intro l l' id hl hl'
    rw [goto_pc] at hl hl'
    split at hl <;> split at hl'
    · next hlk hlk' => rw [hlk, hlk']
    · next hlk hlk' =>
      obtain rfl := ClaimPc.returned.inj hl
      exact absurd hl' (hnone l')
    · next hlk hlk' =>
      obtain rfl := ClaimPc.returned.inj hl'
      exact absurd hl (hnone l)
    · exact h.distinct l l' id hl hl'
  · intro j hj
    rw [goto_checker, hentries j, h.clear_iff j hj]
    constructor
    · rintro ⟨⟨hjzero, hjnone⟩, hne⟩
      refine ⟨hjzero, ?_⟩
      intro l
      rw [goto_pc]
      split
      · intro heq
        exact hne (Int.ofNat.inj (ClaimPc.returned.inj heq)).symm
      · exact hjnone l
    · rintro ⟨hjzero, hjnone⟩
      refine ⟨⟨hjzero, ?_⟩, ?_⟩
      · intro l hl
        have hlk : l ≠ k := by
          rintro rfl
          rw [hk] at hl
          cases hl
        refine hjnone l ?_
        rw [goto_pc, if_neg hlk]
        exact hl
      · rintro rfl
        exact hjnone k (by rw [goto_pc, if_pos rfl])
  · intro l j hl j' hj' hj'n
    rw [goto_pc] at hl
    split at hl
    · cases hl
    · rw [goto_checker]
      intro hz
      exact h.passed l j hl j' hj' hj'n ((hentries j').mp hz).1
  · intro l j hl
    rw [goto_pc] at hl
    split at hl
    · cases hl
    · exact h.found l j hl

/-- A step that meets its condition keeps the invariant. -/
theorem Inv.step (h : Inv n checker s) (hfree : m ≤ (freeSlots n checker).card)
    (hclear : s.FindsClear k) (hstep : s.step n k = some t) : Inv n checker t := by
  cases trans_of_step hstep with
  | @busy i hk hi hentry =>
    refine h.goto (by simp [hk]) (by simp) ?_ (by simp)
    rintro i' hi' j hj hjn
    obtain rfl := ClaimPc.test.inj hi'
    rcases Nat.lt_succ_iff_lt_or_eq.mp hj with hj | rfl
    · exact h.passed k i hk j hj hjn
    · exact hentry
  | @clear i hk hi hentry =>
    refine h.goto (by simp [hk]) (by simp) (by simp) ?_
    rintro i' hi'
    obtain rfl := ClaimPc.claim.inj hi'
    exact ⟨hi, ((h.clear_iff i hi).mp hentry).1⟩
  | @none i hk hi =>
    obtain ⟨j, hj, hentry⟩ := h.exists_clear hfree (k := k) (by simp [hk])
    exact absurd hentry (h.passed k i hk j (Nat.lt_of_lt_of_le hj hi) hj)
  | @store i hk => exact h.store hk (hclear i hk)

/-- A store over an entry that was claimed meanwhile gives one id to two calls. -/
theorem Inv.breaks (h : Inv n checker s) (hclear : ¬s.FindsClear k)
    (hstep : s.step n k = some t) : ¬Granted n checker t := by
  rw [FindsClear, not_forall] at hclear
  obtain ⟨i, hnot⟩ := hclear
  rw [Classical.not_imp] at hnot
  obtain ⟨hk, hentry⟩ := hnot
  obtain ⟨hi, hzero⟩ := h.found k i hk
  have htaken : ∃ l, s.pc l = .returned i := by
    by_contra hno
    exact hentry ((h.clear_iff i hi).mpr ⟨hzero, fun l hl ↦ hno ⟨l, hl⟩⟩)
  obtain ⟨l, hl⟩ := htaken
  have hreturned : t.pc k = .returned i := by
    cases trans_of_step hstep with
    | store hk' =>
      obtain rfl := ClaimPc.claim.inj (hk.symm.trans hk')
      rw [goto_pc, if_pos rfl]
    | busy hk' | clear hk' | none hk' =>
      rw [hk] at hk'
      cases hk'
  intro ht
  have hlk : l = k := ht.distinct l k i (returned_stays hstep hl) hreturned
  rw [hlk, hk] at hl
  cases hl

/-- The ids returned so far are distinct free slots if and only if every store has found its
entry still clear. -/
theorem granted_iff {calls : List (Fin m)} (hfree : m ≤ (freeSlots n checker).card)
    (hrun : StepRun.run (step n) (start m checker) calls = some s) :
    Granted n checker s ↔ StepRun.Meets (step n) FindsClear (start m checker) calls := by
  rw [← StepRun.always_iff_last (P := Granted n checker) (fun _ _ _ ↦ granted_back) hrun]
  exact StepRun.always_iff_meets (I := Inv n checker) (fun _ h ↦ h.toGranted)
    (fun _ _ _ h hc hstep ↦ h.step hfree hc hstep)
    (fun _ _ _ h hc hstep ↦ h.breaks hc hstep) (inv_start n checker) hrun

/-! ### Complete runs -/

/-- A step of a call brings it nearer to its return, and leaves the others where they are. -/
theorem left_step (h : s.step n k = some t) :
    ∑ l, (t.pc l).left n + 1 ≤ ∑ l, (s.pc l).left n := by
  have hown : (t.pc k).left n < (s.pc k).left n ∧ ∀ l ≠ k, t.pc l = s.pc l := by
    cases trans_of_step h with
    | busy hk hi | clear hk | none hk | store hk =>
      refine ⟨?_, ?_⟩
      · rw [goto_pc, if_pos rfl, hk]
        simp only [ClaimPc.left]
        omega
      · intro l hl
        rw [goto_pc, if_neg hl]
  have hle : ∀ l ∈ Finset.univ, (t.pc l).left n ≤ (s.pc l).left n := by
    intro l _
    by_cases hl : l = k
    · rw [hl]
      exact Nat.le_of_lt hown.1
    · rw [hown.2 l hl]
  exact Finset.sum_lt_sum hle ⟨k, Finset.mem_univ k, hown.1⟩

private theorem length_add_left_le {calls : List (Fin m)}
    (hrun : StepRun.run (step n) s calls = some t) :
    calls.length + ∑ l, (t.pc l).left n ≤ ∑ l, (s.pc l).left n := by
  induction calls generalizing s with
  | nil =>
    obtain rfl := Option.some.inj hrun
    simp
  | cons k calls ih =>
    obtain ⟨u, hk, hrest⟩ := StepRun.run_cons_iff.mp hrun
    have hstep := left_step hk
    have hcalls := ih hrest
    rw [List.length_cons]
    omega

/-- However they are interleaved, `m` calls make at most `m * (n + 2)` steps. -/
theorem length_le {calls : List (Fin m)}
    (hrun : StepRun.run (step n) (start m checker) calls = some s) :
    calls.length ≤ m * (n + 2) := by
  have hleft := length_add_left_le hrun
  have htotal : ∑ l, ((start m checker).pc l).left n = m * (n + 2) := by
    simp [start, ClaimPc.left]
  omega

/-- A call that can make no step has returned. -/
theorem returned_of_stuck (h : s.step n k = none) : ∃ id, s.pc k = .returned id := by
  unfold step at h
  cases hk : s.pc k with
  | test i =>
    simp only [hk] at h
    split at h
    · split at h <;> cases h
    · cases h
  | claim i =>
    simp only [hk] at h
    cases h
  | returned id => exact ⟨id, rfl⟩

private theorem obtained_iff_granted (hdone : ∀ k, ∃ id, s.pc k = .returned id) :
    Obtained n checker s ↔ Granted n checker s := by
  constructor
  · rintro ⟨ids, hinj, hids⟩
    refine ⟨?_, ?_⟩
    · intro k id hk
      obtain ⟨hret, hlt, hzero⟩ := hids k
      exact ⟨ids k, hlt, ClaimPc.returned.inj (hk.symm.trans hret), hzero⟩
    · intro k k' id hk hk'
      have hid := ClaimPc.returned.inj (hk.symm.trans (hids k).1)
      have hid' := ClaimPc.returned.inj (hk'.symm.trans (hids k').1)
      exact hinj (Int.ofNat.inj (hid.symm.trans hid'))
  · intro h
    have hall (k : Fin m) : ∃ i : Nat, s.pc k = .returned i ∧ i < n ∧ checker i = 0 := by
      obtain ⟨id, hk⟩ := hdone k
      obtain ⟨i, hi, rfl, hzero⟩ := h.free k id hk
      exact ⟨i, hk, hi, hzero⟩
    choose ids hids using hall
    refine ⟨ids, ?_, hids⟩
    intro k k' heq
    exact h.distinct k k' (ids k) (hids k).1 (heq ▸ (hids k').1)

/-- For every table with at least `m` free slots and every interleaving of `m` calls that runs
to the end: the calls obtain different free slots if and only if every store finds its entry
still clear. -/
theorem obtained_iff (n m : Nat) (checker : Int → Int)
    (hfree : m ≤ (freeSlots n checker).card) (calls : List (Fin m)) (s : ClaimState m)
    (hrun : StepRun.run (step n) (start m checker) calls = some s)
    (hdone : ∀ k, ∃ id, s.pc k = .returned id) :
    Obtained n checker s ↔ StepRun.Meets (step n) FindsClear (start m checker) calls :=
  (obtained_iff_granted hdone).trans (granted_iff hfree hrun)

/-- Two calls one after the other. -/
theorem obtained_iff_sequential : ∃ s : ClaimState 2,
    StepRun.run (step 2) (start 2 fun _ ↦ 0) [0, 0, 1, 1, 1] = some s ∧
      (Obtained 2 (fun _ ↦ 0) s ↔
        StepRun.Meets (step 2) FindsClear (start 2 fun _ ↦ 0) [0, 0, 1, 1, 1]) := by
  obtain ⟨s, hrun, hzero, hone⟩ : ∃ s : ClaimState 2,
      StepRun.run (step 2) (start 2 fun _ ↦ 0) [0, 0, 1, 1, 1] = some s ∧
        s.pc 0 = .returned 0 ∧ s.pc 1 = .returned 1 := ⟨_, rfl, rfl, rfl⟩
  refine ⟨s, hrun, obtained_iff 2 2 _ (by decide) _ s hrun ?_⟩
  intro k
  cases k using Fin.cases with
  | zero => exact ⟨0, hzero⟩
  | succ k =>
    obtain rfl : k = 0 := Subsingleton.elim _ _
    exact ⟨1, hone⟩

/-- Two calls that both test entry 0 before either stores: both return 0. -/
theorem not_obtained_race : ¬∀ (n m : Nat) (checker : Int → Int) (calls : List (Fin m))
    (s : ClaimState m), m ≤ (freeSlots n checker).card →
    StepRun.run (step n) (start m checker) calls = some s →
    (∀ k, ∃ id, s.pc k = .returned id) → Obtained n checker s := by
  intro hall
  obtain ⟨s, hrun, hzero, hone⟩ : ∃ s : ClaimState 2,
      StepRun.run (step 2) (start 2 fun _ ↦ 0) [0, 1, 0, 1] = some s ∧
        s.pc 0 = .returned 0 ∧ s.pc 1 = .returned 0 := ⟨_, rfl, rfl, rfl⟩
  have hdone (k : Fin 2) : ∃ id, s.pc k = .returned id := by
    cases k using Fin.cases with
    | zero => exact ⟨0, hzero⟩
    | succ k =>
      obtain rfl : k = 0 := Subsingleton.elim _ _
      exact ⟨0, hone⟩
  obtain ⟨ids, hinj, hids⟩ := hall 2 2 (fun _ ↦ 0) [0, 1, 0, 1] s (by decide) hrun hdone
  have hsame : ids 0 = ids 1 := by
    have h0 := ClaimPc.returned.inj ((hids 0).1.symm.trans hzero)
    have h1 := ClaimPc.returned.inj ((hids 1).1.symm.trans hone)
    omega
  exact absurd (hinj hsame) (by decide)

/-! ### One call alone -/

/-- Nothing else running, a call at its test of entry `i` returns the first clear entry from
there on and marks it. -/
theorem alone_from (n : Nat) (checker : Int → Int) (i d : Nat) (hd : n = i + d) :
    ∃ calls : List (Fin 1), StepRun.run (step n) ⟨checker, fun _ ↦ .test i⟩ calls =
      some (match (List.range' i d).find? fun j : Nat ↦ checker j = 0 with
        | some j => ⟨Function.update checker j 1, fun _ ↦ .returned j⟩
        | none => ⟨checker, fun _ ↦ .returned 0⟩) := by
  have hgoto (c : Int → Int) (pc pc' : ClaimPc) :
      (⟨c, fun _ ↦ pc⟩ : ClaimState 1).goto 0 pc' = ⟨c, fun _ ↦ pc'⟩ := by
    rw [goto]
    congr 1
    funext l
    rw [Subsingleton.elim l 0, Function.update_self]
  induction d generalizing i with
  | zero =>
    refine ⟨[0], ?_⟩
    rw [StepRun.run, step]
    dsimp only
    rw [if_neg (by omega), hgoto]
    rfl
  | succ d ih =>
    by_cases hentry : checker i = 0
    · refine ⟨[0, 0], ?_⟩
      rw [StepRun.run, step]
      dsimp only
      rw [if_pos (by omega), if_pos hentry, hgoto, Option.bind_some, StepRun.run, step]
      dsimp only
      rw [hgoto, List.range'_succ, List.find?_cons_of_pos (by simpa using hentry)]
      rfl
    · obtain ⟨calls, hcalls⟩ := ih (i + 1) (by omega)
      refine ⟨0 :: calls, ?_⟩
      rw [StepRun.run, step]
      dsimp only
      rw [if_pos (by omega), if_neg hentry, hgoto, Option.bind_some, hcalls, List.range'_succ,
        List.find?_cons_of_neg (by simpa using hentry)]

/-- Nothing else running, the steps of one call do what `qhgpuMmapId` does at once. -/
theorem alone (s : State) : ∃ calls : List (Fin 1),
    StepRun.run (step s.moduleCnt) (start 1 s.moduleActiveChecker) calls =
      some ⟨(qhgpuMmapId s).2.moduleActiveChecker, fun _ ↦ .returned (qhgpuMmapId s).1⟩ := by
  obtain ⟨calls, hcalls⟩ := alone_from s.moduleCnt s.moduleActiveChecker 0 s.moduleCnt (by omega)
  refine ⟨calls, ?_⟩
  rw [start, hcalls, qhgpuMmapId, List.range_eq_range']
  cases (List.range' 0 s.moduleCnt).find? fun j : Nat ↦ s.moduleActiveChecker j = 0 <;> rfl

end ClaimState

end QHGPU.Kernel
