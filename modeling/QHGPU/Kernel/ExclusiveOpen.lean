import Mathlib.Algebra.Group.Nat.Defs
import Mathlib.Data.Finset.Card
import QHGPU.Library.StepRun

/-!
# Exclusive open

`qhgpu_open`, `src/qhgpu/main.c:185–195`, called any number of times at once, and the closes of
the handles it returns: `atomic_dec_and_test` and `atomic_inc` of `qhgpu_av` are steps of their
own. `qhgpu_ops` has no `release`.
-/

namespace QHGPU.Kernel

/-- Where a call of `qhgpu_open`, `src/qhgpu/main.c:185–195`, is: before `atomic_dec_and_test`,
before `atomic_inc`, or returned with -1 or with 0, and then its handle is open or closed. -/
inductive OpenPc where
  | entry
  | failing
  | failed
  | opened
  | closed
  deriving DecidableEq, Repr

/-- A step of call `c`, or the close of its handle. -/
inductive OpenStep where
  | decAndTest (c : Nat)
  | inc (c : Nat)
  | close (c : Nat)
  deriving DecidableEq, Repr

/-- The call that the step belongs to. -/
def OpenStep.call : OpenStep → Nat
  | .decAndTest c | .inc c | .close c => c

/-- `qhgpu_av`, and where each call is. -/
structure OpenState where
  av : BitVec 32
  pc : Nat → OpenPc

namespace OpenState

/-- `ATOMIC_INIT(1)`, `src/qhgpu/main.c:115`, and no call has begun. -/
def start : OpenState := ⟨1, fun _ ↦ .entry⟩

/-- Call `c` goes on at `pc`. -/
def goto (s : OpenState) (c : Nat) (pc : OpenPc) : OpenState :=
  { s with pc := Function.update s.pc c pc }

/-- One atomic step, `src/qhgpu/main.c:188–194`. The file operations do nothing to `qhgpu_av` on a
close. -/
def step (s : OpenState) : OpenStep → Option OpenState
  | .decAndTest c =>
    if s.pc c = .entry then
      -- the store to `filp->private_data` that follows a success is to the file of this call
      some ({ s with av := s.av - 1 }.goto c (if s.av - 1 = 0 then .opened else .failing))
    else none
  | .inc c => if s.pc c = .failing then some ({ s with av := s.av + 1 }.goto c .failed) else none
  | .close c => if s.pc c = .opened then some (s.goto c .closed) else none

/-! ### What clients expect -/

/-- The state `s` that the steps `as` lead to: one handle at most is open, each failed call has
left `qhgpu_av` and the other calls as they are without it, and a call that begins while none is
under way and no handle is open succeeds. -/
structure Exclusive (as : List OpenStep) (s : OpenState) : Prop where
  one : ∀ c d, s.pc c = .opened → s.pc d = .opened → c = d
  restores : ∀ c, s.pc c = .failed →
    ∃ s', StepRun.run step start (as.filter fun a ↦ a.call ≠ c) = some s' ∧
      s'.av = s.av ∧ ∀ d, d ≠ c → s'.pc d = s.pc d
  available : (∀ c, s.pc c ≠ .opened ∧ s.pc c ≠ .failing) → ∀ c, s.pc c = .entry →
    ∃ s', s.step (.decAndTest c) = some s' ∧ s'.pc c = .opened

/-- Less than `2 ^ 32 - 1` calls are between their two steps when another begins. -/
def Room (s : OpenState) : OpenStep → Prop
  | .decAndTest _ =>
    ∀ calls : Finset Nat, (∀ c ∈ calls, s.pc c = .failing) → calls.card + 1 < 2 ^ 32
  | _ => True

/-- Another call is under way when a handle is closed, and when a call has failed another one is
under way or a handle is open. -/
def Busy (s : OpenState) : OpenStep → Prop
  | .decAndTest _ => True
  | .inc c => ∃ d, d ≠ c ∧ (s.pc d = .failing ∨ s.pc d = .opened)
  | .close _ => ∃ d, s.pc d = .failing

/-! ### The counter -/

variable {s t : OpenState} {a : OpenStep} {c d o : Nat} {calls : Finset Nat}
  {as : List OpenStep}

/-- Going on leaves `qhgpu_av` alone. -/
@[simp] theorem goto_av (s : OpenState) (c : Nat) (pc : OpenPc) : (s.goto c pc).av = s.av := rfl

/-- The call is where it goes on. -/
@[simp] theorem goto_pc_self (s : OpenState) (c : Nat) (pc : OpenPc) : (s.goto c pc).pc c = pc :=
  Function.update_self ..

/-- The other calls stay where they are. -/
@[simp] theorem goto_pc_of_ne (s : OpenState) (pc : OpenPc) (h : d ≠ c) :
    (s.goto c pc).pc d = s.pc d := Function.update_of_ne h ..

/-- Call `o` got the handle, and the calls under way have taken one each since. -/
structure Taken (o : Nat) (calls : Finset Nat) (s : OpenState) : Prop where
  owner : s.pc o = .opened ∨ s.pc o = .closed
  only : ∀ c, s.pc c = .opened ∨ s.pc c = .closed → c = o
  failing : ∀ c, c ∈ calls ↔ s.pc c = .failing
  av : s.av = -BitVec.ofNat 32 calls.card
  rest : ∃ n, ∀ c, n ≤ c → s.pc c = .entry

/-- What `step` does, by the step. -/
inductive Trans (s : OpenState) : OpenStep → OpenState → Prop where
  | opens (c : Nat) (hpc : s.pc c = .entry) (hav : s.av - 1 = 0) :
    Trans s (.decAndTest c) ({ s with av := s.av - 1 }.goto c .opened)
  | fails (c : Nat) (hpc : s.pc c = .entry) (hav : s.av - 1 ≠ 0) :
    Trans s (.decAndTest c) ({ s with av := s.av - 1 }.goto c .failing)
  | inc (c : Nat) (hpc : s.pc c = .failing) :
    Trans s (.inc c) ({ s with av := s.av + 1 }.goto c .failed)
  | close (c : Nat) (hpc : s.pc c = .opened) : Trans s (.close c) (s.goto c .closed)

/-- Every step is one of `Trans`. -/
theorem trans_of_step (h : s.step a = some t) : Trans s a t := by
  cases a with
  | decAndTest c =>
    simp only [step, Option.ite_none_right_eq_some, Option.some.injEq] at h
    obtain ⟨hpc, rfl⟩ := h
    split
    · next hav => exact .opens c hpc hav
    · next hav => exact .fails c hpc hav
  | inc c =>
    simp only [step, Option.ite_none_right_eq_some, Option.some.injEq] at h
    exact h.2 ▸ .inc c h.1
  | close c =>
    simp only [step, Option.ite_none_right_eq_some, Option.some.injEq] at h
    exact h.2 ▸ .close c h.1

/-- No call has begun, or one has got the handle. -/
def Inv (s : OpenState) : Prop := s = start ∨ ∃ o calls, Taken o calls s

private theorem Taken.sub_one_ne (h : Taken o calls s) (hroom : Room s (.decAndTest c)) :
    s.av - 1 ≠ 0 := by
  have hlt := hroom calls fun c hc ↦ (h.failing c).mp hc
  rw [h.av]
  bv_omega

private theorem rest_goto {n : Nat} (hrest : ∀ c, n ≤ c → s.pc c = .entry) (c : Nat) (pc : OpenPc) :
    ∃ n, ∀ d, n ≤ d → (s.goto c pc).pc d = .entry := by
  refine ⟨max n (c + 1), ?_⟩
  intro d hd
  rw [goto_pc_of_ne s pc (by omega)]
  exact hrest d (by omega)

private theorem taken_first (c : Nat) :
    Taken c ∅ ({ start with av := start.av - 1 }.goto c .opened) := by
  constructor
  · exact Or.inl (goto_pc_self ..)
  · intro d hd
    by_contra hdc
    rw [goto_pc_of_ne _ _ hdc] at hd
    simp [start] at hd
  · intro d
    by_cases hdc : d = c
    · subst hdc
      simp
    · simp [goto_pc_of_ne _ _ hdc, start]
  · rfl
  · exact rest_goto (n := 0) (fun _ _ ↦ rfl) c .opened

/-- A call that has not got the handle goes on without it. -/
theorem Taken.move (h : Taken o calls s) {pc : OpenPc} {av : BitVec 32} {calls' : Finset Nat}
    (hold : s.pc c ≠ .opened ∧ s.pc c ≠ .closed) (hnew : pc ≠ .opened ∧ pc ≠ .closed)
    (hself : c ∈ calls' ↔ pc = .failing) (hother : ∀ d, d ≠ c → (d ∈ calls' ↔ d ∈ calls))
    (hav : av = -BitVec.ofNat 32 calls'.card) :
    Taken o calls' ({ s with av := av }.goto c pc) := by
  have hoc : o ≠ c := by
    rintro rfl
    exact h.owner.elim hold.1 hold.2
  obtain ⟨n, hrest⟩ := h.rest
  constructor
  · rw [goto_pc_of_ne _ _ hoc]
    exact h.owner
  · intro d hd
    by_cases hdc : d = c
    · subst hdc
      rw [goto_pc_self] at hd
      exact absurd hd (not_or.mpr hnew)
    · rw [goto_pc_of_ne _ _ hdc] at hd
      exact h.only d hd
  · intro d
    by_cases hdc : d = c
    · subst hdc
      rw [goto_pc_self]
      exact hself
    · rw [goto_pc_of_ne _ _ hdc]
      exact (hother d hdc).trans (h.failing d)
  · exact hav
  · exact rest_goto (n := n) hrest c pc

private theorem Taken.fails (h : Taken o calls s) (hpc : s.pc c = .entry) :
    Taken o (insert c calls) ({ s with av := s.av - 1 }.goto c .failing) := by
  have hnew : c ∉ calls := by
    rw [h.failing, hpc]
    simp
  apply h.move
  · simp [hpc]
  · simp
  · simp
  · exact fun d hd ↦ by simp [hd]
  · rw [Finset.card_insert_of_notMem hnew, h.av]
    bv_omega

private theorem Taken.inc (h : Taken o calls s) (hpc : s.pc c = .failing) :
    Taken o (calls.erase c) ({ s with av := s.av + 1 }.goto c .failed) := by
  have hcard := Finset.card_erase_add_one ((h.failing c).mpr hpc)
  apply h.move
  · simp [hpc]
  · simp
  · simp
  · exact fun d hd ↦ by simp [hd]
  · rw [h.av, ← hcard]
    bv_omega

private theorem Taken.close (h : Taken o calls s) (hpc : s.pc c = .opened) :
    Taken o calls (s.goto c .closed) := by
  obtain rfl := h.only c (Or.inl hpc)
  obtain ⟨n, hrest⟩ := h.rest
  constructor
  · exact Or.inr (goto_pc_self ..)
  · intro d hd
    by_cases hdc : d = c
    · exact hdc
    · rw [goto_pc_of_ne _ _ hdc] at hd
      exact h.only d hd
  · intro d
    by_cases hdc : d = c
    · subst hdc
      simp [h.failing d, hpc]
    · rw [goto_pc_of_ne _ _ hdc]
      exact h.failing d
  · exact h.av
  · exact rest_goto hrest c .closed

/-- Some call has taken the handle after every admitted step. -/
theorem Inv.step (hs : Inv s) (hroom : Room s a) (h : s.step a = some t) :
    ∃ o calls, Taken o calls t := by
  rcases hs with rfl | ⟨o, calls, hs⟩
  · cases trans_of_step h with
    | opens c => exact ⟨c, ∅, taken_first c⟩
    | fails c _ hav => exact absurd rfl hav
    | inc c hpc => cases hpc
    | close c hpc => cases hpc
  · cases trans_of_step h with
    | opens c _ hav => exact absurd hav (hs.sub_one_ne hroom)
    | fails c hpc => exact ⟨o, _, hs.fails hpc⟩
    | inc c hpc => exact ⟨o, _, hs.inc hpc⟩
    | close c hpc => exact ⟨o, _, hs.close hpc⟩

/-- Only one handle is open. -/
theorem Inv.one (hs : Inv s) (hc : s.pc c = .opened) (hd : s.pc d = .opened) : c = d := by
  rcases hs with rfl | ⟨o, calls, hs⟩
  · cases hc
  · exact (hs.only c (Or.inl hc)).trans (hs.only d (Or.inl hd)).symm

/-! ### A run without one of its calls -/

/-- The states of a run and of the same run without call `c`, which has not got the handle. -/
structure Without (c : Nat) (s s' : OpenState) : Prop where
  entry : s'.pc c = .entry
  same : ∀ d, d ≠ c → s'.pc d = s.pc d
  av : s'.av = if s.pc c = .failing then s.av + 1 else s.av
  loses : s.pc c ≠ .opened ∧ s.pc c ≠ .closed

variable {s' : OpenState}

/-- The steps of `c` itself. -/
theorem Without.own (h : Without c s s') (ht : t.pc c ≠ .opened ∧ t.pc c ≠ .closed)
    (ha : a.call = c) (hstep : s.step a = some t) : Without c t s' := by
  have hav := h.av
  cases trans_of_step hstep with
  | opens d =>
    obtain rfl : d = c := ha
    exact absurd (goto_pc_self ..) ht.1
  | fails d hpc =>
    obtain rfl : d = c := ha
    refine ⟨h.entry, ?_, ?_, ht⟩
    · intro d hd
      rw [goto_pc_of_ne _ _ hd]
      exact h.same d hd
    · rw [goto_pc_self, if_pos rfl, goto_av, hav, hpc, if_neg (by simp)]
      bv_omega
  | inc d hpc =>
    obtain rfl : d = c := ha
    refine ⟨h.entry, ?_, ?_, ht⟩
    · intro d hd
      rw [goto_pc_of_ne _ _ hd]
      exact h.same d hd
    · rw [goto_pc_self, if_neg (by simp), goto_av, hav, hpc, if_pos rfl]
  | close d =>
    obtain rfl : d = c := ha
    exact absurd (goto_pc_self ..) ht.2

private theorem Without.goto (h : Without c s s') (hd : d ≠ c) (pc : OpenPc) {av av' : BitVec 32}
    (hav : av' = if s.pc c = .failing then av + 1 else av) :
    Without c ({ s with av := av }.goto d pc) ({ s' with av := av' }.goto d pc) := by
  constructor
  · rw [goto_pc_of_ne _ _ hd.symm]
    exact h.entry
  · intro e he
    by_cases hed : e = d
    · subst hed
      rw [goto_pc_self, goto_pc_self]
    · rw [goto_pc_of_ne _ _ hed, goto_pc_of_ne _ _ hed]
      exact h.same e he
  · rw [goto_pc_of_ne _ _ hd.symm]
    exact hav
  · rw [goto_pc_of_ne _ _ hd.symm]
    exact h.loses

/-- The decrement of `c` decides no other call. -/
theorem Without.sub_one_eq_iff (h : Without c s s') (hs : Inv s)
    (hroom : Room s (.decAndTest d)) : s'.av - 1 = 0 ↔ s.av - 1 = 0 := by
  by_cases hpc : s.pc c = .failing
  · rcases hs with rfl | ⟨o, calls, hs⟩
    · cases hpc
    · have hlt := hroom calls fun e he ↦ (hs.failing e).mp he
      have hpos : 0 < calls.card := Finset.card_pos.mpr ⟨c, (hs.failing c).mpr hpc⟩
      have hne := hs.sub_one_ne hroom
      have hav' : s'.av - 1 ≠ 0 := by
        rw [h.av, if_pos hpc, hs.av]
        bv_omega
      exact iff_of_false hav' hne
  · rw [h.av, if_neg hpc]

/-- The steps of the other calls. -/
theorem Without.other (h : Without c s s') (hs : Inv s) (hroom : Room s a) (ha : a.call ≠ c)
    (hstep : s.step a = some t) : ∃ t', s'.step a = some t' ∧ Without c t t' := by
  have hav := h.av
  have hpc' := h.same a.call ha
  cases trans_of_step hstep with
  | opens d hpc hzero =>
    have hzero' := (h.sub_one_eq_iff hs hroom).mpr hzero
    refine ⟨_, if_pos (hpc'.trans hpc), ?_⟩
    rw [if_pos hzero']
    apply h.goto ha
    rw [hav]
    split <;> bv_omega
  | fails d hpc hne =>
    have hne' := (h.sub_one_eq_iff hs hroom).not.mpr hne
    refine ⟨_, if_pos (hpc'.trans hpc), ?_⟩
    rw [if_neg hne']
    apply h.goto ha
    rw [hav]
    split <;> bv_omega
  | inc d hpc =>
    refine ⟨_, if_pos (hpc'.trans hpc), ?_⟩
    apply h.goto ha
    rw [hav]
    split <;> rfl
  | close d hpc =>
    refine ⟨_, if_pos (hpc'.trans hpc), ?_⟩
    exact h.goto ha .closed hav

/-- A call keeps what it got. -/
theorem opened_or_closed_step (hc : s.pc c = .opened ∨ s.pc c = .closed)
    (h : s.step a = some t) : t.pc c = .opened ∨ t.pc c = .closed := by
  cases trans_of_step h with
  | opens d hpc | fails d hpc | inc d hpc =>
    have hcd : c ≠ d := by
      rintro rfl
      simp [hpc] at hc
    rw [goto_pc_of_ne _ _ hcd]
    exact hc
  | close d hpc =>
    by_cases hcd : c = d
    · subst hcd
      exact Or.inr (goto_pc_self ..)
    · rw [goto_pc_of_ne _ _ hcd]
      exact hc

/-- A run in which call `c` gets no handle goes through without it, and to the same end. -/
theorem Without.run (h : Without c s s') (hs : Inv s) (hroom : StepRun.Meets step Room s as)
    (hrun : StepRun.run step s as = some t) (ht : t.pc c ≠ .opened ∧ t.pc c ≠ .closed) :
    ∃ t', StepRun.run step s' (as.filter fun a ↦ a.call ≠ c) = some t' ∧ Without c t t' := by
  induction as generalizing s s' with
  | nil =>
    obtain rfl := Option.some.inj hrun
    exact ⟨s', rfl, h⟩
  | cons a as ih =>
    obtain ⟨u, hstep, hrun⟩ := StepRun.run_cons_iff.mp hrun
    have hu : Inv u := Or.inr (hs.step hroom.1 hstep)
    have hroom' := hroom.2 u hstep
    by_cases ha : a.call = c
    · have hloses : u.pc c ≠ .opened ∧ u.pc c ≠ .closed := by
        rw [← not_or] at ht ⊢
        exact fun hc ↦ ht (StepRun.run_invariant_of_step
          (fun _ _ _ hc hstep ↦ opened_or_closed_step hc hstep) hc hrun)
      obtain ⟨t', hrun', ht'⟩ := ih (h.own hloses ha hstep) hu hroom' hrun
      refine ⟨t', ?_, ht'⟩
      rw [List.filter_cons_of_neg (by simp [ha])]
      exact hrun'
    · obtain ⟨u', hstep', hu'⟩ := h.other hs hroom.1 ha hstep
      obtain ⟨t', hrun', ht'⟩ := ih hu' hu hroom' hrun
      refine ⟨t', ?_, ht'⟩
      rw [List.filter_cons_of_pos (by simp [ha])]
      exact StepRun.run_cons_iff.mpr ⟨u', hstep', hrun'⟩

/-- The decrement and the increment of a failed call leave no trace. -/
theorem restores_of_room (hroom : StepRun.Meets step Room start as)
    (hrun : StepRun.run step start as = some s) (hc : s.pc c = .failed) :
    ∃ s', StepRun.run step start (as.filter fun a ↦ a.call ≠ c) = some s' ∧
      s'.av = s.av ∧ ∀ d, d ≠ c → s'.pc d = s.pc d := by
  have hsame : Without c start start := by
    refine ⟨rfl, fun _ _ ↦ rfl, rfl, ?_⟩
    constructor <;> exact OpenPc.noConfusion
  obtain ⟨s', hrun', h⟩ := hsame.run (Or.inl rfl) hroom hrun (by simp [hc])
  refine ⟨s', hrun', ?_, h.same⟩
  rw [h.av, if_neg (by simp [hc])]

/-! ### When the device is available -/

/-- A call that begins alone succeeds. -/
def Available (s : OpenState) : Prop :=
  (∀ c, s.pc c ≠ .opened ∧ s.pc c ≠ .failing) → ∀ c, s.pc c = .entry →
    ∃ s', s.step (.decAndTest c) = some s' ∧ s'.pc c = .opened

/-- A handle is open, or a call that has failed is under way. -/
def Live (s : OpenState) : Prop := ∃ c, s.pc c = .opened ∨ s.pc c = .failing

private theorem available_start : Available start := by
  intro _ c _
  exact ⟨_, rfl, goto_pc_self ..⟩

private theorem room_of_none (h : ∀ c, s.pc c ≠ .failing) (a : OpenStep) : Room s a := by
  cases a with
  | decAndTest c =>
    intro calls hcalls
    have hempty : calls = ∅ := Finset.eq_empty_of_forall_notMem fun d hd ↦ h d (hcalls d hd)
    rw [hempty, Finset.card_empty]
    omega
  | inc c => trivial
  | close c => trivial

/-- Once the handle is closed and no call is under way, every call fails. -/
theorem Taken.not_available (h : Taken o calls s) (hlive : ¬Live s) : ¬Available s := by
  intro havailable
  obtain ⟨n, hrest⟩ := h.rest
  have hnone (c : Nat) : s.pc c ≠ .opened ∧ s.pc c ≠ .failing :=
    not_or.mp (not_exists.mp hlive c)
  obtain ⟨t, hstep, ht⟩ := havailable hnone n (hrest n (Nat.le_refl n))
  have hroom : Room s (.decAndTest n) := room_of_none (fun c ↦ (hnone c).2) _
  rw [step, if_pos (hrest n (Nat.le_refl n)), if_neg (h.sub_one_ne hroom)] at hstep
  obtain rfl := Option.some.inj hstep
  rw [goto_pc_self] at ht
  cases ht

private theorem available_of_live (h : Live s) : Available s := by
  intro hnone
  obtain ⟨c, hc⟩ := h
  exact absurd hc (not_or.mpr (hnone c))

private theorem Inv.live_iff (hs : Inv s) (h : s.step a = some t) : Live t ↔ Busy s a := by
  cases trans_of_step h with
  | opens c => exact iff_of_true ⟨c, Or.inl (goto_pc_self ..)⟩ trivial
  | fails c => exact iff_of_true ⟨c, Or.inr (goto_pc_self ..)⟩ trivial
  | inc c hpc =>
    constructor
    · rintro ⟨d, hd⟩
      by_cases hdc : d = c
      · subst hdc
        simp at hd
      · rw [goto_pc_of_ne _ _ hdc] at hd
        exact ⟨d, hdc, hd.symm⟩
    · rintro ⟨d, hdc, hd⟩
      refine ⟨d, ?_⟩
      rw [goto_pc_of_ne _ _ hdc]
      exact hd.symm
  | close c hpc =>
    constructor
    · rintro ⟨d, hd⟩
      by_cases hdc : d = c
      · subst hdc
        simp at hd
      · rw [goto_pc_of_ne _ _ hdc] at hd
        -- only one handle can be open
        exact ⟨d, hd.resolve_left fun hd ↦ hdc (hs.one hd hpc)⟩
    · rintro ⟨d, hd⟩
      have hdc : d ≠ c := by
        rintro rfl
        rw [hpc] at hd
        cases hd
      refine ⟨d, Or.inr ?_⟩
      rw [goto_pc_of_ne _ _ hdc]
      exact hd

private theorem always_available_iff (hrun : StepRun.run step start as = some s)
    (hroom : StepRun.Meets step Room start as) :
    StepRun.Always step Available start as ↔ StepRun.Meets step Busy start as := by
  apply StepRun.always_iff_meets_of_meets (I := fun s ↦ Inv s ∧ (s = start ∨ Live s)) _ _ _ _ hroom
    hrun
  · rintro s ⟨_, rfl | hlive⟩
    · exact available_start
    · exact available_of_live hlive
  · rintro s a t ⟨hs, hlive⟩ hroom hbusy hstep
    exact ⟨Or.inr (hs.step hroom hstep), Or.inr ((hs.live_iff hstep).mpr hbusy)⟩
  · rintro s a t ⟨hs, hlive⟩ hroom hbusy hstep
    obtain ⟨o, calls, ht⟩ := hs.step hroom hstep
    exact ht.not_available (mt (hs.live_iff hstep).mp hbusy)
  · exact ⟨Or.inl rfl, Or.inl rfl⟩

/-- While less than `2 ^ 32 - 1` calls are between their two steps, clients get what they expect
in every state of a run if and only if every step leaves the device busy. -/
theorem exclusive_iff (hrun : StepRun.run step start as = some s)
    (hroom : StepRun.Meets step Room start as) :
    (∀ bs t, bs <+: as → StepRun.run step start bs = some t → Exclusive bs t) ↔
      StepRun.Meets step Busy start as := by
  rw [← always_available_iff hrun hroom, StepRun.always_iff_prefix]
  constructor
  · intro h bs t hbs hrun
    exact (h bs t hbs hrun).available
  · intro h bs t hbs hrun
    have hroom' := StepRun.meets_prefix hroom hbs
    have ht : Inv t := StepRun.run_invariant (I := Inv)
      (fun _ _ _ hs hroom hstep ↦ Or.inr (hs.step hroom hstep)) (Or.inl rfl) hroom' hrun
    constructor
    · exact fun c d hc hd ↦ ht.one hc hd
    · exact fun c hc ↦ restores_of_room hroom' hrun hc
    · exact h bs t hbs hrun

/-- Two calls, of which the second fails while the handle of the first is open. -/
theorem exclusive_iff_two : ∃ s, StepRun.run step start
      [.decAndTest 0, .decAndTest 1, .inc 1] = some s ∧
    ((∀ bs t, bs <+: [.decAndTest 0, .decAndTest 1, .inc 1] →
      StepRun.run step start bs = some t → Exclusive bs t) ↔
      StepRun.Meets step Busy start [.decAndTest 0, .decAndTest 1, .inc 1]) := by
  have hfirst (c : Nat) : ({ start with av := start.av - 1 }.goto 0 .opened).pc c ≠ .failing := by
    by_cases hc : c = 0
    · simp [hc]
    · simp [hc, start]
  refine ⟨_, rfl, exclusive_iff rfl ?_⟩
  apply StepRun.meets_cons (room_of_none (fun _ ↦ OpenPc.noConfusion) _) rfl
  apply StepRun.meets_cons (room_of_none hfirst _) rfl
  exact StepRun.meets_cons trivial rfl trivial

/-- Open, close, and open again. -/
theorem not_exclusive_reopened : ¬∀ (as : List OpenStep) (s : OpenState),
    StepRun.run step start as = some s →
    ∀ bs t, bs <+: as → StepRun.run step start bs = some t → Exclusive bs t := by
  intro h
  have hrun : StepRun.run step start [.decAndTest 0, .close 0] =
      some (({ start with av := start.av - 1 }.goto 0 .opened).goto 0 .closed) := rfl
  have hexclusive := h _ _ hrun _ _ (List.prefix_refl _) hrun
  apply ((taken_first 0).close (goto_pc_self ..)).not_available _ hexclusive.available
  rintro ⟨c, hc⟩
  by_cases hc0 : c = 0
  · simp [hc0] at hc
  · simp [hc0, start] at hc

end OpenState

end QHGPU.Kernel
