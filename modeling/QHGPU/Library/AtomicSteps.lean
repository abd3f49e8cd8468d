import Mathlib.Algebra.Order.BigOperators.Group.Finset
import QHGPU.Library.Schedules

/-!
# Steps of any size

Items on a shared memory whose steps are atomic, however much one of them loads and stores. The
steps of all items interleave in any order. Where a step is a few loads and stores of a
work-item in a row, nothing comes out that single loads and stores cannot give.
-/

namespace AtomicSteps

/-- The shared memory, and where every item stands. -/
structure Config (I M σ : Type) where
  mem : M
  stage : I → σ

variable {I M σ : Type} [DecidableEq I] (next : I → M → σ → Option (M × σ))

/-- One step of one item. -/
def step (c : Config I M σ) (i : I) : Option (Config I M σ) :=
  (next i c.mem (c.stage i)).map fun r ↦ ⟨r.1, Function.update c.stage i r.2⟩

/-- No item has a step left. -/
def Complete (c : Config I M σ) : Prop := ∀ i, next i c.mem (c.stage i) = none

/-- From `m`, with the items standing as in `start`, some order of the steps leaves `m'`. -/
def Launch (start : I → σ) (m m' : M) : Prop :=
  ∃ (acts : List I) (c : Config I M σ),
    StepRun.run (step next) ⟨m, start⟩ acts = some c ∧ Complete next c ∧ c.mem = m'

variable {next} {c c' : Config I M σ} {i : I}

/-- What a step of one item does. -/
theorem step_eq_some_iff : step next c i = some c' ↔
    ∃ m s, next i c.mem (c.stage i) = some (m, s) ∧ c' = ⟨m, Function.update c.stage i s⟩ := by
  rw [step, Option.map_eq_some_iff]
  constructor
  · rintro ⟨⟨m, s⟩, hnext, rfl⟩
    exact ⟨m, s, hnext, rfl⟩
  · rintro ⟨m, s, hnext, rfl⟩
    exact ⟨(m, s), hnext, rfl⟩

/-- When every step leaves less to do, the steps come to an end in every order. -/
theorem exists_complete [Fintype I] (weight : I → σ → Nat)
    (hless : ∀ i m s m' s', next i m s = some (m', s') → weight i s' < weight i s)
    (c : Config I M σ) : ∃ acts c', StepRun.run (step next) c acts = some c' ∧
      Complete next c' := by
  generalize htotal : ∑ i, weight i (c.stage i) = total
  induction total using Nat.strong_induction_on generalizing c with
  | _ total ih =>
    by_cases hdone : Complete next c
    · exact ⟨[], c, rfl, hdone⟩
    · rw [Complete, not_forall] at hdone
      obtain ⟨i, hi⟩ := hdone
      obtain ⟨⟨m, s⟩, hnext⟩ := Option.ne_none_iff_exists'.mp hi
      have hdown : ∑ j, weight j (Function.update c.stage i s j) < total := by
        rw [← htotal]
        have hat : weight i (Function.update c.stage i s i) < weight i (c.stage i) := by
          rw [Function.update_self]
          exact hless _ _ _ _ _ hnext
        apply Finset.sum_lt_sum _ ⟨i, Finset.mem_univ i, hat⟩
        intro j _
        by_cases hj : j = i
        · subst hj
          exact hat.le
        · rw [Function.update_of_ne hj]
      obtain ⟨acts, c', hrun, hcomplete⟩ := ih _ hdown ⟨m, Function.update c.stage i s⟩ rfl
      refine ⟨i :: acts, c', StepRun.run_cons_iff.mpr ⟨_, ?_, hrun⟩, hcomplete⟩
      exact step_eq_some_iff.mpr ⟨m, s, hnext, rfl⟩

/-- A launch ends when every step leaves its item less to do. -/
theorem exists_launch [Fintype I] (weight : I → σ → Nat)
    (hless : ∀ i m s m' s', next i m s = some (m', s') → weight i s' < weight i s)
    (start : I → σ) (m : M) : ∃ m', Launch next start m m' := by
  obtain ⟨acts, c, hrun, hcomplete⟩ := exists_complete weight hless ⟨m, start⟩
  exact ⟨c.mem, acts, c, hrun, hcomplete, rfl⟩

/-! ### As loads and stores -/

section

open WorkItems (Prog Runs)

variable {L V G : Type} [Fintype I] [DecidableEq L] [DecidableEq G] {group : I → G}
  {next : I → (L → V) → σ → Option ((L → V) × σ)}

/-- A run in steps that are loads and stores in a row is a run in loads and stores. -/
theorem exists_run_of_runs (group : I → G) (prog : I → σ → Prog L V Unit)
    (hruns : ∀ i m s m' s', next i m s = some (m', s') → Runs m (prog i s) m' (prog i s'))
    {c c' : Config I (L → V) σ} {acts : List I}
    (hrun : StepRun.run (step next) c acts = some c') :
    ∃ acts', StepRun.run (WorkItems.step group) ⟨c.mem, fun i ↦ prog i (c.stage i)⟩ acts' =
      some ⟨c'.mem, fun i ↦ prog i (c'.stage i)⟩ := by
  induction acts generalizing c with
  | nil =>
    obtain rfl := Option.some.inj hrun
    exact ⟨[], rfl⟩
  | cons i acts ih =>
    obtain ⟨c₁, hstep, hrest⟩ := StepRun.run_cons_iff.mp hrun
    obtain ⟨m, s, hnext, rfl⟩ := step_eq_some_iff.mp hstep
    obtain ⟨acts₁, hrun₁⟩ := (hruns _ _ _ _ _ hnext).schedule group fun i ↦ prog i (c.stage i)
    obtain ⟨acts₂, hrun₂⟩ := ih hrest
    refine ⟨acts₁ ++ acts₂, StepRun.run_append hrun₁ ?_⟩
    have hat : Function.update (fun i ↦ prog i (c.stage i)) i (prog i s) =
        fun j ↦ prog j (Function.update c.stage i s j) := by
      ext j
      by_cases hj : j = i
      · subst hj
        simp only [Function.update_self]
      · simp only [Function.update_of_ne hj]
    rw [hat]
    exact hrun₂

/-- So what it leaves, a launch can leave. -/
theorem Launch.of_runs {start : I → σ} {m m' : L → V} (h : Launch next start m m')
    (prog : I → σ → Prog L V Unit)
    (hruns : ∀ i m s m' s', next i m s = some (m', s') → Runs m (prog i s) m' (prog i s'))
    (hend : ∀ i m s, next i m s = none → prog i s = .ret ()) :
    WorkItems.Launch group (fun i ↦ prog i (start i)) m m' := by
  obtain ⟨acts, c, hrun, hcomplete, rfl⟩ := h
  obtain ⟨acts', hrun'⟩ := exists_run_of_runs group prog hruns hrun
  exact ⟨acts', _, hrun', fun i ↦ hend i _ _ (hcomplete i), rfl⟩

end

end AtomicSteps
