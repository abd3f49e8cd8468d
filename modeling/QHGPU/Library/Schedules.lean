import Mathlib.Data.Fintype.Basic
import QHGPU.Library.WorkItems

/-!
# Orders of a launch

One item may take several steps in a row while the others wait, and whatever has happened so
far, a launch without barriers can still be brought to its end.
-/

namespace WorkItems

variable {L V α β : Type}

/-- No step stores to `l`, whatever the loads give. -/
def Prog.Avoids (l : L) : Prog L V α → Prop
  | .ret _ => True
  | .get _ k => ∀ v, (k v).Avoids l
  | .put l' _ k => l' ≠ l ∧ k.Avoids l
  | .sync k => k.Avoids l

/-- One program after the other. -/
theorem Prog.Avoids.bind {l : L} {p : Prog L V α} {f : α → Prog L V β} (hp : p.Avoids l)
    (hf : ∀ a, (f a).Avoids l) : (p >>= f).Avoids l := by
  change (p.bind f).Avoids l
  induction p with
  | ret a => exact hf a
  | get l' k ih => exact fun v ↦ ih v (hp v)
  | put l' v k ih => exact ⟨hp.1, ih hp.2⟩
  | sync k ih => exact ih hp

variable [DecidableEq L]

/-- Steps of one item with nobody else in between: from memory `m` with `p` left to do, to
memory `m'` with `p'` left. -/
inductive Runs : (L → V) → Prog L V α → (L → V) → Prog L V α → Prop
  | refl {m p} : Runs m p m p
  | get {m m' l k p'} (h : Runs m (k (m l)) m' p') : Runs m (.get l k) m' p'
  | put {m m' l v k p'} (h : Runs (Function.update m l v) k m' p') : Runs m (.put l v k) m' p'

/-- Steps of one program compose. -/
theorem Runs.trans {m m' m'' : L → V} {p p' p'' : Prog L V α} (h : Runs m p m' p')
    (h' : Runs m' p' m'' p'') : Runs m p m'' p'' := by
  induction h with
  | refl => exact h'
  | get _ ih => exact .get (ih h')
  | put _ ih => exact .put (ih h')

/-- A part of a program. -/
theorem Runs.bind {m m' : L → V} {p p' : Prog L V α} (h : Runs m p m' p') (f : α → Prog L V β) :
    Runs m (p >>= f) m' (p' >>= f) := by
  change Runs m (p.bind f) m' (p'.bind f)
  induction h with
  | refl => exact .refl
  | get _ ih => exact .get ih
  | put _ ih => exact .put ih

/-- A loop as a fold. -/
theorem runs_forM {ι : Type} {body : ι → Prog L V Unit} {f : (L → V) → ι → L → V}
    (hbody : ∀ x m, Runs m (body x) (f m x) (.ret ())) (xs : List ι) (m : L → V) :
    Runs m (xs.forM body) (xs.foldl f m) (.ret ()) := by
  induction xs generalizing m with
  | nil => exact .refl
  | cons x xs ih => exact ((hbody x m).bind fun _ ↦ xs.forM body).trans (ih (f m x))

variable {I G : Type} [Fintype I] [DecidableEq I] [DecidableEq G] {group : I → G}
  {c c' : Config I L V}

/-- The launch can take these steps. -/
theorem Runs.schedule (group : I → G) {m m' : L → V} (prog : I → Prog L V Unit) {i : I}
    {p' : Prog L V Unit} (h : Runs m (prog i) m' p') : ∃ acts : List (Act I G),
      StepRun.run (step group) ⟨m, prog⟩ acts = some ⟨m', Function.update prog i p'⟩ := by
  generalize hp : prog i = p at h
  induction h generalizing prog with
  | refl =>
    refine ⟨[], ?_⟩
    rw [← hp, Function.update_eq_self]
    rfl
  | @get m m' l k p' _ ih =>
    obtain ⟨acts, hacts⟩ := @ih (Function.update prog i (k (m l))) (Function.update_self ..)
    refine ⟨.item i :: acts, StepRun.run_cons_iff.mpr ⟨_, step_eq_some_iff.mpr (.load hp), ?_⟩⟩
    rw [Function.update_idem] at hacts
    exact hacts
  | @put m m' l v k p' _ ih =>
    obtain ⟨acts, hacts⟩ := @ih (Function.update prog i k) (Function.update_self ..)
    refine ⟨.item i :: acts, StepRun.run_cons_iff.mpr ⟨_, step_eq_some_iff.mpr (.store hp), ?_⟩⟩
    rw [Function.update_idem] at hacts
    exact hacts

/-- The items one after the other, as a loop over them on one processor. -/
theorem launch_foldl {S : Nat} (group : Fin S → G) {prog : Nat → Prog L V Unit}
    {f : (L → V) → Nat → L → V}
    (hruns : ∀ i < S, ∀ m, Runs m (prog i) (f m i) (.ret ())) (m : L → V) :
    Launch group (fun i ↦ prog i) m ((List.range S).foldl f m) := by
  have loop (k : Nat) (hk : k ≤ S) : ∃ acts : List (Act (Fin S) G),
      StepRun.run (step group) ⟨m, fun i ↦ prog i⟩ acts =
        some ⟨(List.range k).foldl f m, fun i ↦ if i < k then .ret () else prog i⟩ := by
    induction k with
    | zero => exact ⟨[], rfl⟩
    | succ k ih =>
      obtain ⟨acts, hacts⟩ := ih (Nat.le_of_succ_le hk)
      let left (i : Fin S) : Prog L V Unit := if i < k then .ret () else prog i
      have hleft : left ⟨k, hk⟩ = prog k := if_neg (lt_irrefl k)
      have hrun : Runs ((List.range k).foldl f m) (left ⟨k, hk⟩)
          (f ((List.range k).foldl f m) k) (.ret ()) := by
        rw [hleft]
        exact hruns k hk _
      obtain ⟨acts', hacts'⟩ := hrun.schedule group left
      refine ⟨acts ++ acts', ?_⟩
      rw [StepRun.run_append hacts hacts', List.range_succ, List.foldl_append]
      congr 2
      funext i
      by_cases hi : i = ⟨k, hk⟩
      · subst hi
        rw [Function.update_self, if_pos (Nat.lt_succ_self k)]
      · have hne : i.val ≠ k := fun h ↦ hi (Fin.ext h)
        rw [Function.update_of_ne hi]
        exact if_congr (by omega) rfl rfl
  obtain ⟨acts, hacts⟩ := loop S (Nat.le_refl S)
  refine ⟨acts, _, hacts, ?_, rfl⟩
  exact fun i ↦ if_pos i.isLt

omit [Fintype I] in
/-- What no item stores to keeps its value. -/
theorem Trans.avoids {l : L} {v : V} {a : Act I G} (ht : Trans group c a c')
    (h : c.mem l = v ∧ ∀ i, (c.prog i).Avoids l) : c'.mem l = v ∧ ∀ i, (c'.prog i).Avoids l := by
  obtain ⟨hmem, havoid⟩ := h
  have updated {i : I} {p : Prog L V Unit} (hp : p.Avoids l) (j : I) :
      (Function.update c.prog i p j).Avoids l := by
    by_cases hj : j = i
    · subst hj
      rwa [Function.update_self]
    · rw [Function.update_of_ne hj]
      exact havoid j
  cases ht with
  | @load i l' k hp =>
    have hi := havoid i
    rw [hp] at hi
    exact ⟨hmem, updated (hi _)⟩
  | @store i l' v' k hp =>
    have hi := havoid i
    rw [hp] at hi
    refine ⟨?_, updated hi.2⟩
    dsimp only
    rw [Function.update_of_ne (Ne.symm hi.1)]
    exact hmem
  | @release g i hi hwait =>
    refine ⟨hmem, ?_⟩
    intro j
    have hj := havoid j
    dsimp only
    split
    · cases hp : c.prog j with
      | sync k =>
        rw [hp] at hj
        exact hj
      | _ =>
        rw [hp] at hj
        exact hj
    · exact hj

/-- What a launch without barriers has stored so far can be its result, where nobody stores any
more. -/
theorem exists_launch_of_run {prog : I → Prog L V Unit} {m : L → V} {l : L}
    {acts : List (Act I G)} (hfree : ∀ i, (prog i).Free)
    (hrun : StepRun.run (step group) ⟨m, prog⟩ acts = some c)
    (havoid : ∀ i, (c.prog i).Avoids l) : ∃ m', Launch group prog m m' ∧ m' l = c.mem l := by
  have hfree' : ∀ i, (c.prog i).Free := StepRun.run_invariant_of_step
    (fun _ _ _ h hstep ↦ (step_eq_some_iff.mp hstep).free h) hfree hrun
  obtain ⟨acts', c', hrun', hcomplete⟩ := exists_complete
    (fun _ _ _ h (ht : Trans group _ _ _) ↦ ht.free h) (fun _ ↦ exists_trans_of_free) hfree'
  have hkeep := StepRun.run_invariant_of_step
    (fun _ _ _ h hstep ↦ (step_eq_some_iff.mp hstep).avoids h) ⟨rfl, havoid⟩ hrun'
  exact ⟨c'.mem, ⟨acts ++ acts', c', StepRun.run_append hrun hrun', hcomplete, rfl⟩, hkeep.1⟩

end WorkItems
