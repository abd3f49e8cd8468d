import Mathlib.Data.List.Range
import Mathlib.Logic.Basic

/-!
# Runs of a partial step function

A labelled transition system given by one partial function: `step s a = none` says that
label `a` is not enabled in `s`. Runs, runs whose every step meets a side condition, and
properties of every state visited, with the invariant rules used for them.
-/

namespace StepRun

universe u v

variable {σ : Type u} {α : Type v} (step : σ → α → Option σ)

/-- Perform the labels from left to right; `none` at the first label that is not enabled. -/
def run : σ → List α → Option σ
  | s, [] => some s
  | s, a :: as => (step s a).bind fun t ↦ run t as

/-- Every step of the run is taken in a state where `cond` holds of state and label. -/
def Meets (cond : σ → α → Prop) : σ → List α → Prop
  | _, [] => True
  | s, a :: as => cond s a ∧ ∀ t, step s a = some t → Meets cond t as

/-- `P` holds in every state the run visits, the first and the last included. -/
def Always (P : σ → Prop) : σ → List α → Prop
  | s, [] => P s
  | s, a :: as => P s ∧ ∀ t, step s a = some t → Always P t as

variable {step}

/-- A nonempty run is its first step followed by the rest. -/
theorem run_cons_iff {s u : σ} {a : α} {as : List α} :
    run step s (a :: as) = some u ↔ ∃ t, step s a = some t ∧ run step t as = some u := by
  simp only [run, Option.bind_eq_some_iff]

/-- A run meets a side condition step by step. -/
theorem meets_cons {cond : σ → α → Prop} {s t : σ} {a : α} {as : List α} (hc : cond s a)
    (hs : step s a = some t) (hm : Meets step cond t as) : Meets step cond s (a :: as) := by
  refine ⟨hc, ?_⟩
  intro t' ht'
  obtain rfl := Option.some.inj (hs.symm.trans ht')
  exact hm

/-- Runs compose. -/
theorem run_append {s t u : σ} {as bs : List α} (hs : run step s as = some t)
    (ht : run step t bs = some u) : run step s (as ++ bs) = some u := by
  induction as generalizing s with
  | nil =>
    obtain rfl := Option.some.inj hs
    exact ht
  | cons a as ih =>
    obtain ⟨s', ha, hr⟩ := run_cons_iff.mp hs
    exact run_cons_iff.mpr ⟨s', ha, ih hr⟩

/-- A side condition that asks nothing of the labels of a run is met. -/
theorem meets_of_forall {cond : σ → α → Prop} {s : σ} {as : List α}
    (h : ∀ a ∈ as, ∀ t, cond t a) : Meets step cond s as := by
  induction as generalizing s with
  | nil => trivial
  | cons a as ih =>
    refine ⟨h a List.mem_cons_self s, ?_⟩
    intro t _
    exact ih fun b hb ↦ h b (List.mem_cons_of_mem a hb)

/-- An invariant gives every label of a run its side condition. -/
theorem meets_of_invariant {cond : σ → α → Prop} {I : σ → Prop}
    (hstep : ∀ s a t, I s → step s a = some t → I t) {s : σ} {as : List α}
    (hcond : ∀ s, ∀ a ∈ as, I s → cond s a) (hs : I s) : Meets step cond s as := by
  induction as generalizing s with
  | nil => trivial
  | cons a as ih =>
    refine ⟨hcond s a List.mem_cons_self hs, ?_⟩
    intro t ht
    exact ih (fun s b hb ↦ hcond s b (List.mem_cons_of_mem a hb)) (hstep s a t hs ht)

/-- Meeting a side condition composes. -/
theorem meets_append {cond : σ → α → Prop} {s : σ} {as bs : List α} (ha : Meets step cond s as)
    (hb : ∀ t, run step s as = some t → Meets step cond t bs) :
    Meets step cond s (as ++ bs) := by
  induction as generalizing s with
  | nil => exact hb s rfl
  | cons a as ih =>
    refine ⟨ha.1, ?_⟩
    intro t ht
    exact ih (ha.2 t ht) fun u hu ↦ hb u (run_cons_iff.mpr ⟨t, ht, hu⟩)

/-- A side condition met by every step carries an invariant to the end of the run. -/
theorem run_invariant {cond : σ → α → Prop} {I : σ → Prop}
    (hstep : ∀ s a t, I s → cond s a → step s a = some t → I t)
    {s u : σ} {as : List α} (hs : I s) (hm : Meets step cond s as)
    (hr : run step s as = some u) : I u := by
  induction as generalizing s with
  | nil =>
    obtain rfl := Option.some.inj hr
    exact hs
  | cons a as ih =>
    obtain ⟨t, ha, ht⟩ := run_cons_iff.mp hr
    exact ih (hstep s a t hs hm.1 ha) (hm.2 t ha) ht

/-- The invariant rule for runs without a side condition. -/
theorem run_invariant_of_step {I : σ → Prop}
    (hstep : ∀ s a t, I s → step s a = some t → I t)
    {s u : σ} {as : List α} (hs : I s) (hr : run step s as = some u) : I u := by
  have hm : Meets step (fun _ _ ↦ True) s as := meets_of_forall fun _ _ _ ↦ trivial
  exact run_invariant (fun s a t hs _ ha ↦ hstep s a t hs ha) hs hm hr

/-- The first state of a run is one of the states visited. -/
theorem always_head {P : σ → Prop} {s : σ} {as : List α} (h : Always step P s as) : P s := by
  cases as with
  | nil => exact h
  | cons a as => exact h.1

/-- An invariant that each step keeps exactly when its side condition holds decides, for
a whole run whose steps are all admitted, whether `P` holds in every state visited. -/
theorem always_iff_meets_of_meets {admitted cond : σ → α → Prop} {I P : σ → Prop}
    (hP : ∀ s, I s → P s)
    (hkeep : ∀ s a t, I s → admitted s a → cond s a → step s a = some t → I t)
    (hbreak : ∀ s a t, I s → admitted s a → ¬cond s a → step s a = some t → ¬P t)
    {s u : σ} {as : List α} (hs : I s) (hm : Meets step admitted s as)
    (hr : run step s as = some u) : Always step P s as ↔ Meets step cond s as := by
  induction as generalizing s with
  | nil => exact iff_of_true (hP s hs) trivial
  | cons a as ih =>
    obtain ⟨t, ha, ht⟩ := run_cons_iff.mp hr
    have next : ∀ t', step s a = some t' → t' = t := by
      intro t' h
      rw [ha] at h
      exact (Option.some.inj h).symm
    constructor
    · rintro ⟨_, hall⟩
      by_cases hc : cond s a
      · refine ⟨hc, ?_⟩
        intro t' h'
        obtain rfl := next t' h'
        exact (ih (hkeep s a t' hs hm.1 hc ha) (hm.2 t' ha) ht).mp (hall t' ha)
      · exact absurd (always_head (hall t ha)) (hbreak s a t hs hm.1 hc ha)
    · rintro ⟨hc, hmeets⟩
      refine ⟨hP s hs, ?_⟩
      intro t' h'
      obtain rfl := next t' h'
      exact (ih (hkeep s a t' hs hm.1 hc ha) (hm.2 t' ha) ht).mpr (hmeets t' ha)

/-- The same for all runs. -/
theorem always_iff_meets {cond : σ → α → Prop} {I P : σ → Prop} (hP : ∀ s, I s → P s)
    (hkeep : ∀ s a t, I s → cond s a → step s a = some t → I t)
    (hbreak : ∀ s a t, I s → ¬cond s a → step s a = some t → ¬P t)
    {s u : σ} {as : List α} (hs : I s) (hr : run step s as = some u) :
    Always step P s as ↔ Meets step cond s as := by
  have hm : Meets step (fun _ _ ↦ True) s as := meets_of_forall fun _ _ _ ↦ trivial
  apply always_iff_meets_of_meets hP _ _ hs hm hr
  · exact fun s a t hs _ hc ha ↦ hkeep s a t hs hc ha
  · exact fun s a t hs _ hc ha ↦ hbreak s a t hs hc ha

/-- An initial part of a run meets what the run meets. -/
theorem meets_prefix {cond : σ → α → Prop} {s : σ} {as bs : List α} (hm : Meets step cond s as)
    (hbs : bs <+: as) : Meets step cond s bs := by
  induction bs generalizing s as with
  | nil => trivial
  | cons b bs ih =>
    obtain ⟨cs, rfl⟩ := hbs
    exact ⟨hm.1, fun t ht ↦ ih (hm.2 t ht) (List.prefix_append bs cs)⟩

/-- The states visited are those that the initial parts of the run lead to. -/
theorem always_iff_prefix {P : σ → Prop} {s : σ} {as : List α} :
    Always step P s as ↔ ∀ bs t, bs <+: as → run step s bs = some t → P t := by
  induction as generalizing s with
  | nil =>
    constructor
    · intro h bs t hbs hr
      obtain rfl := List.prefix_nil.mp hbs
      exact Option.some.inj hr ▸ h
    · intro h
      exact h [] s (List.prefix_refl _) rfl
  | cons a as ih =>
    constructor
    · rintro ⟨hs, hrest⟩ bs t hbs hr
      cases bs with
      | nil => exact Option.some.inj hr ▸ hs
      | cons b bs =>
        obtain ⟨rfl, hrest'⟩ := List.cons_prefix_cons.mp hbs
        obtain ⟨u, hu, hr⟩ := run_cons_iff.mp hr
        exact ih.mp (hrest u hu) bs t hrest' hr
    · intro h
      refine ⟨h [] s List.nil_prefix rfl, ?_⟩
      intro u hu
      apply ih.mpr
      intro bs t hbs hr
      exact h (a :: bs) t (List.cons_prefix_cons.mpr ⟨rfl, hbs⟩) (run_cons_iff.mpr ⟨u, hu, hr⟩)

/-- A property that no step can bring about holds throughout a run if it holds at its end. -/
theorem always_iff_last {P : σ → Prop} (hback : ∀ s a t, step s a = some t → P t → P s)
    {s u : σ} {as : List α} (hr : run step s as = some u) : Always step P s as ↔ P u := by
  induction as generalizing s with
  | nil =>
    obtain rfl := Option.some.inj hr
    exact Iff.rfl
  | cons a as ih =>
    obtain ⟨t, ha, ht⟩ := run_cons_iff.mp hr
    have next (t' : σ) (h : step s a = some t') : t' = t := Option.some.inj (h.symm.trans ha)
    constructor
    · rintro ⟨_, hall⟩
      exact (ih ht).mp (hall t ha)
    · intro hu
      have hrest := (ih ht).mpr hu
      refine ⟨hback s a t ha (always_head hrest), ?_⟩
      intro t' h'
      obtain rfl := next t' h'
      exact hrest

/-- A loop over `0, …, n - 1` whose rounds succeed and lead from `I j` to `I (j + 1)`. -/
theorem run_range {step : σ → Nat → Option σ} {I : Nat → σ → Prop} {n : Nat}
    (hround : ∀ j < n, ∀ s, I j s → ∃ t, step s j = some t ∧ I (j + 1) t) {s : σ} (hs : I 0 s) :
    ∃ t, run step s (List.range n) = some t ∧ I n t := by
  induction n with
  | zero => exact ⟨s, rfl, hs⟩
  | succ n ih =>
    obtain ⟨t, hrun, ht⟩ := ih fun j hj ↦ hround j (Nat.lt_succ_of_lt hj)
    obtain ⟨u, hlast, hu⟩ := hround n (Nat.lt_succ_self n) t ht
    refine ⟨u, ?_, hu⟩
    rw [List.range_succ]
    exact run_append hrun (run_cons_iff.mpr ⟨u, hlast, rfl⟩)

/-- The same loop downwards. -/
theorem run_range_reverse {step : σ → Nat → Option σ} {I : Nat → σ → Prop} {n : Nat}
    (hround : ∀ j < n, ∀ s, I (j + 1) s → ∃ t, step s j = some t ∧ I j t) {s : σ} (hs : I n s) :
    ∃ t, run step s (List.range n).reverse = some t ∧ I 0 t := by
  induction n generalizing s with
  | zero => exact ⟨s, rfl, hs⟩
  | succ n ih =>
    obtain ⟨t, hfirst, ht⟩ := hround n (Nat.lt_succ_self n) s hs
    obtain ⟨u, hrun, hu⟩ := ih (fun j hj ↦ hround j (Nat.lt_succ_of_lt hj)) ht
    refine ⟨u, ?_, hu⟩
    rw [List.range_succ, List.reverse_append, List.reverse_singleton, List.singleton_append]
    exact run_cons_iff.mpr ⟨t, hfirst, hrun⟩

/-! ### States that can be reached -/

variable (step) in
/-- A run whose steps all meet `cond` leads from `s` to `t`. -/
def Reaches (cond : σ → α → Prop) (s t : σ) : Prop :=
  ∃ as, Meets step cond s as ∧ run step s as = some t

/-- The run without steps. -/
theorem Reaches.refl {cond : σ → α → Prop} (s : σ) : Reaches step cond s s :=
  ⟨[], trivial, rfl⟩

/-- A run of one step. -/
theorem Reaches.single {cond : σ → α → Prop} {s t : σ} {a : α} (hc : cond s a)
    (h : step s a = some t) : Reaches step cond s t :=
  ⟨[a], meets_cons hc h trivial, run_cons_iff.mpr ⟨t, h, rfl⟩⟩

/-- What can be reached from what can be reached. -/
theorem Reaches.trans {cond : σ → α → Prop} {s t u : σ} (h : Reaches step cond s t)
    (h' : Reaches step cond t u) : Reaches step cond s u := by
  obtain ⟨as, hm, hr⟩ := h
  obtain ⟨bs, hm', hr'⟩ := h'
  refine ⟨as ++ bs, meets_append hm ?_, run_append hr hr'⟩
  intro t' ht'
  obtain rfl := Option.some.inj (hr.symm.trans ht')
  exact hm'

/-- What each step keeps, holds wherever the run leads. -/
theorem Reaches.invariant {cond : σ → α → Prop} {I : σ → Prop}
    (hstep : ∀ s a t, I s → cond s a → step s a = some t → I t) {s t : σ}
    (h : Reaches step cond s t) (hs : I s) : I t := by
  obtain ⟨as, hm, hr⟩ := h
  exact run_invariant hstep hs hm hr

/-- A rank that can always be brought down, short of the goal, leads to the goal. -/
theorem reaches_of_rank {cond : σ → α → Prop} {I goal : σ → Prop} (rank : σ → Nat)
    (hdown : ∀ s, I s → goal s ∨ ∃ t, Reaches step cond s t ∧ I t ∧ rank t < rank s)
    {s : σ} (hs : I s) : ∃ t, Reaches step cond s t ∧ I t ∧ goal t := by
  induction hn : rank s using Nat.strong_induction_on generalizing s with
  | _ n ih =>
    rcases hdown s hs with hgoal | ⟨t, hst, ht, hlt⟩
    · exact ⟨s, .refl s, hs, hgoal⟩
    · obtain ⟨u, htu, hu, hgoal⟩ := ih (rank t) (hn ▸ hlt) ht rfl
      exact ⟨u, hst.trans htu, hu, hgoal⟩

end StepRun
