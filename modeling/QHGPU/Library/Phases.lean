import QHGPU.Library.WorkItems

/-!
# Launches in phases

A rule for launches that are free of races. Barriers cut the run of a group into phases, and in
every phase each location has at most one item that stores to it, which then nobody else may
access. An item can be looked at alone, and the launch ends with one memory only.
-/

namespace WorkItems

variable {I G L V α β : Type}

/-- Who stores where. In a phase a location has at most one owner, which is then the only one to
access it, and over all phases its owners are of one group, whose items are the only ones to access
it. A location without an owner keeps its value. The phases of the groups need not come at the same
time: `snap t` is what a group finds when it enters phase `t`. -/
structure Plan (I G L V : Type) where
  group : I → G
  owns : Nat → I → L → Prop
  snap : Nat → L → V
  last : Nat
  eq_of_owns : ∀ {t i j l}, owns t i l → owns t j l → i = j
  group_eq : ∀ {t t' i j l}, owns t i l → owns t' j l → group i = group j
  snap_succ : ∀ {t l}, (∀ i, ¬owns t i l) → snap (t + 1) l = snap t l

namespace Plan

variable {P : Plan I G L V} {ok : L → Prop} {i : I} {t : Nat} {m m' : L → V}

/-- The location is one of the group, or nobody ever stores to it. -/
def Of (P : Plan I G L V) (g : G) (l : L) : Prop := ∀ t j, P.owns t j l → P.group j = g

/-- The item may load from the location in this phase. -/
def Sees (P : Plan I G L V) (i : I) (t : Nat) (l : L) : Prop :=
  P.Of (P.group i) l ∧ ∀ j, P.owns t j l → j = i

/-- What the item owns in this phase has the values of the next one. -/
def Settled (P : Plan I G L V) (i : I) (t : Nat) (m : L → V) : Prop :=
  ∀ l, P.owns t i l → m l = P.snap (t + 1) l

/-- An item sees what it owns. -/
theorem sees_of_owns {l : L} (h : P.owns t i l) : P.Sees i t l :=
  ⟨fun _ _ hj ↦ P.group_eq hj h, fun _ hj ↦ P.eq_of_owns hj h⟩

/-- Everyone sees what nobody owns. -/
theorem sees_of_not_owns {l : L} (h : ∀ t j, ¬P.owns t j l) : P.Sees i t l :=
  ⟨fun t j hj ↦ absurd hj (h t j), fun j hj ↦ absurd hj (h t j)⟩

/-- What nobody ever owns does not change. -/
theorem snap_eq {l : L} (h : ∀ t i, ¬P.owns t i l) (t : Nat) : P.snap t l = P.snap 0 l := by
  induction t with
  | zero => rfl
  | succ t ih => exact (P.snap_succ (h t)).trans ih

/-- A plan in which the owners do not change. -/
def fixed (group : I → G) (owns : I → L → Prop) (snap : Nat → L → V) (last : Nat)
    (hunique : ∀ {i j l}, owns i l → owns j l → i = j)
    (hsnap : ∀ {t l}, (∀ i, ¬owns i l) → snap (t + 1) l = snap t l) : Plan I G L V where
  group := group
  owns _ := owns
  snap := snap
  last := last
  eq_of_owns := hunique
  group_eq hi hj := congrArg group (hunique hi hj)
  snap_succ := hsnap

variable [DecidableEq L]

/-- From phase `t` and memory `m` on, the item keeps to the plan, and at its end `post` holds. -/
def Keeps (P : Plan I G L V) (ok : L → Prop) (i : I) :
    (post : Nat → (L → V) → α → Prop) → Nat → (L → V) → Prog L V α → Prop
  | post, t, m, .ret a => post t m a
  | post, t, m, .get l k => ok l ∧ P.Sees i t l ∧ P.Keeps ok i post t m (k (m l))
  | post, t, m, .put l v k => ok l ∧ P.owns t i l ∧
      P.Keeps ok i post t (Function.update m l v) k
  | post, t, m, .sync k => t < P.last ∧ P.Settled i t m ∧
      P.Keeps ok i post (t + 1) (P.snap (t + 1)) k

/-- The item has come to its end in the last phase, and has stored what it should. -/
def Done (P : Plan I G L V) (i : I) (t : Nat) (m : L → V) (_ : Unit) : Prop :=
  t = P.last ∧ P.Settled i t m

/-! ### What follows from the primitive steps -/

variable {post post' : Nat → (L → V) → α → Prop}

/-- A program that is over. -/
@[simp] theorem keeps_pure {a : α} : P.Keeps ok i post t m (pure a) ↔ post t m a := Iff.rfl

/-- A load is of a place that the item sees. -/
@[simp] theorem keeps_get {l : L} {k : V → Prog L V α} : P.Keeps ok i post t m (.get l k) ↔
    ok l ∧ P.Sees i t l ∧ P.Keeps ok i post t m (k (m l)) := Iff.rfl

/-- A store is to a place that the item owns. -/
@[simp] theorem keeps_put {l : L} {v : V} {k : Prog L V α} : P.Keeps ok i post t m (.put l v k) ↔
    ok l ∧ P.owns t i l ∧ P.Keeps ok i post t (Function.update m l v) k := Iff.rfl

/-- At a barrier the item has settled its phase, and goes on with the next snapshot. -/
@[simp] theorem keeps_sync {k : Prog L V α} : P.Keeps ok i post t m (.sync k) ↔
    t < P.last ∧ P.Settled i t m ∧ P.Keeps ok i post (t + 1) (P.snap (t + 1)) k := Iff.rfl

/-- A single store. -/
@[simp] theorem keeps_store {post : Nat → (L → V) → Unit → Prop} {l : L} {v : V} :
    P.Keeps ok i post t m (store l v) ↔
      ok l ∧ P.owns t i l ∧ post t (Function.update m l v) () := Iff.rfl

/-- One program after the other. -/
theorem keeps_bind {post : Nat → (L → V) → β → Prop} {p : Prog L V α} {f : α → Prog L V β} :
    P.Keeps ok i post t m (p >>= f) ↔
      P.Keeps ok i (fun t m a ↦ P.Keeps ok i post t m (f a)) t m p := by
  change P.Keeps ok i post t m (p.bind f) ↔ _
  induction p generalizing t m with
  | ret a => rfl
  | get l k ih => simp only [Prog.bind, Keeps, ih]
  | put l v k ih => simp only [Prog.bind, Keeps, ih]
  | sync k ih => simp only [Prog.bind, Keeps, ih]

/-- A weaker postcondition. -/
theorem Keeps.mono {p : Prog L V α} (h : P.Keeps ok i post t m p)
    (hpost : ∀ t m a, post t m a → post' t m a) : P.Keeps ok i post' t m p := by
  induction p generalizing t m with
  | ret a => exact hpost t m a h
  | get l k ih => exact ⟨h.1, h.2.1, ih _ h.2.2⟩
  | put l v k ih => exact ⟨h.1, h.2.1, ih h.2.2⟩
  | sync k ih => exact ⟨h.1, h.2.1, ih h.2.2⟩

/-- A loop inside a phase, with an invariant for the turns taken. -/
theorem keeps_range (inv : Nat → (L → V) → Prop) {body : Nat → Prog L V Unit} {n : Nat}
    (hstart : inv 0 m) (hbody : ∀ k < n, ∀ m, inv k m →
      P.Keeps ok i (fun t' m _ ↦ t' = t ∧ inv (k + 1) m) t m (body k)) :
    P.Keeps ok i (fun t' m _ ↦ t' = t ∧ inv n m) t m ((List.range n).forM body) := by
  have loop (xs : List Nat) (k : Nat) (m : L → V) (hxs : List.range' k xs.length = xs)
      (hle : k + xs.length ≤ n) (hinv : inv k m) :
      P.Keeps ok i (fun t' m _ ↦ t' = t ∧ inv (k + xs.length) m) t m (xs.forM body) := by
    induction xs generalizing k m with
    | nil => exact ⟨rfl, hinv⟩
    | cons x xs ih =>
      rw [List.length_cons, List.range'_succ, List.cons.injEq] at hxs
      obtain ⟨rfl, hxs⟩ := hxs
      rw [List.length_cons] at hle ⊢
      change P.Keeps ok i _ t m (body k >>= fun _ ↦ xs.forM body)
      rw [keeps_bind]
      refine (hbody k (by omega) m hinv).mono ?_
      rintro _ m' _ ⟨rfl, hinv'⟩
      have := ih (k + 1) m' hxs (by omega) hinv'
      rwa [show k + (xs.length + 1) = k + 1 + xs.length by omega]
  have := loop (List.range n) 0 m (by rw [List.length_range, List.range_eq_range'])
    (by rw [List.length_range]; omega) hstart
  rwa [List.length_range, Nat.zero_add] at this

/-- A loop inside a phase that stores one value after the other to different locations. -/
theorem keeps_fill (dst : Nat → L) (val : Nat → V) {body : Nat → Prog L V Unit} {n : Nat}
    (hdst : ∀ j < n, ∀ k < n, dst j = dst k → j = k)
    (hbody : ∀ k < n, ∀ m', (∀ l, (∀ j < n, l ≠ dst j) → m' l = m l) →
      P.Keeps ok i (fun t' m'' _ ↦ t' = t ∧ m'' = Function.update m' (dst k) (val k)) t m' (body k)) :
    P.Keeps ok i (fun t' m' _ ↦ t' = t ∧ (∀ k < n, m' (dst k) = val k) ∧
      ∀ l, (∀ k < n, l ≠ dst k) → m' l = m l) t m ((List.range n).forM body) := by
  refine keeps_range (fun k m' ↦ (∀ j < k, m' (dst j) = val j) ∧
    ∀ l, (∀ j < n, l ≠ dst j) → m' l = m l)
    ⟨fun j hj ↦ absurd hj (Nat.not_lt_zero j), fun _ _ ↦ rfl⟩ ?_
  rintro k hk m' ⟨hval, hrest⟩
  refine (hbody k hk m' hrest).mono ?_
  rintro _ _ _ ⟨rfl, rfl⟩
  refine ⟨rfl, ?_, ?_⟩
  · intro j hj
    rcases Nat.lt_succ_iff_lt_or_eq.mp hj with hlt | rfl
    · have hne : dst j ≠ dst k := fun heq ↦ hlt.ne (hdst j (hlt.trans hk) k hk heq)
      rw [Function.update_of_ne hne]
      exact hval j hlt
    · rw [Function.update_self]
  · intro l hl
    rw [Function.update_of_ne (hl k hk)]
    exact hrest l hl

/-- Only what the item sees matters. -/
theorem Keeps.congr {p : Prog L V Unit} (h : P.Keeps ok i (P.Done i) t m p)
    (hm : ∀ l, P.Sees i t l → m' l = m l) : P.Keeps ok i (P.Done i) t m' p := by
  have settled {t : Nat} {m m' : L → V} (h : P.Settled i t m)
      (hm : ∀ l, P.Sees i t l → m' l = m l) : P.Settled i t m' :=
    fun l hl ↦ (hm l (sees_of_owns hl)).trans (h l hl)
  induction p generalizing t m m' with
  | ret a => exact ⟨h.1, settled h.2 hm⟩
  | get l k ih =>
    refine ⟨h.1, h.2.1, ?_⟩
    rw [hm l h.2.1]
    exact ih _ h.2.2 hm
  | put l v k ih =>
    refine ⟨h.1, h.2.1, ih h.2.2 ?_⟩
    intro l' hl'
    by_cases heq : l' = l
    · rw [heq, Function.update_self, Function.update_self]
    · rw [Function.update_of_ne heq, Function.update_of_ne heq]
      exact hm l' hl'
  | sync k ih => exact ⟨h.1, settled h.2.1 hm, h.2.2⟩

/-! ### Every order of the steps -/

/-- The phase of every group, and what that says about the memory. -/
structure Phased (P : Plan I G L V) (ok : L → Prop) (ph : G → Nat) (c : Config I L V) :
    Prop where
  item : ∀ i, P.Keeps ok i (P.Done i) (ph (P.group i)) c.mem (c.prog i)
  shared : ∀ l, (∀ t i, ¬P.owns t i l) → c.mem l = P.snap 0 l
  rest : ∀ l g, P.Of g l → (∀ i, ¬P.owns (ph g) i l) → c.mem l = P.snap (ph g) l

variable {c c' : Config I L V} {ph : G → Nat}

private theorem Phased.access (h : P.Phased ok ph c) {l : L} (hl : (c.prog i).access = some l) :
    ok l := by
  have hi := h.item i
  cases hp : c.prog i with
  | get l' k =>
    rw [hp] at hl hi
    obtain rfl := Option.some.inj hl
    exact hi.1
  | put l' v k =>
    rw [hp] at hl hi
    obtain rfl := Option.some.inj hl
    exact hi.1
  | _ =>
    rw [hp] at hl
    cases hl

private theorem Phased.target (h : P.Phased ok ph c) {l : L} (hl : (c.prog i).target = some l) :
    ∃ t, P.owns t i l := by
  have hi := h.item i
  cases hp : c.prog i with
  | put l' v k =>
    rw [hp] at hl hi
    obtain rfl := Option.some.inj hl
    exact ⟨_, hi.2.1⟩
  | _ =>
    rw [hp] at hl
    cases hl

/-- When all items of a group wait, its locations have the values of the next phase. -/
theorem Phased.mem_of_settled (h : P.Phased ok ph c) {g : G} {l : L} (hl : P.Of g l)
    (hsettled : ∀ i, P.group i = g → P.Settled i (ph g) c.mem) : c.mem l = P.snap (ph g + 1) l := by
  by_cases hown : ∃ i, P.owns (ph g) i l
  · obtain ⟨i, hi⟩ := hown
    exact hsettled i (hl _ i hi) l hi
  · rw [not_exists] at hown
    rw [h.rest l g hl hown, P.snap_succ hown]

/-- At the end the memory is that after the last phase. -/
theorem Phased.complete (h : P.Phased ok ph c) (hc : c.Complete) : c.mem = P.snap (P.last + 1) := by
  have hdone (i : I) : ph (P.group i) = P.last ∧ P.Settled i (ph (P.group i)) c.mem := by
    have hi := h.item i
    rw [hc i] at hi
    exact hi
  funext l
  by_cases hown : ∃ t i, P.owns t i l
  · obtain ⟨t, i, hi⟩ := hown
    have hof : P.Of (P.group i) l := fun _ _ hj ↦ P.group_eq hj hi
    rw [← (hdone i).1]
    refine h.mem_of_settled hof ?_
    intro j hj
    rw [← hj]
    exact (hdone j).2
  · simp only [not_exists] at hown
    rw [snap_eq hown (P.last + 1)]
    exact h.shared l hown

variable [DecidableEq I] [DecidableEq G]

private theorem Phased.trans {a : Act I G} (h : P.Phased ok ph c) (ht : Trans P.group c a c') :
    ∃ ph', P.Phased ok ph' c' := by
  cases ht with
  | @load i l k hp =>
    refine ⟨ph, ⟨?_, h.shared, h.rest⟩⟩
    intro j
    by_cases hj : j = i
    · subst hj
      have hi := h.item j
      rw [hp] at hi
      dsimp only
      rw [Function.update_self]
      exact hi.2.2
    · dsimp only
      rw [Function.update_of_ne hj]
      exact h.item j
  | @store i l v k hp =>
    have hi := h.item i
    rw [hp] at hi
    obtain ⟨_, howns, hk⟩ := hi
    refine ⟨ph, ⟨?_, ?_, ?_⟩⟩
    · intro j
      by_cases hj : j = i
      · subst hj
        dsimp only
        rw [Function.update_self]
        exact hk
      · dsimp only
        rw [Function.update_of_ne hj]
        refine (h.item j).congr ?_
        intro l' hl'
        apply Function.update_of_ne
        rintro rfl
        have hgroup := hl'.1 _ i howns
        rw [hgroup] at howns
        exact hj (hl'.2 i howns).symm
    · intro l' hl'
      dsimp only
      rw [Function.update_of_ne]
      · exact h.shared l' hl'
      · rintro rfl
        exact hl' _ i howns
    · intro l' g hl' hnone
      dsimp only
      rw [Function.update_of_ne]
      · exact h.rest l' g hl' hnone
      · rintro rfl
        rw [hl' _ i howns] at howns
        exact hnone i howns
  | @release g i₀ hg hwait =>
    -- every item of the group has settled, and enters the next phase
    have hpass (i : I) (hi : P.group i = g) : P.Settled i (ph g) c.mem ∧
        P.Keeps ok i (P.Done i) (ph g + 1) (P.snap (ph g + 1)) (c.prog i).pass := by
      have hkeeps := h.item i
      have hwait := hwait i hi
      rw [hi] at hkeeps
      cases hp : c.prog i with
      | sync k =>
        rw [hp] at hkeeps
        exact hkeeps.2
      | _ =>
        rw [hp] at hwait
        cases hwait
    have hmem {l : L} (hl : P.Of g l) : c.mem l = P.snap (ph g + 1) l :=
      h.mem_of_settled hl fun i hi ↦ (hpass i hi).1
    refine ⟨Function.update ph g (ph g + 1), ⟨?_, h.shared, ?_⟩⟩
    · intro i
      by_cases hi : P.group i = g
      · simp only [if_pos hi]
        rw [hi, Function.update_self]
        refine (hpass i hi).2.congr ?_
        intro l hl
        rw [Plan.Sees, hi] at hl
        exact hmem hl.1
      · simp only [if_neg hi]
        rw [Function.update_of_ne hi]
        exact h.item i
    · intro l g' hl hnone
      by_cases hg' : g' = g
      · subst hg'
        rw [Function.update_self]
        exact hmem hl
      · rw [Function.update_of_ne hg'] at hnone ⊢
        exact h.rest l g' hl hnone

/-- Before the end some item can move or some group can be released. -/
theorem Phased.exists_trans (h : P.Phased ok ph c) (hnot : ¬c.Complete) :
    ∃ (a : Act I G) (c' : Config I L V), Trans P.group c a c' := by
  by_contra hstuck
  have hsync (i : I) : c.prog i = .ret () ∧ ph (P.group i) = P.last ∨
      (c.prog i).waiting = true ∧ ph (P.group i) < P.last := by
    have hi := h.item i
    cases hp : c.prog i with
    | ret a =>
      rw [hp] at hi
      exact Or.inl ⟨rfl, hi.1⟩
    | get l k => exact absurd ⟨_, _, .load hp⟩ hstuck
    | put l v k => exact absurd ⟨_, _, .store hp⟩ hstuck
    | sync k =>
      rw [hp] at hi
      exact Or.inr ⟨rfl, hi.1⟩
  rw [Config.Complete, not_forall] at hnot
  obtain ⟨i, hi⟩ := hnot
  have hlast := ((hsync i).resolve_left fun hret ↦ hi hret.1).2
  have hwait (j : I) (hj : P.group j = P.group i) : (c.prog j).waiting = true := by
    refine ((hsync j).resolve_left fun hret ↦ ?_).1
    rw [hj] at hret
    omega
  exact hstuck ⟨_, _, .release rfl hwait⟩

variable [Fintype I] {prog : I → Prog L V Unit}

private theorem phased_of_run (hkeeps : ∀ i, P.Keeps ok i (P.Done i) 0 (P.snap 0) (prog i))
    {acts : List (Act I G)} (hrun : StepRun.run (step P.group) ⟨P.snap 0, prog⟩ acts = some c) :
    ∃ ph, P.Phased ok ph c := by
  have hstart : ∃ ph, P.Phased ok ph ⟨P.snap 0, prog⟩ :=
    ⟨fun _ ↦ 0, ⟨hkeeps, fun _ _ ↦ rfl, fun _ _ _ _ ↦ rfl⟩⟩
  exact StepRun.run_invariant_of_step (I := fun c ↦ ∃ ph, P.Phased ok ph c)
    (fun _ _ _ h hstep ↦ h.elim fun _ h ↦ h.trans (step_eq_some_iff.mp hstep)) hstart hrun

/-- The items keep to the locations they may access. -/
theorem stays (hkeeps : ∀ i, P.Keeps ok i (P.Done i) 0 (P.snap 0) (prog i)) :
    Stays P.group prog (P.snap 0) ok := by
  intro acts c hrun i l hl
  obtain ⟨ph, h⟩ := phased_of_run hkeeps hrun
  exact h.access hl

/-- An item stores to what it owns. -/
theorem owns_of_target (hkeeps : ∀ i, P.Keeps ok i (P.Done i) 0 (P.snap 0) (prog i))
    {acts : List (Act I G)} (hrun : StepRun.run (step P.group) ⟨P.snap 0, prog⟩ acts = some c)
    {l : L} (hl : (c.prog i).target = some l) : ∃ t, P.owns t i l := by
  obtain ⟨ph, h⟩ := phased_of_run hkeeps hrun
  exact h.target hl

/-- The launch ends, in every order of the steps with the same memory. -/
theorem launch_iff (hkeeps : ∀ i, P.Keeps ok i (P.Done i) 0 (P.snap 0) (prog i)) {m' : L → V} :
    Launch P.group prog (P.snap 0) m' ↔ m' = P.snap (P.last + 1) := by
  have hend {acts : List (Act I G)} {c : Config I L V}
      (hrun : StepRun.run (step P.group) ⟨P.snap 0, prog⟩ acts = some c) (hc : c.Complete) :
      c.mem = P.snap (P.last + 1) := by
    obtain ⟨ph, h⟩ := phased_of_run hkeeps hrun
    exact h.complete hc
  constructor
  · rintro ⟨acts, c, hrun, hc, rfl⟩
    exact hend hrun hc
  · rintro rfl
    have hstart : ∃ ph, P.Phased ok ph ⟨P.snap 0, prog⟩ :=
      ⟨fun _ ↦ 0, ⟨hkeeps, fun _ _ ↦ rfl, fun _ _ _ _ ↦ rfl⟩⟩
    have hkeep (c : Config I L V) (a : Act I G) (c' : Config I L V)
        (h : ∃ ph, P.Phased ok ph c) (ht : Trans P.group c a c') : ∃ ph, P.Phased ok ph c' :=
      h.elim fun _ h ↦ h.trans ht
    have hmove (c : Config I L V) (h : ∃ ph, P.Phased ok ph c) (hnot : ¬c.Complete) :
        ∃ (a : Act I G) (c' : Config I L V), Trans P.group c a c' :=
      h.elim fun _ h ↦ h.exists_trans hnot
    obtain ⟨acts, c, hrun, hc⟩ := exists_complete hkeep hmove hstart
    exact ⟨acts, c, hrun, hc, hend hrun hc⟩

end Plan

end WorkItems
