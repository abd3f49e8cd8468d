import Mathlib.Algebra.Order.Pi
import Mathlib.Data.DFinsupp.WellFounded
import Mathlib.Data.Fintype.Basic
import QHGPU.Library.StepRun

/-!
# Work-items

Programs of the work-items of a launch on a shared memory. One load or one store is one step,
and the steps of all items interleave in any order. A barrier is passed when all items of the
group wait at it.
-/

namespace WorkItems

/-- What one work-item does. -/
inductive Prog (L V α : Type) where
  | ret (a : α)
  | get (l : L) (k : V → Prog L V α)
  | put (l : L) (v : V) (k : Prog L V α)
  | sync (k : Prog L V α)

variable {L V α β : Type}

namespace Prog

/-- Go on with `f` at the end of the program. -/
def bind : Prog L V α → (α → Prog L V β) → Prog L V β
  | ret a, f => f a
  | get l k, f => get l fun v ↦ (k v).bind f
  | put l v k, f => put l v (k.bind f)
  | sync k, f => sync (k.bind f)

instance : Monad (Prog L V) where
  pure := ret
  bind := bind

/-- The location the next step loads or stores. -/
def access : Prog L V α → Option L
  | get l _ | put l _ _ => some l
  | ret _ | sync _ => none

/-- The location the next step stores to. -/
def target : Prog L V α → Option L
  | put l _ _ => some l
  | ret _ | get _ _ | sync _ => none

/-- The item waits at a barrier. -/
def waiting : Prog L V α → Bool
  | sync _ => true
  | ret _ | get _ _ | put _ _ _ => false

/-- The item is at its end. -/
def ended : Prog L V α → Bool
  | ret _ => true
  | get _ _ | put _ _ _ | sync _ => false

/-- What follows the barrier at which the item waits. -/
def pass : Prog L V α → Prog L V α
  | sync k => k
  | p => p

/-- The program has no barrier. -/
def Free : Prog L V α → Prop
  | ret _ => True
  | get _ k => ∀ v, (k v).Free
  | put _ _ k => k.Free
  | sync _ => False

/-- The programs that may be left after one step, or after a barrier. -/
inductive Rest : Prog L V α → Prog L V α → Prop
  | get (l k v) : Rest (k v) (get l k)
  | put (l v k) : Rest k (put l v k)
  | sync (k) : Rest k (sync k)

private theorem wellFounded_rest : WellFounded (Rest (L := L) (V := V) (α := α)) := by
  constructor
  intro p
  induction p with
  | ret a => exact ⟨_, fun _ h ↦ by cases h⟩
  | get l k ih => exact ⟨_, fun _ h ↦ by cases h; exact ih _⟩
  | put l v k ih => exact ⟨_, fun _ h ↦ by cases h; exact ih⟩
  | sync k ih => exact ⟨_, fun _ h ↦ by cases h; exact ih⟩

/-- A program is above those that may be left of it. -/
instance : Preorder (Prog L V α) where
  le := Relation.ReflTransGen Rest
  le_refl _ := .refl
  le_trans _ _ _ := .trans

private theorem Rest.lt {p q : Prog L V α} (h : Rest p q) : p < q := by
  have hwf : WellFounded (Relation.TransGen (Rest (L := L) (V := V) (α := α))) :=
    wellFounded_rest.transGen
  refine ⟨.single h, ?_⟩
  intro hqp
  exact hwf.irrefl.irrefl p (Relation.TransGen.head' h hqp)

instance : WellFoundedLT (Prog L V α) where
  wf := by
    refine Subrelation.wf ?_ (wellFounded_rest (L := L) (V := V) (α := α)).transGen
    rintro p q ⟨hle, hnot⟩
    rcases Relation.reflTransGen_iff_eq_or_transGen.mp hle with rfl | h
    · exact absurd .refl hnot
    · exact h

end Prog

/-- Load one location. -/
def load (l : L) : Prog L V V := .get l .ret

/-- Store to one location. -/
def store (l : L) (v : V) : Prog L V Unit := .put l v (.ret ())

/-- Wait for the other items of the group. -/
def barrier : Prog L V Unit := .sync (.ret ())

/-! What follows the primitive steps. -/

/-- A program that is over is followed by the next at once. -/
@[simp] theorem pure_bind (a : α) (f : α → Prog L V β) : (pure a : Prog L V α) >>= f = f a := rfl

/-- A load, and what follows. -/
@[simp] theorem load_bind (l : L) (f : V → Prog L V β) : load l >>= f = .get l f := rfl

/-- A store, and what follows. -/
@[simp] theorem store_bind (l : L) (v : V) (f : Unit → Prog L V β) :
    store l v >>= f = .put l v (f ()) := rfl

/-- A barrier, and what follows. -/
@[simp] theorem barrier_bind (f : Unit → Prog L V β) :
    (barrier : Prog L V Unit) >>= f = .sync (f ()) := rfl

/-- One program after the other. -/
theorem Prog.Free.bind {p : Prog L V α} {f : α → Prog L V β} (hp : p.Free)
    (hf : ∀ a, (f a).Free) : (p >>= f).Free := by
  change (p.bind f).Free
  induction p with
  | ret a => exact hf a
  | get l k ih => exact fun v ↦ ih v (hp v)
  | put l v k ih => exact ih hp
  | sync k => cases hp

/-- A loop over a list. -/
theorem free_forM {ι : Type} {body : ι → Prog L V Unit} (hbody : ∀ x, (body x).Free)
    (xs : List ι) : (xs.forM body).Free := by
  induction xs with
  | nil => trivial
  | cons x xs ih => exact (hbody x).bind fun _ ↦ ih

/-! ### Interleavings -/

/-- The shared memory, and what is left of every item. -/
structure Config (I L V : Type) where
  mem : L → V
  prog : I → Prog L V Unit

/-- The next step: of one item, or of a group whose items all wait. -/
inductive Act (I G : Type) where
  | item (i : I)
  | release (g : G)

variable {I G : Type} [Fintype I] [DecidableEq I] [DecidableEq L] [DecidableEq G]

/-- One step. A group is released when all its items, and there are some, wait. -/
def step (group : I → G) (c : Config I L V) : Act I G → Option (Config I L V)
  | .item i =>
    match c.prog i with
    | .get l k => some { c with prog := Function.update c.prog i (k (c.mem l)) }
    | .put l v k =>
      some { mem := Function.update c.mem l v, prog := Function.update c.prog i k }
    | .ret _ | .sync _ => none
  | .release g =>
    if (∃ i, group i = g) ∧ ∀ i, group i = g → (c.prog i).waiting = true then
      some { c with prog := fun i ↦ if group i = g then (c.prog i).pass else c.prog i }
    else none

/-- Every item is at its end. -/
def Config.Complete (c : Config I L V) : Prop := ∀ i, c.prog i = .ret ()

/-- The launch can leave the memory `m'`: some order of the steps does. -/
def Launch (group : I → G) (prog : I → Prog L V Unit) (m m' : L → V) : Prop :=
  ∃ (acts : List (Act I G)) (c : Config I L V),
    StepRun.run (step group) ⟨m, prog⟩ acts = some c ∧ c.Complete ∧ c.mem = m'

/-- In every configuration that the launch can reach, the items are about to access `ok`
locations only. -/
def Stays (group : I → G) (prog : I → Prog L V Unit) (m : L → V) (ok : L → Prop) : Prop :=
  ∀ (acts : List (Act I G)) (c : Config I L V),
    StepRun.run (step group) ⟨m, prog⟩ acts = some c →
      ∀ i l, (c.prog i).access = some l → ok l

variable {group : I → G} {c c' : Config I L V} {a : Act I G}

/-- What a step is. -/
inductive Trans (group : I → G) (c : Config I L V) : Act I G → Config I L V → Prop
  | load {i l k} (h : c.prog i = .get l k) :
      Trans group c (.item i) { c with prog := Function.update c.prog i (k (c.mem l)) }
  | store {i l v k} (h : c.prog i = .put l v k) : Trans group c (.item i)
      { mem := Function.update c.mem l v, prog := Function.update c.prog i k }
  | release {g i} (hi : group i = g) (h : ∀ i, group i = g → (c.prog i).waiting = true) :
      Trans group c (.release g)
        { c with prog := fun i ↦ if group i = g then (c.prog i).pass else c.prog i }

/-- Every step is one of `Trans`. -/
theorem step_eq_some_iff : step group c a = some c' ↔ Trans group c a c' := by
  constructor
  · intro h
    cases a with
    | item i =>
      cases hp : c.prog i with
      | get l k =>
        simp only [step, hp] at h
        obtain rfl := Option.some.inj h
        exact .load hp
      | put l v k =>
        simp only [step, hp] at h
        obtain rfl := Option.some.inj h
        exact .store hp
      | _ => simp [step, hp] at h
    | release g =>
      rw [step, Option.ite_none_right_eq_some] at h
      obtain ⟨⟨⟨i, hi⟩, hwait⟩, h⟩ := h
      obtain rfl := Option.some.inj h
      exact .release hi hwait
  · intro h
    cases h with
    | load h => simp only [step, h]
    | store h => simp only [step, h]
    | release hi h => rw [step, if_pos ⟨⟨_, hi⟩, h⟩]

omit [Fintype I] in
/-- Every step leaves less to do. -/
theorem Trans.lt (h : Trans group c a c') : c'.prog < c.prog := by
  have one (i : I) {p : Prog L V Unit} (hp : Prog.Rest p (c.prog i)) :
      Function.update c.prog i p < c.prog := by
    refine Pi.lt_def.mpr ⟨?_, i, ?_⟩
    · intro j
      by_cases hj : j = i
      · subst hj
        rw [Function.update_self]
        exact .single hp
      · rw [Function.update_of_ne hj]
    · rw [Function.update_self]
      exact hp.lt
  cases h with
  | @load i l k h => exact one i (h ▸ .get l k _)
  | @store i l v k h => exact one i (h ▸ .put l v k)
  | @release g i hi h =>
    have passed (j : I) (hj : group j = g) : (c.prog j).pass < c.prog j := by
      have hwait := h j hj
      cases hp : c.prog j with
      | sync k => exact (Prog.Rest.sync k).lt
      | _ =>
        rw [hp] at hwait
        cases hwait
    refine Pi.lt_def.mpr ⟨?_, i, ?_⟩
    · intro j
      by_cases hj : group j = g
      · simp only [if_pos hj]
        exact (passed j hj).le
      · simp only [if_neg hj]
        exact le_refl _
    · simp only [if_pos hi]
      exact passed i hi

/-- When an invariant lets no configuration be stuck before the end, the steps can be taken to
the end from every configuration. -/
theorem exists_complete {Inv : Config I L V → Prop}
    (hkeep : ∀ c a c', Inv c → Trans group c a c' → Inv c')
    (hmove : ∀ c, Inv c → ¬c.Complete → ∃ a c', Trans group c a c') (hinv : Inv c) :
    ∃ (acts : List (Act I G)) (c' : Config I L V),
      StepRun.run (step group) c acts = some c' ∧ c'.Complete := by
  obtain ⟨m, f⟩ := c
  induction f using WellFoundedLT.induction generalizing m with
  | _ f ih =>
    by_cases hdone : (Config.mk m f).Complete
    · exact ⟨[], _, rfl, hdone⟩
    · obtain ⟨a, c', ht⟩ := hmove _ hinv hdone
      obtain ⟨acts, c'', hrun, hcomplete⟩ := ih _ ht.lt _ (hkeep _ _ _ hinv ht)
      exact ⟨a :: acts, c'', StepRun.run_cons_iff.mpr ⟨_, step_eq_some_iff.mpr ht, hrun⟩,
        hcomplete⟩

omit [Fintype I] in
/-- Programs without barriers stay so. -/
theorem Trans.free (h : Trans group c a c') (hfree : ∀ i, (c.prog i).Free) (i : I) :
    (c'.prog i).Free := by
  have hi := hfree i
  cases h with
  | @load j l k hp =>
    dsimp only
    by_cases hij : i = j
    · subst hij
      rw [hp] at hi
      rw [Function.update_self]
      exact hi _
    · rwa [Function.update_of_ne hij]
  | @store j l v k hp =>
    dsimp only
    by_cases hij : i = j
    · subst hij
      rw [hp] at hi
      rw [Function.update_self]
      exact hi
    · rwa [Function.update_of_ne hij]
  | @release g j hj hwait =>
    dsimp only
    split
    · cases hp : c.prog i with
      | sync k =>
        rw [hp] at hi
        cases hi
      | _ =>
        rw [hp] at hi
        exact hi
    · exact hi

omit [Fintype I] in
/-- Without barriers some item can move, until all are at their end. -/
theorem exists_trans_of_free (hfree : ∀ i, (c.prog i).Free) (hnot : ¬c.Complete) :
    ∃ (a : Act I G) (c' : Config I L V), Trans group c a c' := by
  rw [Config.Complete, not_forall] at hnot
  obtain ⟨i, hi⟩ := hnot
  have hfree := hfree i
  cases hp : c.prog i with
  | ret a => exact absurd hp hi
  | get l k => exact ⟨_, _, .load hp⟩
  | put l v k => exact ⟨_, _, .store hp⟩
  | sync k =>
    rw [hp] at hfree
    cases hfree

/-- Without barriers a launch always comes to an end. -/
theorem exists_launch (group : I → G) {prog : I → Prog L V Unit} (hfree : ∀ i, (prog i).Free)
    (m : L → V) : ∃ m', Launch group prog m m' := by
  obtain ⟨acts, c, hrun, hcomplete⟩ := exists_complete (c := ⟨m, prog⟩)
    (fun _ _ _ h (ht : Trans group _ _ _) ↦ ht.free h) (fun _ ↦ exists_trans_of_free) hfree
  exact ⟨c.mem, acts, c, hrun, hcomplete, rfl⟩

end WorkItems
