import Mathlib.Data.Set.Insert
import QHGPU.Library.WorkItems

/-!
# Locations that change at most once

A rule for launches whose items all store the same value to a location, so that it goes from
its old to its new value at most once. Items may then run into each other. A location that one
item alone accesses has its old value until that item stores to it.
-/

namespace WorkItems

variable {L V α β : Type}

/-- What an item does is right wherever the others are: it stores new values only, to `ok`
locations. A load gives the new value, unless only this item stores there and it has not yet; or
the old one, when the location was not seen to be new before. At the end `post` holds of the
locations seen to be new. -/
def Fine (ok : L → Prop) (mine : Set L) (old new : L → V) :
    (post : Set L → α → Prop) → (seen : Set L) → Prog L V α → Prop
  | post, seen, .ret a => post seen a
  | post, seen, .get l k => ok l ∧
      ((l ∈ mine → l ∈ seen) → Fine ok mine old new post (insert l seen) (k (new l))) ∧
      (l ∉ seen → Fine ok mine old new post seen (k (old l)))
  | post, seen, .put l v k => ok l ∧ v = new l ∧ Fine ok mine old new post (insert l seen) k
  | _, _, .sync _ => False

variable {ok : L → Prop} {mine : Set L} {old new : L → V} {seen : Set L}

/-- A program that is over. -/
@[simp] theorem fine_pure {post : Set L → α → Prop} {a : α} :
    Fine ok mine old new post seen (pure a) ↔ post seen a := Iff.rfl

/-- A load gives the old or the new value, and the new one from its own store on. -/
@[simp] theorem fine_get {post : Set L → α → Prop} {l : L} {k : V → Prog L V α} :
    Fine ok mine old new post seen (.get l k) ↔ ok l ∧
      ((l ∈ mine → l ∈ seen) → Fine ok mine old new post (insert l seen) (k (new l))) ∧
      (l ∉ seen → Fine ok mine old new post seen (k (old l))) := Iff.rfl

/-- A store is of the new value. -/
@[simp] theorem fine_put {post : Set L → α → Prop} {l : L} {v : V} {k : Prog L V α} :
    Fine ok mine old new post seen (.put l v k) ↔
      ok l ∧ v = new l ∧ Fine ok mine old new post (insert l seen) k := Iff.rfl

/-- A single store. -/
@[simp] theorem fine_store {post : Set L → Unit → Prop} {l : L} {v : V} :
    Fine ok mine old new post seen (store l v) ↔ ok l ∧ v = new l ∧ post (insert l seen) () :=
  Iff.rfl

/-- A load of a location that does not change. It may or may not count as seen. -/
theorem fine_get_unchanged {post : Set L → α → Prop} {l : L} {k : V → Prog L V α} (hl : ok l)
    (hsame : new l = old l)
    (h : ∀ seen', seen ⊆ seen' → seen' ⊆ insert l seen →
      Fine ok mine old new post seen' (k (old l))) :
    Fine ok mine old new post seen (.get l k) := by
  refine ⟨hl, fun _ ↦ ?_, fun _ ↦ h seen subset_rfl (Set.subset_insert l seen)⟩
  rw [hsame]
  exact h _ (Set.subset_insert l seen) subset_rfl

/-- A load from a place that does not change. -/
theorem fine_get_same {post : Set L → α → Prop} {l : L} {k : V → Prog L V α} (hl : ok l)
    (hsame : new l = old l)
    (h : ∀ seen', seen ⊆ seen' → Fine ok mine old new post seen' (k (old l))) :
    Fine ok mine old new post seen (.get l k) :=
  fine_get_unchanged hl hsame fun seen' hsub _ ↦ h seen' hsub

/-- A load of a location that the item has not stored to and no other item accesses. -/
theorem fine_get_mine {post : Set L → α → Prop} {l : L} {k : V → Prog L V α} (hl : ok l)
    (hmine : l ∈ mine) (hseen : l ∉ seen) (h : Fine ok mine old new post seen (k (old l))) :
    Fine ok mine old new post seen (.get l k) :=
  ⟨hl, fun hin ↦ absurd (hin hmine) hseen, fun _ ↦ h⟩

/-- What is right in two parts. -/
theorem fine_bind {post : Set L → β → Prop} {p : Prog L V α} {f : α → Prog L V β} :
    Fine ok mine old new post seen (p >>= f) ↔
      Fine ok mine old new (fun seen a ↦ Fine ok mine old new post seen (f a)) seen p := by
  change Fine ok mine old new post seen (p.bind f) ↔ _
  induction p generalizing seen with
  | ret a => rfl
  | get l k ih => simp only [Prog.bind, Fine, ih]
  | put l v k ih => simp only [Prog.bind, Fine, ih]
  | sync k => rfl

/-- A weaker postcondition. -/
theorem Fine.mono {post post' : Set L → α → Prop} {p : Prog L V α}
    (h : Fine ok mine old new post seen p) (hpost : ∀ seen a, post seen a → post' seen a) :
    Fine ok mine old new post' seen p := by
  induction p generalizing seen with
  | ret a => exact hpost seen a h
  | get l k ih =>
    obtain ⟨hl, hnew, hold⟩ := h
    exact ⟨hl, fun hin ↦ ih _ (hnew hin), fun hnot ↦ ih _ (hold hnot)⟩
  | put l v k ih =>
    obtain ⟨hl, hv, hk⟩ := h
    exact ⟨hl, hv, ih hk⟩
  | sync k => cases h

/-- A loop, with an invariant of what is left to do. -/
theorem fine_forM {ι : Type} {body : ι → Prog L V Unit} (inv : List ι → Set L → Prop)
    (hbody : ∀ x xs seen, inv (x :: xs) seen →
      Fine ok mine old new (fun seen _ ↦ inv xs seen) seen (body x)) (xs : List ι)
    (h : inv xs seen) : Fine ok mine old new (fun seen _ ↦ inv [] seen) seen (xs.forM body) := by
  induction xs generalizing seen with
  | nil => exact h
  | cons x xs ih =>
    change Fine ok mine old new _ seen (body x >>= fun _ ↦ xs.forM body)
    rw [fine_bind]
    exact (hbody x xs seen h).mono fun seen _ hinv ↦ ih hinv

section

variable {I G : Type} {group : I → G} {allowed mine : I → Set L} {goal : I → Set L}
  {c c' : Config I L V} {a : Act I G}

/-- Every location has its old or its new value, and every item is right after what it has
seen. -/
structure Shots (allowed mine : I → Set L) (old new : L → V) (goal : I → Set L)
    (c : Config I L V) : Prop where
  mem : ∀ l, c.mem l = old l ∨ c.mem l = new l
  item : ∀ i, ∃ seen, (∀ l ∈ seen, c.mem l = new l) ∧
    (∀ l ∈ mine i, l ∉ seen → c.mem l = old l) ∧
    Fine (· ∈ allowed i) (mine i) old new (fun seen _ ↦ goal i ⊆ seen) seen (c.prog i)

/-- Every location an item is about to access is one it may. -/
theorem Shots.access (h : Shots allowed mine old new goal c) {i : I} {l : L}
    (hl : (c.prog i).access = some l) : l ∈ allowed i := by
  obtain ⟨_, _, _, hfine⟩ := h.item i
  cases hp : c.prog i with
  | get l' k =>
    rw [hp] at hl hfine
    obtain rfl := Option.some.inj hl
    exact hfine.1
  | put l' v k =>
    rw [hp] at hl hfine
    obtain rfl := Option.some.inj hl
    exact hfine.1
  | _ =>
    rw [hp] at hl
    cases hl

/-- At the end the new values are there, where some item has them for its goal. -/
theorem Shots.complete (h : Shots allowed mine old new goal c) (hc : c.Complete)
    (hgoal : ∀ l, old l = new l ∨ ∃ i, l ∈ goal i) : c.mem = new := by
  funext l
  rcases hgoal l with heq | ⟨i, hi⟩
  · rcases h.mem l with hl | hl
    · exact hl.trans heq
    · exact hl
  · obtain ⟨seen, hseen, _, hfine⟩ := h.item i
    rw [hc i] at hfine
    exact hseen l (hfine hi)

variable [DecidableEq I] [DecidableEq L] [DecidableEq G]

private theorem Shots.trans (hmine : ∀ i j, ∀ l ∈ mine i, l ∈ allowed j → i = j)
    (h : Shots allowed mine old new goal c) (ht : Trans group c a c') :
    Shots allowed mine old new goal c' := by
  cases ht with
  | @load i l k hp =>
    refine ⟨h.mem, ?_⟩
    intro j
    by_cases hj : j = i
    · subst hj
      obtain ⟨seen, hseen, hown, hfine⟩ := h.item j
      simp only [Function.update_self]
      rw [hp] at hfine
      obtain ⟨_, hnew, hold⟩ := hfine
      by_cases hin : l ∈ seen
      · refine ⟨seen, hseen, hown, ?_⟩
        have := hnew fun _ ↦ hin
        rw [Set.insert_eq_of_mem hin] at this
        exact hseen l hin ▸ this
      by_cases hl : c.mem l = old l
      · exact ⟨seen, hseen, hown, hl ▸ hold hin⟩
      · have hmem := (h.mem l).resolve_left hl
        have hother : l ∉ mine j := fun hlj ↦ hl (hown l hlj hin)
        refine ⟨insert l seen, ?_, ?_, hmem ▸ hnew fun hlj ↦ absurd hlj hother⟩
        · rintro l' (rfl | hl')
          · exact hmem
          · exact hseen l' hl'
        · intro l' hl' hnot
          exact hown l' hl' fun hin' ↦ hnot (Set.mem_insert_of_mem l hin')
    · simp only [Function.update_of_ne hj]
      exact h.item j
  | @store i l v k hp =>
    have hstore : l ∈ allowed i ∧ v = new l := by
      obtain ⟨_, _, _, hfine⟩ := h.item i
      rw [hp] at hfine
      exact ⟨hfine.1, hfine.2.1⟩
    obtain ⟨hallowed, hv⟩ := hstore
    have hmem (l' : L) : Function.update c.mem l v l' = new l' ∨
        Function.update c.mem l v l' = c.mem l' := by
      by_cases hl : l' = l
      · subst hl
        rw [Function.update_self]
        exact Or.inl hv
      · exact Or.inr (Function.update_of_ne hl v c.mem)
    have keeps {l' : L} (hl : c.mem l' = new l') : Function.update c.mem l v l' = new l' := by
      rcases hmem l' with heq | heq
      · exact heq
      · exact heq.trans hl
    constructor
    · intro l'
      rcases hmem l' with heq | heq
      · exact Or.inr heq
      · dsimp only
        rw [heq]
        exact h.mem l'
    · intro j
      obtain ⟨seen, hseen, hown, hfine⟩ := h.item j
      by_cases hj : j = i
      · subst hj
        rw [hp] at hfine
        simp only [Function.update_self]
        refine ⟨insert l seen, ?_, ?_, hfine.2.2⟩
        · rintro l' (rfl | hl')
          · rw [Function.update_self]
            exact hv
          · exact keeps (hseen l' hl')
        · intro l' hl' hnot
          rw [Set.mem_insert_iff, not_or] at hnot
          rw [Function.update_of_ne hnot.1]
          exact hown l' hl' hnot.2
      · simp only [Function.update_of_ne hj]
        refine ⟨seen, fun l' hl' ↦ keeps (hseen l' hl'), ?_, hfine⟩
        intro l' hl' hnot
        have hne : l' ≠ l := by
          rintro rfl
          exact hj (hmine j i l' hl' hallowed)
        rw [Function.update_of_ne hne]
        exact hown l' hl' hnot
  | @release g i hi hwait =>
    obtain ⟨_, _, _, hfine⟩ := h.item i
    have hi := hwait i hi
    cases hp : c.prog i with
    | sync k =>
      rw [hp] at hfine
      cases hfine
    | _ =>
      rw [hp] at hi
      cases hi

variable [Fintype I]

/-- What the launch can reach, it reaches with every location old or new. -/
theorem shots_of_run {prog : I → Prog L V Unit}
    (hmine : ∀ i j, ∀ l ∈ mine i, l ∈ allowed j → i = j)
    (hfine : ∀ i, Fine (· ∈ allowed i) (mine i) old new (fun seen _ ↦ goal i ⊆ seen) ∅ (prog i))
    {acts : List (Act I G)} (hrun : StepRun.run (step group) ⟨old, prog⟩ acts = some c) :
    Shots allowed mine old new goal c := by
  have hstart : Shots allowed mine old new goal ⟨old, prog⟩ :=
    ⟨fun _ ↦ Or.inl rfl, fun i ↦ ⟨∅, by simp, fun _ _ _ ↦ rfl, hfine i⟩⟩
  exact StepRun.run_invariant_of_step
    (fun _ _ _ hs hstep ↦ Shots.trans hmine hs (step_eq_some_iff.mp hstep)) hstart hrun

/-- The items keep to the locations they may access. -/
theorem stays_oneShot {prog : I → Prog L V Unit} {ok : L → Prop}
    (hok : ∀ i, ∀ l ∈ allowed i, ok l) (hmine : ∀ i j, ∀ l ∈ mine i, l ∈ allowed j → i = j)
    (hfine : ∀ i, Fine (· ∈ allowed i) (mine i) old new (fun seen _ ↦ goal i ⊆ seen) ∅ (prog i)) :
    Stays group prog old ok :=
  fun _ _ hrun i l hl ↦ hok i l ((shots_of_run hmine hfine hrun).access hl)

/-- The launch leaves the new values, in every order of the steps. -/
theorem launch_oneShot {prog : I → Prog L V Unit}
    (hmine : ∀ i j, ∀ l ∈ mine i, l ∈ allowed j → i = j)
    (hfine : ∀ i, Fine (· ∈ allowed i) (mine i) old new (fun seen _ ↦ goal i ⊆ seen) ∅ (prog i))
    (hgoal : ∀ l, old l = new l ∨ ∃ i, l ∈ goal i) {m' : L → V}
    (h : Launch group prog old m') : m' = new := by
  obtain ⟨acts, c, hrun, hcomplete, rfl⟩ := h
  exact (shots_of_run hmine hfine hrun).complete hcomplete hgoal

end

end WorkItems
