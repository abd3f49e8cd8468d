import Mathlib.Data.List.Nodup
import Mathlib.Logic.Function.Basic

/-!
# Handing items over

An item is issued to a producer, enqueued, taken from the queue by a consumer, put among the
delivered items or dropped, removed from the delivered ones by a completer, which calls back
and then finishes. Any number of threads take part. Each of these actions moves one item from
one place to the next, so every issued item is in exactly one place, which is all that the
results below rest on.
-/

namespace HandOff

universe u v

variable {ι : Type u} {τ : Type v}

/-- Where an issued item is. -/
inductive Place (τ : Type v) where
  | pending (t : τ)
  | queued
  | inHand (t : τ)
  | dropped
  | delivered
  | removed (t : τ)
  | calling (t : τ)
  | finished

/-- The item has been in the queue. -/
@[grind] def Place.isEnqueued : Place τ → Bool
  | .pending _ => false
  | _ => true

/-- The item has been removed from the delivered ones. -/
@[grind] def Place.isCompleted : Place τ → Bool
  | .removed _ | .calling _ | .finished => true
  | _ => false

/-- The item's callback has been called. -/
@[grind] def Place.isCalled : Place τ → Bool
  | .calling _ | .finished => true
  | _ => false

/-- The items each thread is busy with, the two lists, and the history. -/
structure State (ι : Type u) (τ : Type v) where
  issued : ι → Prop
  pending : τ → Option ι
  queue : List ι
  inHand : τ → Option ι
  delivered : List ι
  removed : τ → Option ι
  calling : τ → Option ι
  enqueued : List ι
  taken : List ι
  dropped : List ι
  completed : List ι
  called : List ι
  finished : List ι

/-- Before anything was issued. -/
def State.start : State ι τ where
  issued _ := False
  pending _ := none
  queue := []
  inHand _ := none
  delivered := []
  removed _ := none
  calling _ := none
  enqueued := []
  taken := []
  dropped := []
  completed := []
  called := []
  finished := []

/-- The actions. -/
inductive Step [DecidableEq ι] [DecidableEq τ] : State ι τ → State ι τ → Prop
  | issue {s : State ι τ} {t : τ} {i : ι} (hi : ¬s.issued i) (ht : s.pending t = none) :
      Step s { s with
        issued := fun j ↦ j = i ∨ s.issued j
        pending := Function.update s.pending t (some i) }
  | enqueue {s : State ι τ} {t : τ} {i : ι} (ht : s.pending t = some i) :
      Step s { s with
        pending := Function.update s.pending t none
        queue := s.queue ++ [i]
        enqueued := s.enqueued ++ [i] }
  | take {s : State ι τ} {t : τ} {i : ι} {rest : List ι} (hi : s.queue = i :: rest)
      (ht : s.inHand t = none) :
      Step s { s with
        queue := rest
        inHand := Function.update s.inHand t (some i)
        taken := s.taken ++ [i] }
  | put {s : State ι τ} {t : τ} {i : ι} (ht : s.inHand t = some i) :
      Step s { s with
        inHand := Function.update s.inHand t none
        delivered := s.delivered ++ [i] }
  | drop {s : State ι τ} {t : τ} {i : ι} (ht : s.inHand t = some i) :
      Step s { s with
        inHand := Function.update s.inHand t none
        dropped := s.dropped ++ [i] }
  | remove {s : State ι τ} {t : τ} {i : ι} (hi : i ∈ s.delivered) (ht : s.removed t = none) :
      Step s { s with
        delivered := s.delivered.erase i
        removed := Function.update s.removed t (some i)
        completed := s.completed ++ [i] }
  | call {s : State ι τ} {t : τ} {i : ι} (hi : s.removed t = some i)
      (ht : s.calling t = none) :
      Step s { s with
        removed := Function.update s.removed t none
        calling := Function.update s.calling t (some i)
        called := s.called ++ [i] }
  | finish {s : State ι τ} {t : τ} {i : ι} (ht : s.calling t = some i) :
      Step s { s with
        calling := Function.update s.calling t none
        finished := s.finished ++ [i] }

/-- The state agrees with an assignment of places to items. -/
structure Placed (s : State ι τ) (place : ι → Option (Place τ)) : Prop where
  issued : ∀ i, s.issued i ↔ place i ≠ none
  pending : ∀ t i, s.pending t = some i ↔ place i = some (.pending t)
  queue : ∀ i, i ∈ s.queue ↔ place i = some .queued
  inHand : ∀ t i, s.inHand t = some i ↔ place i = some (.inHand t)
  dropped : ∀ i, i ∈ s.dropped ↔ place i = some .dropped
  delivered : ∀ i, i ∈ s.delivered ↔ place i = some .delivered
  removed : ∀ t i, s.removed t = some i ↔ place i = some (.removed t)
  calling : ∀ t i, s.calling t = some i ↔ place i = some (.calling t)
  finished : ∀ i, i ∈ s.finished ↔ place i = some .finished
  enqueued : ∀ i, i ∈ s.enqueued ↔ (place i).any Place.isEnqueued = true
  completed : ∀ i, i ∈ s.completed ↔ (place i).any Place.isCompleted = true
  called : ∀ i, i ∈ s.called ↔ (place i).any Place.isCalled = true

/-- What was enqueued is what was taken followed by what waits, and no list repeats an item. -/
structure Ordered (s : State ι τ) : Prop where
  fifo : s.enqueued = s.taken ++ s.queue
  enqueued : s.enqueued.Nodup
  delivered : s.delivered.Nodup
  completed : s.completed.Nodup
  called : s.called.Nodup
  finished : s.finished.Nodup

/-- Every issued item is in one place, and the lists are in order. -/
structure Conserved (s : State ι τ) : Prop where
  placed : ∃ place, Placed s place
  ordered : Ordered s

/-- At the start there is nothing to conserve. -/
theorem conserved_start : Conserved (State.start : State ι τ) where
  placed := ⟨fun _ ↦ none, by constructor <;> simp [State.start]⟩
  ordered := by constructor <;> simp [State.start]

private theorem nodup_append_singleton {l : List ι} {i : ι} (hl : l.Nodup) (hi : i ∉ l) :
    (l ++ [i]).Nodup := by
  rw [← List.concat_eq_append]
  exact hl.concat hi

/-! ### One item moves -/

/-- What `Placed` says of one item. -/
structure PlacedAt (s : State ι τ) (i : ι) (o : Option (Place τ)) : Prop where
  issued : s.issued i ↔ o ≠ none
  pending : ∀ t, s.pending t = some i ↔ o = some (.pending t)
  queue : i ∈ s.queue ↔ o = some .queued
  inHand : ∀ t, s.inHand t = some i ↔ o = some (.inHand t)
  dropped : i ∈ s.dropped ↔ o = some .dropped
  delivered : i ∈ s.delivered ↔ o = some .delivered
  removed : ∀ t, s.removed t = some i ↔ o = some (.removed t)
  calling : ∀ t, s.calling t = some i ↔ o = some (.calling t)
  finished : i ∈ s.finished ↔ o = some .finished
  enqueued : i ∈ s.enqueued ↔ o.any Place.isEnqueued = true
  completed : i ∈ s.completed ↔ o.any Place.isCompleted = true
  called : i ∈ s.called ↔ o.any Place.isCalled = true

private theorem placed_iff {s : State ι τ} {place : ι → Option (Place τ)} :
    Placed s place ↔ ∀ i, PlacedAt s i (place i) := by
  constructor
  · intro h i
    exact ⟨h.issued i, fun t ↦ h.pending t i, h.queue i, fun t ↦ h.inHand t i, h.dropped i,
      h.delivered i, fun t ↦ h.removed t i, fun t ↦ h.calling t i, h.finished i, h.enqueued i,
      h.completed i, h.called i⟩
  · intro h
    exact ⟨fun i ↦ (h i).issued, fun t i ↦ (h i).pending t, fun i ↦ (h i).queue,
      fun t i ↦ (h i).inHand t, fun i ↦ (h i).dropped, fun i ↦ (h i).delivered,
      fun t i ↦ (h i).removed t, fun t i ↦ (h i).calling t, fun i ↦ (h i).finished,
      fun i ↦ (h i).enqueued, fun i ↦ (h i).completed, fun i ↦ (h i).called⟩

section

variable {s s' : State ι τ} {place : ι → Option (Place τ)} {f : τ → Option ι} {t : τ} {i j : ι}

/-- The others stay where they are. -/
theorem Placed.move [DecidableEq ι] {o : Option (Place τ)} (hp : Placed s place)
    (hself : PlacedAt s i (place i) → PlacedAt s' i o)
    (hother : ∀ j ≠ i, ∀ o, PlacedAt s j o → PlacedAt s' j o) :
    Placed s' (Function.update place i o) := by
  rw [placed_iff] at hp ⊢
  intro j
  by_cases hj : j = i
  · subst hj
    rw [Function.update_self]
    exact hself (hp j)
  · rw [Function.update_of_ne hj]
    exact hother j hj _ (hp j)

variable [DecidableEq τ]

/-- A thread with empty hands takes `i` up. -/
theorem fill_other_iff (hf : f t = none) (hj : j ≠ i) (t' : τ) :
    Function.update f t (some i) t' = some j ↔ f t' = some j := by
  by_cases ht : t' = t
  · subst ht
    simp [hf, hj.symm]
  · rw [Function.update_of_ne ht]

private theorem fill_self_iff (hf : ∀ t, f t ≠ some i) (t t' : τ) :
    Function.update f t (some i) t' = some i ↔ t = t' := by
  by_cases ht : t' = t
  · simp [ht]
  · simp [Function.update_of_ne ht, hf t', Ne.symm ht]

/-- The thread that holds `i` puts it down. -/
theorem clear_other_iff (hf : f t = some i) (hj : j ≠ i) (t' : τ) :
    Function.update f t none t' = some j ↔ f t' = some j := by
  by_cases ht : t' = t
  · subst ht
    simp [hf, hj.symm]
  · rw [Function.update_of_ne ht]

private theorem clear_self_ne (hf : ∀ t', f t' = some i → t = t') (t' : τ) :
    Function.update f t none t' ≠ some i := by
  by_cases ht : t' = t
  · simp [ht]
  · rw [Function.update_of_ne ht]
    exact fun h ↦ ht (hf t' h).symm

/-- Each action moves one item to its next place, and puts it only on lists it was not on. -/
theorem Step.conserved [DecidableEq ι] (h : Step s s') (hs : Conserved s) : Conserved s' := by
  obtain ⟨⟨place, hp⟩, ho⟩ := hs
  cases h with
  | @issue t i hi ht =>
    have hplace : place i = none := not_not.mp fun hne ↦ hi ((hp.issued i).mpr hne)
    refine ⟨⟨Function.update place i (some (.pending t)), hp.move ?_ ?_⟩, ?_⟩
    · intro h
      rw [hplace] at h
      cases h
      constructor <;>
        simp [*, fill_self_iff, Place.isEnqueued, Place.isCompleted, Place.isCalled]
    · intro j hj o h
      exact { h with
        issued := by simpa [hj] using h.issued
        pending := fun t' ↦ by rw [fill_other_iff ht hj, h.pending] }
    · exact ⟨ho.fifo, ho.enqueued, ho.delivered, ho.completed, ho.called, ho.finished⟩
  | @enqueue t i ht =>
    have hplace := (hp.pending t i).mp ht
    have hnew : i ∉ s.enqueued := by simp [hp.enqueued, hplace, Place.isEnqueued]
    refine ⟨⟨Function.update place i (some .queued), hp.move ?_ ?_⟩, ?_⟩
    · intro h
      rw [hplace] at h
      cases h
      constructor <;>
        simp [*, clear_self_ne, Place.isEnqueued, Place.isCompleted, Place.isCalled]
    · intro j hj o h
      exact { h with
        pending := fun t' ↦ by rw [clear_other_iff ht hj, h.pending]
        queue := by simpa [hj] using h.queue
        enqueued := by simpa [hj] using h.enqueued }
    · refine ⟨?_, nodup_append_singleton ho.enqueued hnew, ho.delivered, ho.completed,
        ho.called, ho.finished⟩
      show s.enqueued ++ [i] = s.taken ++ (s.queue ++ [i])
      rw [ho.fifo, List.append_assoc]
  | @take t i rest hq ht =>
    have hplace := (hp.queue i).mp (by rw [hq]; exact List.mem_cons_self)
    have hfifo : s.enqueued = (s.taken ++ [i]) ++ rest := by
      rw [ho.fifo, hq, List.append_assoc, List.singleton_append]
    have hrest : i ∉ rest := by
      have := ho.enqueued
      rw [ho.fifo, hq] at this
      exact (List.nodup_cons.mp (List.nodup_append.mp this).2.1).1
    refine ⟨⟨Function.update place i (some (.inHand t)), hp.move ?_ ?_⟩, ?_⟩
    · intro h
      rw [hplace] at h
      cases h
      constructor <;>
        simp [*, fill_self_iff, Place.isEnqueued, Place.isCompleted, Place.isCalled]
    · intro j hj o h
      exact { h with
        queue := by simpa [hq, hj] using h.queue
        inHand := fun t' ↦ by rw [fill_other_iff ht hj, h.inHand] }
    · exact ⟨hfifo, ho.enqueued, ho.delivered, ho.completed, ho.called, ho.finished⟩
  | @put t i ht =>
    have hplace := (hp.inHand t i).mp ht
    have hnew : i ∉ s.delivered := by simp [hp.delivered, hplace]
    refine ⟨⟨Function.update place i (some .delivered), hp.move ?_ ?_⟩, ?_⟩
    · intro h
      rw [hplace] at h
      cases h
      constructor <;>
        simp [*, clear_self_ne, Place.isEnqueued, Place.isCompleted, Place.isCalled]
    · intro j hj o h
      exact { h with
        inHand := fun t' ↦ by rw [clear_other_iff ht hj, h.inHand]
        delivered := by simpa [hj] using h.delivered }
    · exact ⟨ho.fifo, ho.enqueued, nodup_append_singleton ho.delivered hnew, ho.completed,
        ho.called, ho.finished⟩
  | @drop t i ht =>
    have hplace := (hp.inHand t i).mp ht
    refine ⟨⟨Function.update place i (some .dropped), hp.move ?_ ?_⟩, ?_⟩
    · intro h
      rw [hplace] at h
      cases h
      constructor <;>
        simp [*, clear_self_ne, Place.isEnqueued, Place.isCompleted, Place.isCalled]
    · intro j hj o h
      exact { h with
        inHand := fun t' ↦ by rw [clear_other_iff ht hj, h.inHand]
        dropped := by simpa [hj] using h.dropped }
    · exact ⟨ho.fifo, ho.enqueued, ho.delivered, ho.completed, ho.called, ho.finished⟩
  | @remove t i hmem ht =>
    have hplace := (hp.delivered i).mp hmem
    have hnew : i ∉ s.completed := by simp [hp.completed, hplace, Place.isCompleted]
    have herase (j : ι) : j ∈ s.delivered.erase i ↔ j ≠ i ∧ j ∈ s.delivered :=
      ho.delivered.mem_erase_iff
    refine ⟨⟨Function.update place i (some (.removed t)), hp.move ?_ ?_⟩, ?_⟩
    · intro h
      rw [hplace] at h
      cases h
      constructor <;>
        simp [*, fill_self_iff, Place.isEnqueued, Place.isCompleted, Place.isCalled]
    · intro j hj o h
      exact { h with
        delivered := by simpa [herase, hj] using h.delivered
        removed := fun t' ↦ by rw [fill_other_iff ht hj, h.removed]
        completed := by simpa [hj] using h.completed }
    · exact ⟨ho.fifo, ho.enqueued, ho.delivered.erase i,
        nodup_append_singleton ho.completed hnew, ho.called, ho.finished⟩
  | @call t i hi ht =>
    have hplace := (hp.removed t i).mp hi
    have hnew : i ∉ s.called := by simp [hp.called, hplace, Place.isCalled]
    refine ⟨⟨Function.update place i (some (.calling t)), hp.move ?_ ?_⟩, ?_⟩
    · intro h
      rw [hplace] at h
      cases h
      constructor <;>
        simp [*, clear_self_ne, fill_self_iff, Place.isEnqueued, Place.isCompleted, Place.isCalled]
    · intro j hj o h
      exact { h with
        removed := fun t' ↦ by rw [clear_other_iff hi hj, h.removed]
        calling := fun t' ↦ by rw [fill_other_iff ht hj, h.calling]
        called := by simpa [hj] using h.called }
    · exact ⟨ho.fifo, ho.enqueued, ho.delivered, ho.completed,
        nodup_append_singleton ho.called hnew, ho.finished⟩
  | @finish t i ht =>
    have hplace := (hp.calling t i).mp ht
    have hnew : i ∉ s.finished := by simp [hp.finished, hplace]
    refine ⟨⟨Function.update place i (some .finished), hp.move ?_ ?_⟩, ?_⟩
    · intro h
      rw [hplace] at h
      cases h
      constructor <;>
        simp [*, clear_self_ne, Place.isEnqueued, Place.isCompleted, Place.isCalled]
    · intro j hj o h
      exact { h with
        calling := fun t' ↦ by rw [clear_other_iff ht hj, h.calling]
        finished := by simpa [hj] using h.finished }
    · exact ⟨ho.fifo, ho.enqueued, ho.delivered, ho.completed, ho.called,
        nodup_append_singleton ho.finished hnew⟩

end

/-! ### What conservation gives -/

/-- The sites of an enqueued item. -/
inductive Site (τ : Type v) where
  | queue
  | inHand (t : τ)
  | dropped
  | delivered
  | completed

/-- The item is at the site. -/
def State.At (s : State ι τ) (i : ι) : Site τ → Prop
  | .queue => i ∈ s.queue
  | .inHand t => s.inHand t = some i
  | .dropped => i ∈ s.dropped
  | .delivered => i ∈ s.delivered
  | .completed => i ∈ s.completed

/-- The site of a place; an item not yet enqueued has none. -/
def Place.site : Place τ → Option (Site τ)
  | .pending _ => none
  | .queued => some .queue
  | .inHand t => some (.inHand t)
  | .dropped => some .dropped
  | .delivered => some .delivered
  | .removed _ | .calling _ | .finished => some .completed

variable {s : State ι τ} {place : ι → Option (Place τ)}

private theorem Placed.at_iff (h : Placed s place) (i : ι) (site : Site τ) :
    s.At i site ↔ (place i).bind Place.site = some site := by
  cases site with
  | queue =>
    refine (h.queue i).trans ?_
    rcases place i with _ | (_ | _ | _ | _ | _ | _ | _ | _) <;> simp [Place.site]
  | inHand t =>
    refine (h.inHand t i).trans ?_
    rcases place i with _ | (_ | _ | _ | _ | _ | _ | _ | _) <;> simp [Place.site]
  | dropped =>
    refine (h.dropped i).trans ?_
    rcases place i with _ | (_ | _ | _ | _ | _ | _ | _ | _) <;> simp [Place.site]
  | delivered =>
    refine (h.delivered i).trans ?_
    rcases place i with _ | (_ | _ | _ | _ | _ | _ | _ | _) <;> simp [Place.site]
  | completed =>
    refine (h.completed i).trans ?_
    rcases place i with _ | (_ | _ | _ | _ | _ | _ | _ | _) <;>
      simp [Place.site, Place.isCompleted]

/-- An enqueued item is at exactly one site. -/
theorem Conserved.existsUnique_site (h : Conserved s) {i : ι} (hi : i ∈ s.enqueued) :
    ∃! site, s.At i site := by
  obtain ⟨place, hp⟩ := h.placed
  have hsite : ∃ site, (place i).bind Place.site = some site := by
    rw [hp.enqueued] at hi
    rcases hpl : place i with _ | (t | _ | t | _ | _ | t | t | _) <;>
      simp [hpl, Place.isEnqueued, Place.site] at hi ⊢
  obtain ⟨site, hsite⟩ := hsite
  refine ⟨site, (hp.at_iff i site).mpr hsite, ?_⟩
  intro site' hsite'
  exact Option.some.inj (((hp.at_iff i site').mp hsite').symm.trans hsite)

/-- What was enqueued was issued. -/
theorem Conserved.issued_of_enqueued (h : Conserved s) {i : ι} (hi : i ∈ s.enqueued) :
    s.issued i := by
  obtain ⟨place, hp⟩ := h.placed
  rw [hp.enqueued] at hi
  rw [hp.issued]
  intro hnone
  rw [hnone] at hi
  cases hi

/-- What was completed was enqueued. -/
theorem Conserved.enqueued_of_completed (h : Conserved s) {i : ι} (hi : i ∈ s.completed) :
    i ∈ s.enqueued := by
  obtain ⟨place, hp⟩ := h.placed
  rw [hp.completed] at hi
  rw [hp.enqueued]
  rcases hpl : place i with _ | (t | _ | t | _ | _ | t | t | _) <;>
    simp [hpl, Place.isEnqueued, Place.isCompleted] at hi ⊢

/-- A pending item was issued and is not enqueued. -/
theorem Conserved.pending (h : Conserved s) {t : τ} {i : ι} (hi : s.pending t = some i) :
    s.issued i ∧ i ∉ s.enqueued := by
  obtain ⟨place, hp⟩ := h.placed
  rw [hp.pending] at hi
  rw [hp.issued, hp.enqueued, hi]
  exact ⟨Option.some_ne_none _, Bool.false_ne_true⟩

/-- A delivered item is not called back yet, and nobody's pending item. -/
theorem Conserved.delivered (h : Conserved s) {i : ι} (hi : i ∈ s.delivered) :
    i ∉ s.called ∧ ∀ t, s.pending t ≠ some i := by
  obtain ⟨place, hp⟩ := h.placed
  rw [hp.delivered] at hi
  refine ⟨?_, fun t ht ↦ ?_⟩
  · rw [hp.called, hi]
    exact Bool.false_ne_true
  · rw [hp.pending, hi] at ht
    cases ht

/-- A delivered item was enqueued and is not completed. -/
theorem Conserved.waiting_of_delivered (h : Conserved s) {i : ι} (hi : i ∈ s.delivered) :
    i ∈ s.enqueued ∧ i ∉ s.completed := by
  obtain ⟨place, hp⟩ := h.placed
  rw [hp.delivered] at hi
  rw [hp.enqueued, hp.completed, hi]
  exact ⟨rfl, Bool.false_ne_true⟩

/-- An item that was removed and not called back is still open. -/
theorem Conserved.removed (h : Conserved s) {t : τ} {i : ι} (hi : s.removed t = some i) :
    s.issued i ∧ i ∉ s.called ∧ i ∉ s.dropped := by
  obtain ⟨place, hp⟩ := h.placed
  rw [hp.removed] at hi
  rw [hp.issued, hp.called, hp.dropped, hi]
  exact ⟨Option.some_ne_none _, Bool.false_ne_true, nofun⟩

/-- An item that was removed is completed. -/
theorem Conserved.completed_of_removed (h : Conserved s) {t : τ} {i : ι}
    (hi : s.removed t = some i) : i ∈ s.completed := by
  obtain ⟨place, hp⟩ := h.placed
  rw [hp.removed] at hi
  rw [hp.completed, hi]
  rfl

/-- What is being called back was called. -/
theorem Conserved.calling (h : Conserved s) {t : τ} {i : ι} (hi : s.calling t = some i) :
    i ∈ s.called := by
  obtain ⟨place, hp⟩ := h.placed
  rw [hp.calling] at hi
  rw [hp.called, hi]
  rfl

/-- What a thread completes was issued. -/
theorem Conserved.issued_of_busy (h : Conserved s) {t : τ} {i : ι}
    (hi : s.removed t = some i ∨ s.calling t = some i) : s.issued i := by
  obtain ⟨place, hp⟩ := h.placed
  rw [hp.removed, hp.calling] at hi
  rw [hp.issued]
  rcases hi with hi | hi <;> rw [hi] <;> exact Option.some_ne_none _

/-- No two threads complete the same item. -/
theorem Conserved.busy_unique (h : Conserved s) {t t' : τ} {i : ι}
    (ht : s.removed t = some i ∨ s.calling t = some i)
    (ht' : s.removed t' = some i ∨ s.calling t' = some i) : t = t' := by
  obtain ⟨place, hp⟩ := h.placed
  rw [hp.removed, hp.calling] at ht ht'
  rcases ht with ht | ht <;> rcases ht' with ht' | ht' <;> rw [ht] at ht' <;> cases ht' <;> rfl

/-- A called item was completed and is on neither list. -/
theorem Conserved.called (h : Conserved s) {i : ι} (hi : i ∈ s.called) :
    i ∈ s.completed ∧ i ∉ s.queue ∧ i ∉ s.delivered := by
  obtain ⟨place, hp⟩ := h.placed
  rw [hp.called] at hi
  rw [hp.completed, hp.queue, hp.delivered]
  rcases hpl : place i with _ | (t | _ | t | _ | _ | t | t | _) <;>
    simp [hpl, Place.isCalled, Place.isCompleted] at hi ⊢

/-- Each item is taken at most once. -/
theorem Conserved.taken_nodup (h : Conserved s) : s.taken.Nodup := by
  have := h.ordered.enqueued
  rw [h.ordered.fifo] at this
  exact (List.nodup_append.mp this).1

/-- While nobody is calling back, every callback has finished. -/
theorem Conserved.length_called (h : Conserved s) (hidle : ∀ t, s.calling t = none) :
    s.called.length = s.finished.length := by
  obtain ⟨place, hp⟩ := h.placed
  refine ((List.perm_ext_iff_of_nodup h.ordered.called h.ordered.finished).mpr ?_).length_eq
  intro i
  rw [hp.called, hp.finished]
  cases hpl : place i with
  | none => simp
  | some p =>
    cases p with
    | calling t =>
      have := (hp.calling t i).mpr hpl
      rw [hidle t] at this
      cases this
    | _ => simp [Place.isCalled]

/-- An item that was found and not called back yet. -/
theorem Conserved.of_removed {s : State ι τ} {t : τ} {i : ι} (hs : Conserved s)
    (h : s.removed t = some i) : i ∈ s.enqueued ∧ i ∉ s.called := by
  obtain ⟨place, hp⟩ := hs.placed
  have hplace := (hp.removed t i).mp h
  constructor
  · rw [hp.enqueued, hplace]
    rfl
  · rw [hp.called, hplace]
    exact Bool.false_ne_true

/-- With empty lists and empty hands every enqueued item has been finished. -/
theorem Conserved.all_finished {s : State ι τ} (hs : Conserved s) (hqueue : s.queue = [])
    (hdropped : s.dropped = []) (hdelivered : s.delivered = [])
    (hands : ∀ t, s.inHand t = none ∧ s.removed t = none ∧ s.calling t = none) {i : ι}
    (hi : i ∈ s.enqueued) : i ∈ s.finished := by
  obtain ⟨place, hp⟩ := hs.placed
  have hen := (hp.enqueued i).mp hi
  have hq := hp.queue i
  have hd := hp.dropped i
  have hdel := hp.delivered i
  have hin (t : τ) := hp.inHand t i
  have hrem (t : τ) := hp.removed t i
  have hcall (t : τ) := hp.calling t i
  rw [hqueue] at hq
  rw [hdropped] at hd
  rw [hdelivered] at hdel
  simp only [hands] at hin hrem hcall
  rw [hp.finished]
  cases hplace : place i with
  | none =>
    rw [hplace] at hen
    cases hen
  | some p =>
    rw [hplace] at hen hq hd hdel hin hrem hcall
    cases p with
    | finished => rfl
    | pending => cases hen
    | queued => exact absurd (hq.mpr rfl) List.not_mem_nil
    | dropped => exact absurd (hd.mpr rfl) List.not_mem_nil
    | delivered => exact absurd (hdel.mpr rfl) List.not_mem_nil
    | inHand t => exact absurd ((hin t).mpr rfl) (by simp)
    | removed t => exact absurd ((hrem t).mpr rfl) (by simp)
    | calling t => exact absurd ((hcall t).mpr rfl) (by simp)

end HandOff
