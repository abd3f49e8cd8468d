import Mathlib.Logic.Function.Basic

/-!
# A table of slots without owners

Holders claim slots, submit work that uses their slot, and give the slot back; the table
records which slots are busy and nothing else. Giving back is not checked. A step is labelled
with the condition under which it keeps every slot exclusive to one holder: the invariant
survives a step that meets its condition, and exclusivity does not survive any other.
-/

namespace SlotTable

universe u v

variable {κ : Type u} {σ : Type v}

/-- The busy slots, the slot of each known holder, the holders that gave theirs back, and
those with submitted work. -/
structure State (κ : Type u) (σ : Type v) where
  busy : σ → Prop
  slot : κ → σ
  known : κ → Prop
  released : κ → Prop
  queued : κ → Prop

/-- The holder relies on its slot. -/
def State.Held (t : State κ σ) (c : κ) : Prop := t.known c ∧ (¬t.released c ∨ t.queued c)

/-- Slots relied on are busy, each with one holder. -/
structure Exclusive (t : State κ σ) : Prop where
  active : ∀ c, t.Held c → t.busy (t.slot c)
  distinct : ∀ c c', t.Held c → t.Held c' → t.slot c = t.slot c' → c = c'

/-- Nobody relies on the slot that `c` gives back. -/
def State.MayRelease (t : State κ σ) (c : κ) : Prop :=
  ¬t.queued c ∧ ∀ c', t.Held c' → t.slot c' = t.slot c → c' = c

/-- The steps, each with its condition. -/
inductive Step [DecidableEq κ] (t : State κ σ) : State κ σ → Prop → Prop
  | claim {c : κ} {k : σ} (hc : ¬t.known c) :
      Step t { t with
        busy := fun j ↦ j = k ∨ t.busy j
        slot := Function.update t.slot c k
        known := fun d ↦ d = c ∨ t.known d } (¬t.busy k)
  | release {c : κ} (hc : t.known c) :
      Step t { t with
        busy := fun j ↦ j ≠ t.slot c ∧ t.busy j
        released := fun d ↦ d = c ∨ t.released d } (t.MayRelease c)
  | submit {c : κ} (hc : t.known c) :
      Step t { t with queued := fun d ↦ d = c ∨ t.queued d } (¬t.released c)
  | settle {queued : κ → Prop} (h : ∀ c, queued c → t.queued c) :
      Step t { t with queued := queued } True

/-- Exclusivity together with what keeps it. -/
structure Inv (t : State κ σ) : Prop extends Exclusive t where
  owner : ∀ k, t.busy k → ∃ c, t.known c ∧ ¬t.released c ∧ t.slot c = k
  settled : ∀ c, t.released c → ¬t.queued c
  released_known : ∀ c, t.released c → t.known c
  queued_known : ∀ c, t.queued c → t.known c

variable [DecidableEq κ] {t t' : State κ σ} {ok : Prop}

/-- A step that meets its condition keeps the invariant. -/
theorem Step.keeps (h : Step t t' ok) (hok : ok) (hs : Inv t) : Inv t' := by
  cases h with
  | @claim c k hc =>
    have hslot {d : κ} (hd : t.known d) : Function.update t.slot c k d = t.slot d := by
      refine Function.update_of_ne ?_ ..
      rintro rfl
      exact hc hd
    have hheld {d : κ} (hne : d ≠ c)
        (hd : (d = c ∨ t.known d) ∧ (¬t.released d ∨ t.queued d)) : t.Held d :=
      ⟨hd.1.resolve_left hne, hd.2⟩
    refine ⟨⟨?_, ?_⟩, ?_, hs.settled, fun d hd ↦ Or.inr (hs.released_known d hd),
      fun d hd ↦ Or.inr (hs.queued_known d hd)⟩
    · intro d hd
      by_cases hne : d = c
      · subst hne
        exact Or.inl (Function.update_self ..)
      · have hold := hheld hne hd
        change Function.update t.slot c k d = k ∨ t.busy (Function.update t.slot c k d)
        rw [hslot hold.1]
        exact Or.inr (hs.active d hold)
    · intro d d' hd hd' heq
      change Function.update t.slot c k d = Function.update t.slot c k d' at heq
      -- an old holder cannot have the slot that was free
      have hfree {e : κ} (he : t.Held e) : t.slot e ≠ k := by
        rintro rfl
        exact hok (hs.active e he)
      by_cases hne : d = c <;> by_cases hne' : d' = c
      · rw [hne, hne']
      · have hold := hheld hne' hd'
        rw [hne, Function.update_self, hslot hold.1] at heq
        exact absurd heq.symm (hfree hold)
      · have hold := hheld hne hd
        rw [hne', Function.update_self, hslot hold.1] at heq
        exact absurd heq (hfree hold)
      · have hold := hheld hne hd
        have hold' := hheld hne' hd'
        rw [hslot hold.1, hslot hold'.1] at heq
        exact hs.distinct d d' hold hold' heq
    · rintro j (rfl | hj)
      · refine ⟨c, Or.inl rfl, ?_, Function.update_self ..⟩
        intro hrel
        exact hc (hs.released_known c hrel)
      · obtain ⟨d, hd, hrel, rfl⟩ := hs.owner j hj
        exact ⟨d, Or.inr hd, hrel, hslot hd⟩
  | @release c hc =>
    obtain ⟨hqueued, hother⟩ := hok
    have hheld {d : κ} (hd : t.known d ∧ (¬(d = c ∨ t.released d) ∨ t.queued d)) :
        d ≠ c ∧ t.Held d := by
      refine ⟨?_, hd.1, ?_⟩
      · rintro rfl
        exact hd.2.elim (fun h ↦ h (Or.inl rfl)) hqueued
      · exact hd.2.imp_left fun h hrel ↦ h (Or.inr hrel)
    refine ⟨⟨?_, ?_⟩, ?_, ?_, ?_, hs.queued_known⟩
    · intro d hd
      obtain ⟨hne, hold⟩ := hheld hd
      exact ⟨fun heq ↦ hne (hother d hold heq), hs.active d hold⟩
    · intro d d' hd hd' heq
      exact hs.distinct d d' (hheld hd).2 (hheld hd').2 heq
    · rintro j ⟨hne, hj⟩
      obtain ⟨d, hd, hrel, rfl⟩ := hs.owner j hj
      refine ⟨d, hd, ?_, rfl⟩
      rintro (rfl | hrel')
      · exact hne rfl
      · exact hrel hrel'
    · rintro d (rfl | hd)
      · exact hqueued
      · exact hs.settled d hd
    · rintro d (rfl | hd)
      · exact hc
      · exact hs.released_known d hd
  | @submit c hc =>
    have hheld {d : κ} (hd : t.known d ∧ (¬t.released d ∨ d = c ∨ t.queued d)) : t.Held d := by
      refine ⟨hd.1, ?_⟩
      rcases hd.2 with h | rfl | h
      · exact Or.inl h
      · exact Or.inl hok
      · exact Or.inr h
    refine ⟨⟨fun d hd ↦ hs.active d (hheld hd),
      fun d d' hd hd' heq ↦ hs.distinct d d' (hheld hd) (hheld hd') heq⟩, hs.owner, ?_,
      hs.released_known, ?_⟩
    · rintro d hd (rfl | hq)
      · exact hok hd
      · exact hs.settled d hd hq
    · rintro d (rfl | hq)
      · exact hc
      · exact hs.queued_known d hq
  | @settle queued hsub =>
    have hheld {d : κ} (hd : t.known d ∧ (¬t.released d ∨ queued d)) : t.Held d :=
      ⟨hd.1, hd.2.imp_right (hsub d)⟩
    exact ⟨⟨fun d hd ↦ hs.active d (hheld hd),
      fun d d' hd hd' heq ↦ hs.distinct d d' (hheld hd) (hheld hd') heq⟩, hs.owner,
      fun d hd hq ↦ hs.settled d hd (hsub d hq), hs.released_known,
      fun d hq ↦ hs.queued_known d (hsub d hq)⟩

/-- A step that misses its condition breaks exclusivity. -/
theorem Step.breaks (h : Step t t' ok) (hok : ¬ok) (hs : Inv t) : ¬Exclusive t' := by
  intro hex
  cases h with
  | @claim c k hc =>
    -- the slot is still owned by an older holder
    obtain ⟨d, hd, hrel, rfl⟩ := hs.owner k (not_not.mp hok)
    have hne : d ≠ c := by
      rintro rfl
      exact hc hd
    refine hne (hex.distinct d c ⟨Or.inr hd, Or.inl hrel⟩ ⟨Or.inl rfl, Or.inl ?_⟩ ?_)
    · exact fun h ↦ hc (hs.released_known c h)
    · change Function.update t.slot c _ d = Function.update t.slot c _ c
      rw [Function.update_self, Function.update_of_ne hne]
  | @release c hc =>
    by_cases hq : t.queued c
    · have hactive := hex.active c ⟨hs.queued_known c hq, Or.inr hq⟩
      exact hactive.1 rfl
    · obtain ⟨d, hd⟩ := not_forall.mp fun hall ↦ hok ⟨hq, hall⟩
      obtain ⟨hheld, hd⟩ := Classical.not_imp.mp hd
      obtain ⟨heq, hne⟩ := Classical.not_imp.mp hd
      have hheld' : t.known d ∧ (¬(d = c ∨ t.released d) ∨ t.queued d) := by
        refine ⟨hheld.1, hheld.2.imp_left fun hrel ↦ ?_⟩
        rintro (h | h)
        · exact hne h
        · exact hrel h
      exact (hex.active d hheld').1 heq
  | @submit c hc =>
    have hrel : t.released c := not_not.mp hok
    have hheld : t.known c ∧ (¬t.released c ∨ c = c ∨ t.queued c) := ⟨hc, Or.inr (Or.inl rfl)⟩
    obtain ⟨d, hd, hdrel, heq⟩ := hs.owner _ (hex.active c hheld)
    have hdc := hex.distinct d c ⟨hd, Or.inl hdrel⟩ hheld heq
    subst hdc
    exact hdrel hrel
  | settle => exact hok trivial

end SlotTable
